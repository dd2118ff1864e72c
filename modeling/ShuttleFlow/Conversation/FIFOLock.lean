import Mathlib.Data.Rat.Defs
import Mathlib.Algebra.Order.Ring.Rat
import ShuttleFlow.Library.Transitions
import ShuttleFlow.Library.WaitingLine

/-! # The FIFO lock

Threads queue for the lock. All that one call does between taking the internal
mutex and giving it back, by returning or by waiting, is one transition.
-/

namespace ShuttleFlow

/-- Where a waiting thread is: in `wait`, notified there, or back from it. -/
inductive Phase where
  | asleep
  | notified
  | awake
  deriving DecidableEq

/-- The condition `me` in the queue, with the variables of the call that waits on it. -/
structure Waiter (Thread : Type) where
  me : Nat
  ident : Thread
  start : ℚ
  timeout : ℚ
  phase : Phase
  deriving DecidableEq

/-- Conditions are numbered as they are created. -/
structure FIFOLock (Thread : Type) where
  waiters : List (Waiter Thread)
  owner : Option Thread
  count : Nat
  created : Nat
  deriving DecidableEq

/-- What becomes of a call in one transition. -/
inductive Occurrence where
  | reentered
  | obtained (me : Option Nat)
  | refused
  | enqueued (me : Nat)
  | slept (me : Nat)
  | gaveUp (me : Nat)
  | released
  | notReleased
  deriving DecidableEq

def Occurrence.isAcquire : Occurrence → Bool
  | .reentered => true
  | .obtained _ => true
  | _ => false

inductive ReleaseError where
  | runtimeError
  | assertionError
  deriving DecidableEq

namespace FIFOLock

variable {Thread : Type}

def init : FIFOLock Thread where
  waiters := []
  owner := none
  count := 0
  created := 0

def locked (lock : FIFOLock Thread) : Bool := lock.owner.isSome

def setPhase (lock : FIFOLock Thread) (me : Nat) (phase : Phase) : FIFOLock Thread :=
  { lock with
    waiters := lock.waiters.map fun waiter =>
      if waiter.me = me then { waiter with phase := phase } else waiter }

/-- Once around the loop of `acquire`. -/
def turn (lock : FIFOLock Thread) (waiter : Waiter Thread) (now : ℚ) :
    FIFOLock Thread × Occurrence :=
  if lock.waiters.head?.map Waiter.me = some waiter.me ∧ lock.owner = none then
    ({ lock with waiters := lock.waiters.tail, owner := some waiter.ident, count := 1 },
      .obtained (some waiter.me))
  else if 0 ≤ waiter.timeout ∧ waiter.timeout - (now - waiter.start) ≤ 0 then
    ({ lock with waiters := lock.waiters.eraseP fun other => other.me = waiter.me },
      .gaveUp waiter.me)
  else
    (lock.setPhase waiter.me .asleep, .slept waiter.me)

def enqueue (lock : FIFOLock Thread) (waiter : Waiter Thread) : FIFOLock Thread :=
  { lock with
    waiters := lock.waiters ++ [waiter]
    created := lock.created + 1 }

def notify (waiter : Waiter Thread) : Waiter Thread :=
  if waiter.phase = .asleep then { waiter with phase := .notified } else waiter

def notifyHead : List (Waiter Thread) → List (Waiter Thread)
  | [] => []
  | waiter :: rest => notify waiter :: rest

theorem turn_cases (lock : FIFOLock Thread) (waiter : Waiter Thread) (now : ℚ) :
    (lock.waiters.head?.map Waiter.me = some waiter.me ∧ lock.owner = none ∧
      lock.turn waiter now =
        ({ lock with waiters := lock.waiters.tail, owner := some waiter.ident, count := 1 },
          .obtained (some waiter.me))) ∨
    (¬(lock.waiters.head?.map Waiter.me = some waiter.me ∧ lock.owner = none) ∧
      (lock.turn waiter now =
        ({ lock with waiters := lock.waiters.eraseP fun other => other.me = waiter.me },
          .gaveUp waiter.me) ∨
      lock.turn waiter now = (lock.setPhase waiter.me .asleep, .slept waiter.me))) := by
  unfold turn
  split
  next hfirst => exact .inl ⟨hfirst.1, hfirst.2, rfl⟩
  next hfirst =>
    split
    · exact .inr ⟨hfirst, .inl rfl⟩
    · exact .inr ⟨hfirst, .inr rfl⟩

variable [DecidableEq Thread]

def owned (lock : FIFOLock Thread) (ident : Thread) : Bool := lock.owner = some ident

/-- `acquire`, until it returns or waits. -/
def acquire (lock : FIFOLock Thread) (ident : Thread) (blocking : Bool) (timeout start now : ℚ) :
    FIFOLock Thread × List Occurrence :=
  if lock.owner = some ident then
    ({ lock with count := lock.count + 1 }, [.reentered])
  else if lock.owner = none ∧ lock.waiters.isEmpty then
    ({ lock with owner := some ident, count := 1 }, [.obtained none])
  else if blocking = false then
    (lock, [.refused])
  else
    let waiter : Waiter Thread := ⟨lock.created, ident, start, timeout, .awake⟩
    let turned := (lock.enqueue waiter).turn waiter now
    (turned.1, [.enqueued waiter.me, turned.2])

def release (lock : FIFOLock Thread) (ident : Thread) : Except ReleaseError (FIFOLock Thread) :=
  if lock.owner ≠ some ident then .error .runtimeError
  else if lock.count < 1 then .error .assertionError
  else if lock.count - 1 = 0 then
    .ok { lock with
      count := lock.count - 1
      owner := none
      waiters := notifyHead lock.waiters }
  else
    .ok { lock with count := lock.count - 1 }

/-- The waiting call of a thread. -/
def waiterOf (lock : FIFOLock Thread) (ident : Thread) : Option (Waiter Thread) :=
  lock.waiters.find? fun waiter => waiter.ident = ident

theorem acquire_cases (lock : FIFOLock Thread) (ident : Thread) (blocking : Bool)
    (timeout start now : ℚ) :
    (lock.owner = some ident ∧ lock.acquire ident blocking timeout start now =
      ({ lock with count := lock.count + 1 }, [.reentered])) ∨
    (lock.owner = none ∧ lock.waiters = [] ∧ lock.acquire ident blocking timeout start now =
      ({ lock with owner := some ident, count := 1 }, [.obtained none])) ∨
    (lock.owner ≠ some ident ∧ (lock.owner = none → lock.waiters ≠ []) ∧
      ((blocking = false ∧ lock.acquire ident blocking timeout start now = (lock, [.refused])) ∨
      (blocking = true ∧ ∃ waiter : Waiter Thread, waiter.me = lock.created ∧
        waiter.ident = ident ∧ lock.acquire ident blocking timeout start now =
          (((lock.enqueue waiter).turn waiter now).1,
            [.enqueued waiter.me, ((lock.enqueue waiter).turn waiter now).2])))) := by
  unfold acquire
  split
  next howner => exact .inl ⟨howner, rfl⟩
  next howner =>
    split
    next hfree => exact .inr (.inl ⟨hfree.1, List.isEmpty_iff.mp hfree.2, rfl⟩)
    next hfree =>
      have hqueue : lock.owner = none → lock.waiters ≠ [] :=
        fun hnone hempty => hfree ⟨hnone, List.isEmpty_iff.mpr hempty⟩
      split
      next hrefused => exact .inr (.inr ⟨howner, hqueue, .inl ⟨hrefused, rfl⟩⟩)
      next hblocking =>
        rw [Bool.not_eq_false] at hblocking
        exact .inr (.inr ⟨howner, hqueue, .inr ⟨hblocking, _, rfl, rfl, rfl⟩⟩)

theorem release_cases (lock : FIFOLock Thread) (ident : Thread) :
    (lock.owner ≠ some ident ∧ lock.release ident = .error .runtimeError) ∨
    (lock.owner = some ident ∧ lock.count = 0 ∧ lock.release ident = .error .assertionError) ∨
    (lock.owner = some ident ∧ lock.count = 1 ∧ lock.release ident =
      .ok { lock with count := 0, owner := none, waiters := notifyHead lock.waiters }) ∨
    (lock.owner = some ident ∧ 1 < lock.count ∧
      lock.release ident = .ok { lock with count := lock.count - 1 }) := by
  unfold release
  split
  next howner => exact .inl ⟨howner, rfl⟩
  next howner =>
    rw [not_not] at howner
    split
    next hcount => exact .inr (.inl ⟨howner, by omega, rfl⟩)
    next hcount =>
      split
      next hlast =>
        rw [hlast]
        exact .inr (.inr (.inl ⟨howner, by omega, rfl⟩))
      next hlast => exact .inr (.inr (.inr ⟨howner, by omega, rfl⟩))

theorem mem_of_waiterOf {lock : FIFOLock Thread} {ident : Thread} {waiter : Waiter Thread}
    (hwaiter : lock.waiterOf ident = some waiter) :
    waiter ∈ lock.waiters ∧ waiter.ident = ident :=
  ⟨List.mem_of_find?_eq_some hwaiter, by simpa using List.find?_some hwaiter⟩

/-! ## Threads -/

/-- The transitions of a thread. A waiting thread is back from `wait` after a
notification, when its time is up, or for no reason. -/
inductive Move (Thread : Type) where
  | acquire (ident : Thread) (blocking : Bool) (timeout start now : ℚ)
  | wake (ident : Thread)
  | resume (ident : Thread) (now : ℚ)
  | release (ident : Thread)

def move (lock : FIFOLock Thread) :
    Move Thread → Option (FIFOLock Thread × List (Thread × Occurrence))
  | .acquire ident blocking timeout start now =>
      match lock.waiterOf ident with
      | some _ => none
      | none =>
          some ((lock.acquire ident blocking timeout start now).1,
            (lock.acquire ident blocking timeout start now).2.map (Prod.mk ident))
  | .wake ident =>
      match lock.waiterOf ident with
      | none => none
      | some waiter => some (lock.setPhase waiter.me .awake, [])
  | .resume ident now =>
      match lock.waiterOf ident with
      | none => none
      | some waiter =>
          if waiter.phase = .awake then
            some ((lock.turn waiter now).1, [(ident, (lock.turn waiter now).2)])
          else none
  | .release ident =>
      match lock.waiterOf ident with
      | some _ => none
      | none =>
          match lock.release ident with
          | .error _ => some (lock, [(ident, .notReleased)])
          | .ok released => some (released, [(ident, .released)])

def threads : TransitionSystem (FIFOLock Thread) (Move Thread) (Thread × Occurrence) where
  step := move

def acquires (trace : List (Thread × Occurrence)) (ident : Thread) : Nat :=
  trace.countP fun seen => seen.1 = ident ∧ Occurrence.isAcquire seen.2

def releases (trace : List (Thread × Occurrence)) (ident : Thread) : Nat :=
  trace.countP fun seen => seen.1 = ident ∧ seen.2 = .released

end FIFOLock

end ShuttleFlow
