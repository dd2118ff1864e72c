import Mathlib.Data.List.Dedup
import Mathlib.Data.List.Sort
import Mathlib.Data.String.Basic
import ShuttleFlow.Conversation.FIFOLock
import ShuttleFlow.Library.Dict

/-! # The resource lock manager

Threads take the locks of several keys in sorted order. A lock object is created
when its key is first used, and deleted when nobody uses the key any more.
-/

namespace ShuttleFlow

inductive Raised where
  | resourceLockTimeout (key : String) (timeout : ℚ)
  | keyError (key : String)
  | runtimeError
  | assertionError
  deriving DecidableEq

/-- A lock object, with the key that it was created for. -/
structure LockObject (Thread : Type) where
  key : String
  lock : FIFOLock Thread
  deriving DecidableEq

/-- `locks` refers to lock objects by their place in `objects`. -/
structure ResourceLockManager (Thread : Type) where
  locks : Dict String Nat
  refcounts : Dict String Int
  timeouts : Dict String ℚ
  objects : List (LockObject Thread)
  deriving DecidableEq

namespace ResourceLockManager

variable {Thread : Type}

def defaultTimeouts : Dict String ℚ where
  entries := [("file", 30), ("terminal", 300), ("browser", 300), ("mcp", 300), ("tool", 60)]
  nodup := by decide

def defaultTimeout : ℚ := 30

/-- No timeouts, like none given, means the default ones. -/
def init (timeouts : Option (Dict String ℚ)) : ResourceLockManager Thread where
  locks := .empty
  refcounts := .empty
  timeouts :=
    match timeouts with
    | none => defaultTimeouts
    | some timeouts => if timeouts.entries.isEmpty then defaultTimeouts else timeouts
  objects := []

/-- The part of a key before its first colon says what it is a key of. -/
def getTimeout (manager : ResourceLockManager Thread) (key : String) : ℚ :=
  (manager.timeouts.get? (String.ofList (key.toList.takeWhile (· ≠ ':')))).getD defaultTimeout

def setLock (manager : ResourceLockManager Thread) (id : Nat) (lock : FIFOLock Thread) :
    ResourceLockManager Thread :=
  { manager with objects := manager.objects.modify id fun object => { object with lock := lock } }

def lockOf (manager : ResourceLockManager Thread) (id : Nat) : Option (FIFOLock Thread) :=
  manager.objects[id]?.map LockObject.lock

theorem lockOf_setLock (manager : ResourceLockManager Thread) (id other : Nat)
    (lock : FIFOLock Thread) : (manager.setLock id lock).lockOf other =
      if other = id then (manager.lockOf other).map fun _ => lock else manager.lockOf other := by
  rw [setLock, lockOf, List.getElem?_modify, lockOf]
  by_cases hother : other = id
  · rw [if_pos hother]
    cases manager.objects[other]? with
    | none => rfl
    | some object => simp [hother]
  · rw [if_neg hother]
    cases manager.objects[other]? with
    | none => rfl
    | some object => simp [Ne.symm hother]

theorem lockOf_setLock_self {manager : ResourceLockManager Thread} {id : Nat}
    {old : FIFOLock Thread} (hold : manager.lockOf id = some old) (lock : FIFOLock Thread) :
    (manager.setLock id lock).lockOf id = some lock := by
  rw [lockOf_setLock, if_pos rfl, hold, Option.map_some]

theorem lockOf_setLock_of_ne {id other : Nat} (hother : other ≠ id)
    (manager : ResourceLockManager Thread) (lock : FIFOLock Thread) :
    (manager.setLock id lock).lockOf other = manager.lockOf other := by
  rw [lockOf_setLock, if_neg hother]

theorem exists_key_setLock {manager : ResourceLockManager Thread} {key : String} {other : Nat}
    (hobject : ∃ object, manager.objects[other]? = some object ∧ object.key = key) (id : Nat)
    (lock : FIFOLock Thread) :
    ∃ object, (manager.setLock id lock).objects[other]? = some object ∧ object.key = key := by
  obtain ⟨object, hobject, rfl⟩ := hobject
  rw [setLock, List.getElem?_modify, hobject]
  refine ⟨_, rfl, ?_⟩
  split <;> rfl

def addReference (manager : ResourceLockManager Thread) (key : String) :
    ResourceLockManager Thread :=
  { manager with
    refcounts := manager.refcounts.set key ((manager.refcounts.get? key).getD 0 + 1) }

def getLock (manager : ResourceLockManager Thread) (key : String) :
    ResourceLockManager Thread × Nat :=
  match manager.locks.get? key with
  | some id => (manager.addReference key, id)
  | none =>
      let created : ResourceLockManager Thread := { manager with
        locks := manager.locks.set key manager.objects.length
        objects := manager.objects ++ [⟨key, .init⟩] }
      (created.addReference key, manager.objects.length)

/-- One reference less. The last one takes the lock object with it. -/
def dropReference (manager : ResourceLockManager Thread) (key : String) :
    ResourceLockManager Thread × Option Raised :=
  match manager.refcounts.get? key with
  | none => (manager, some (.keyError key))
  | some references =>
      let dropped := { manager with refcounts := manager.refcounts.set key (references - 1) }
      if references - 1 = 0 then
        match (manager.locks.get? key).bind manager.lockOf with
        | none => (dropped, some (.keyError key))
        | some lock =>
            if lock.locked then (dropped, none)
            else
              ({ dropped with
                locks := dropped.locks.erase key
                refcounts := dropped.refcounts.erase key }, none)
      else (dropped, none)

variable [DecidableEq Thread]

def releaseLock (manager : ResourceLockManager Thread) (ident : Thread) (key : String) :
    ResourceLockManager Thread × Option Raised :=
  match manager.locks.get? key with
  | none => (manager, none)
  | some id =>
      match manager.lockOf id with
      | none => (manager, none)
      | some lock =>
          match lock.release ident with
          | .error .runtimeError => (manager, some .runtimeError)
          | .error .assertionError => (manager, some .assertionError)
          | .ok released => (manager.setLock id released).dropReference key

end ResourceLockManager

/-! ## Threads in `lock(*resource_keys)` -/

/-- Where a thread is: before `_get_lock`, before `acquire`, in its queue, before
the clean-up of a timeout, in its block, or in the `finally` clause. -/
inductive Stage where
  | getting (key : String) (rest : List String)
  | acquiring (key : String) (rest : List String) (id : Nat)
  | waiting (key : String) (rest : List String) (id : Nat)
  | cleaning (key : String)
  | inside
  | releasing (raised : Option Raised)
  deriving DecidableEq

structure Frame where
  resourceKeys : List String
  acquired : List String
  stage : Stage
  deriving DecidableEq

namespace Frame

def sortedKeys (resourceKeys : List String) : List String :=
  resourceKeys.dedup.insertionSort (· ≤ ·)

/-- The loop over the sorted keys goes on. -/
def next : List String → Stage
  | [] => .inside
  | key :: rest => .getting key rest

def start (resourceKeys : List String) : Frame where
  resourceKeys := resourceKeys
  acquired := []
  stage := next (sortedKeys resourceKeys)

def advance (frame : Frame) (key : String) (rest : List String) : Frame :=
  { frame with
    acquired := frame.acquired ++ [key]
    stage := next rest }

end Frame

structure LockUsers (Thread : Type) where
  manager : ResourceLockManager Thread
  frames : Dict Thread Frame
  deriving DecidableEq

/-- How a call of `lock` ends. -/
inductive Ended where
  | left
  | raised (error : Raised)
  deriving DecidableEq

inductive LockMove (Thread : Type) where
  | call (ident : Thread) (resourceKeys : List String)
  | getLock (ident : Thread)
  | acquire (ident : Thread) (start now : ℚ)
  | wake (ident : Thread)
  | resume (ident : Thread) (now : ℚ)
  | cleanUp (ident : Thread)
  | leave (ident : Thread)
  | releaseLock (ident : Thread)

namespace LockUsers

variable {Thread : Type} [DecidableEq Thread]

def init (timeouts : Option (Dict String ℚ)) : LockUsers Thread where
  manager := .init timeouts
  frames := .empty

def withFrame (users : LockUsers Thread) (ident : Thread) (frame : Frame) : LockUsers Thread :=
  { users with frames := users.frames.set ident frame }

/-- The thread goes on as its call of `acquire` on `id` has turned out. -/
def acquired (users : LockUsers Thread) (ident : Thread) (frame : Frame) (key : String)
    (rest : List String) (id : Nat) (lock : FIFOLock Thread) (occurrence : Occurrence) :
    LockUsers Thread :=
  let updated := { users with manager := users.manager.setLock id lock }
  match occurrence with
  | .slept _ => updated.withFrame ident { frame with stage := .waiting key rest id }
  | .gaveUp _ => updated.withFrame ident { frame with stage := .cleaning key }
  | .refused => updated.withFrame ident { frame with stage := .cleaning key }
  | _ => updated.withFrame ident (frame.advance key rest)

def move (users : LockUsers Thread) :
    LockMove Thread → Option (LockUsers Thread × List (Thread × Ended))
  | .call ident resourceKeys =>
      match users.frames.get? ident with
      | some _ => none
      | none => some (users.withFrame ident (.start resourceKeys), [])
  | .getLock ident =>
      match users.frames.get? ident with
      | some ⟨resourceKeys, acquired, .getting key rest⟩ =>
          let got := users.manager.getLock key
          some ({ users with manager := got.1 }.withFrame ident
            ⟨resourceKeys, acquired, .acquiring key rest got.2⟩, [])
      | _ => none
  | .acquire ident start now =>
      match users.frames.get? ident with
      | some ⟨resourceKeys, acquired, .acquiring key rest id⟩ =>
          match users.manager.lockOf id with
          | none => none
          | some lock =>
              let result := lock.acquire ident true (users.manager.getTimeout key) start now
              some (users.acquired ident ⟨resourceKeys, acquired, .acquiring key rest id⟩
                key rest id result.1 (result.2.getLast?.getD .refused), [])
      | _ => none
  | .wake ident =>
      match users.frames.get? ident with
      | some ⟨_, _, .waiting _ _ id⟩ =>
          match users.manager.lockOf id with
          | none => none
          | some lock =>
              match lock.waiterOf ident with
              | none => none
              | some waiter =>
                  some ({ users with
                    manager := users.manager.setLock id (lock.setPhase waiter.me .awake) }, [])
      | _ => none
  | .resume ident now =>
      match users.frames.get? ident with
      | some ⟨resourceKeys, acquired, .waiting key rest id⟩ =>
          match users.manager.lockOf id with
          | none => none
          | some lock =>
              match lock.waiterOf ident with
              | none => none
              | some waiter =>
                  if waiter.phase = .awake then
                    let result := lock.turn waiter now
                    some (users.acquired ident ⟨resourceKeys, acquired, .waiting key rest id⟩
                      key rest id result.1 result.2, [])
                  else none
      | _ => none
  | .cleanUp ident =>
      match users.frames.get? ident with
      | some ⟨resourceKeys, acquired, .cleaning key⟩ =>
          let result := users.manager.dropReference key
          let raised :=
            result.2.getD (.resourceLockTimeout key (users.manager.getTimeout key))
          some ({ users with manager := result.1 }.withFrame ident
            ⟨resourceKeys, acquired, .releasing (some raised)⟩, [])
      | _ => none
  | .leave ident =>
      match users.frames.get? ident with
      | some ⟨resourceKeys, acquired, .inside⟩ =>
          some (users.withFrame ident ⟨resourceKeys, acquired, .releasing none⟩, [])
      | _ => none
  | .releaseLock ident =>
      match users.frames.get? ident with
      | some ⟨resourceKeys, acquired, .releasing raised⟩ =>
          match acquired.getLast? with
          | none =>
              some ({ users with frames := users.frames.erase ident },
                [(ident, raised.elim .left .raised)])
          | some key =>
              let result := users.manager.releaseLock ident key
              match result.2 with
              | some error =>
                  some ({ manager := result.1, frames := users.frames.erase ident },
                    [(ident, .raised error)])
              | none =>
                  some ({ users with manager := result.1 }.withFrame ident
                    ⟨resourceKeys, acquired.dropLast, .releasing raised⟩, [])
      | _ => none

def system : TransitionSystem (LockUsers Thread) (LockMove Thread) (Thread × Ended) where
  step := move

end LockUsers

end ShuttleFlow
