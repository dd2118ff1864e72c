import Mathlib.Data.List.Nodup
import ShuttleFlow.Conversation.FIFOLock

/-! # Order at the FIFO lock

The queue of the lock is the line that its history leaves. While nobody owns
the lock, the head of the queue is not asleep.
-/

namespace ShuttleFlow

def Waiter.ticket {Thread : Type} (waiter : Waiter Thread) : Thread × Nat :=
  (waiter.ident, waiter.me)

namespace FIFOLock

variable {Thread : Type}

/-- What an occurrence is to the queue. -/
def visit? : Thread × Occurrence → Option (Visit (Thread × Nat))
  | (_, .obtained none) => some .walkIn
  | (ident, .obtained (some me)) => some (.serve (ident, me))
  | (ident, .enqueued me) => some (.arrive (ident, me))
  | (ident, .gaveUp me) => some (.leave (ident, me))
  | _ => none

def visits (trace : List (Thread × Occurrence)) : List (Visit (Thread × Nat)) :=
  trace.filterMap visit?

theorem visits_append (trace later : List (Thread × Occurrence)) :
    visits (trace ++ later) = visits trace ++ visits later := List.filterMap_append ..

theorem serve_notMem_visits {trace : List (Thread × Occurrence)} {ident : Thread}
    {me : Nat} (hnot : (ident, .obtained (some me)) ∉ trace) :
    Visit.serve (ident, me) ∉ visits trace := by
  intro hmem
  obtain ⟨⟨other, occurrence⟩, hseen, hvisit⟩ := List.mem_filterMap.mp hmem
  unfold visit? at hvisit
  split at hvisit
  all_goals cases hvisit
  next heq =>
    cases heq
    exact hnot hseen

theorem leave_notMem_visits {trace : List (Thread × Occurrence)} {ident : Thread}
    {me : Nat} (hnot : (ident, .gaveUp me) ∉ trace) : Visit.leave (ident, me) ∉ visits trace := by
  intro hmem
  obtain ⟨⟨other, occurrence⟩, hseen, hvisit⟩ := List.mem_filterMap.mp hmem
  unfold visit? at hvisit
  split at hvisit
  all_goals cases hvisit
  next heq =>
    cases heq
    exact hnot hseen

theorem enqueued_of_mem_visits {trace : List (Thread × Occurrence)} {ident : Thread}
    {me : Nat} (hmem : Visit.arrive (ident, me) ∈ visits trace) :
    (ident, .enqueued me) ∈ trace := by
  obtain ⟨⟨other, occurrence⟩, hseen, hvisit⟩ := List.mem_filterMap.mp hmem
  unfold visit? at hvisit
  split at hvisit
  all_goals cases hvisit
  next heq =>
    cases heq
    exact hseen

theorem map_ticket_setPhase (lock : FIFOLock Thread) (me : Nat) (phase : Phase) :
    (lock.setPhase me phase).waiters.map Waiter.ticket = lock.waiters.map Waiter.ticket := by
  rw [setPhase, List.map_map]
  refine List.map_congr_left fun waiter _ => ?_
  simp only [Function.comp_apply]
  split <;> rfl

theorem map_me_setPhase (lock : FIFOLock Thread) (me : Nat) (phase : Phase) :
    (lock.setPhase me phase).waiters.map Waiter.me = lock.waiters.map Waiter.me := by
  rw [setPhase, List.map_map]
  refine List.map_congr_left fun waiter _ => ?_
  simp only [Function.comp_apply]
  split <;> rfl

theorem head?_setPhase_of_ne {lock : FIFOLock Thread} {me : Nat} {phase : Phase}
    {waiter : Waiter Thread}
    (hne : lock.waiters.head?.map Waiter.me ≠ some me)
    (hhead : (lock.setPhase me phase).waiters.head? = some waiter) :
    lock.waiters.head? = some waiter := by
  rw [setPhase, List.head?_map] at hhead
  obtain ⟨first, hfirst, rfl⟩ := Option.map_eq_some_iff.mp hhead
  rw [hfirst] at hne ⊢
  rw [if_neg fun hsame => hne (congrArg some hsame)]

theorem map_notifyHead {Value : Type} {read : Waiter Thread → Value}
    (hread : ∀ waiter, read (notify waiter) = read waiter) (waiters : List (Waiter Thread)) :
    (notifyHead waiters).map read = waiters.map read := by
  cases waiters with
  | nil => rfl
  | cons first rest => rw [notifyHead, List.map_cons, List.map_cons, hread]

@[simp] theorem notify_me (waiter : Waiter Thread) : (notify waiter).me = waiter.me := by
  unfold notify
  split <;> rfl

@[simp] theorem notify_ident (waiter : Waiter Thread) :
    (notify waiter).ident = waiter.ident := by
  unfold notify
  split <;> rfl

theorem notify_phase (waiter : Waiter Thread) : (notify waiter).phase ≠ .asleep := by
  unfold notify
  split
  · simp
  · assumption

variable [DecidableEq Thread]

/-- The invariant of a lock with its history. -/
structure Orderly (trace : List (Thread × Occurrence)) (lock : FIFOLock Thread) : Prop where
  held : ∀ ident, acquires trace ident =
    releases trace ident + if lock.owner = some ident then lock.count else 0
  positive : lock.owner ≠ none → 0 < lock.count
  inOrder : Visit.InOrder (visits trace)
  line : Visit.line (visits trace) = lock.waiters.map Waiter.ticket
  old : ∀ waiter ∈ lock.waiters, waiter.me < lock.created
  distinct : (lock.waiters.map Waiter.me).Nodup
  headAwake : lock.owner = none → ∀ waiter, lock.waiters.head? = some waiter →
    waiter.phase ≠ .asleep

theorem orderly_init : Orderly ([] : List (Thread × Occurrence)) init where
  held ident := rfl
  positive howner := absurd rfl howner
  inOrder := .nil
  line := rfl
  old waiter hwaiter := by cases hwaiter
  distinct := List.nodup_nil
  headAwake howner waiter hhead := by cases hhead

variable {trace : List (Thread × Occurrence)} {lock : FIFOLock Thread}

theorem acquires_snoc (trace : List (Thread × Occurrence)) (ident other : Thread)
    (occurrence : Occurrence) :
    acquires (trace ++ [(other, occurrence)]) ident =
      acquires trace ident + if other = ident ∧ occurrence.isAcquire then 1 else 0 := by
  rw [acquires, acquires, List.countP_append, List.countP_singleton]
  simp

theorem releases_snoc (trace : List (Thread × Occurrence)) (ident other : Thread)
    (occurrence : Occurrence) :
    releases (trace ++ [(other, occurrence)]) ident =
      releases trace ident + if other = ident ∧ occurrence = .released then 1 else 0 := by
  rw [releases, releases, List.countP_append, List.countP_singleton]
  simp

/-- An occurrence that does not change who holds the lock. -/
theorem Orderly.held_snoc (horderly : Orderly trace lock) {occurrence : Occurrence}
    (hacquire : occurrence.isAcquire = false) (hrelease : occurrence ≠ .released)
    (other ident : Thread) :
    acquires (trace ++ [(other, occurrence)]) ident =
      releases (trace ++ [(other, occurrence)]) ident +
        if lock.owner = some ident then lock.count else 0 := by
  rw [acquires_snoc, releases_snoc, horderly.held]
  simp [hacquire, hrelease]

/-- A lock that is taken by a thread that did not hold it. -/
theorem Orderly.held_take (horderly : Orderly trace lock) (hfree : lock.owner = none)
    (me : Option Nat) (other ident : Thread) :
    acquires (trace ++ [(other, .obtained me)]) ident =
      releases (trace ++ [(other, .obtained me)]) ident +
        if some other = some ident then 1 else 0 := by
  rw [acquires_snoc, releases_snoc, horderly.held, hfree]
  by_cases hsame : other = ident
  · simp [hsame, Occurrence.isAcquire]
  · simp [hsame]

theorem Orderly.old_setPhase (horderly : Orderly trace lock) (me : Nat) (phase : Phase) :
    ∀ waiter ∈ (lock.setPhase me phase).waiters, waiter.me < lock.created := by
  intro waiter hwaiter
  have hmem : waiter.me ∈ (lock.setPhase me phase).waiters.map Waiter.me :=
    List.mem_map_of_mem hwaiter
  rw [map_me_setPhase] at hmem
  obtain ⟨found, hfound, hsame⟩ := List.mem_map.mp hmem
  exact hsame ▸ horderly.old found hfound

/-! ## One transition -/

theorem Orderly.wake (horderly : Orderly trace lock) (me : Nat) :
    Orderly trace (lock.setPhase me .awake) where
  held := horderly.held
  positive := horderly.positive
  inOrder := horderly.inOrder
  line := horderly.line.trans (map_ticket_setPhase ..).symm
  old := horderly.old_setPhase me .awake
  distinct := by
    rw [map_me_setPhase]
    exact horderly.distinct
  headAwake howner waiter hhead := by
    by_cases hsame : lock.waiters.head?.map Waiter.me = some me
    · rw [setPhase, List.head?_map] at hhead
      obtain ⟨first, hfirst, rfl⟩ := Option.map_eq_some_iff.mp hhead
      rw [hfirst] at hsame
      rw [if_pos (Option.some.inj hsame)]
      simp
    · exact horderly.headAwake howner waiter (head?_setPhase_of_ne hsame hhead)

theorem Orderly.note (horderly : Orderly trace lock) {occurrence : Occurrence}
    (hacquire : occurrence.isAcquire = false) (hrelease : occurrence ≠ .released)
    (ident : Thread) (hvisit : visit? (ident, occurrence) = none) :
    Orderly (trace ++ [(ident, occurrence)]) lock := by
  have hvisits : visits (trace ++ [(ident, occurrence)]) = visits trace := by
    rw [visits_append, visits, visits, List.filterMap_cons_none hvisit, List.filterMap_nil,
      List.append_nil]
  exact {
    held := horderly.held_snoc hacquire hrelease ident
    positive := horderly.positive
    inOrder := hvisits ▸ horderly.inOrder
    line := hvisits ▸ horderly.line
    old := horderly.old
    distinct := horderly.distinct
    headAwake := horderly.headAwake }

theorem Orderly.sleep (horderly : Orderly trace lock) {me : Nat} (ident : Thread)
    (hfirst : ¬(lock.waiters.head?.map Waiter.me = some me ∧ lock.owner = none)) :
    Orderly (trace ++ [(ident, .slept me)]) (lock.setPhase me .asleep) := by
  have hnoted : Orderly (trace ++ [(ident, .slept me)]) lock :=
    horderly.note rfl (by simp) ident rfl
  exact {
    held := hnoted.held
    positive := hnoted.positive
    inOrder := hnoted.inOrder
    line := hnoted.line.trans (map_ticket_setPhase ..).symm
    old := horderly.old_setPhase me .asleep
    distinct := by
      rw [map_me_setPhase]
      exact horderly.distinct
    headAwake := fun howner waiter hhead =>
      horderly.headAwake howner waiter
        (head?_setPhase_of_ne (fun hsame => hfirst ⟨hsame, howner⟩) hhead) }

/-- The line without a waiter. -/
theorem map_ticket_eraseP {waiters : List (Waiter Thread)} {waiter : Waiter Thread}
    (hdistinct : (waiters.map Waiter.me).Nodup) (hmem : waiter ∈ waiters) :
    (waiters.eraseP fun other => other.me = waiter.me).map Waiter.ticket =
      Visit.move (waiters.map Waiter.ticket) (.leave waiter.ticket) := by
  induction waiters with
  | nil => cases hmem
  | cons first rest ih =>
      by_cases hsame : first.me = waiter.me
      · have hfirst : first = waiter :=
          List.inj_on_of_nodup_map hdistinct List.mem_cons_self hmem hsame
        rw [List.eraseP_cons_of_pos (by simpa using hsame), List.map_cons, hfirst,
          Visit.move_leave_head]
      · have hrest : waiter ∈ rest :=
          (List.mem_cons.mp hmem).resolve_left fun heq => hsame (heq ▸ rfl)
        have hticket : first.ticket ≠ waiter.ticket := fun heq => hsame (congrArg Prod.snd heq)
        rw [List.eraseP_cons_of_neg (by simpa using hsame), List.map_cons, List.map_cons,
          Visit.move_leave_of_ne hticket, ih (List.nodup_cons.mp hdistinct).2 hrest]

theorem Orderly.giveUp (horderly : Orderly trace lock) {waiter : Waiter Thread}
    (hmem : waiter ∈ lock.waiters)
    (hfirst : ¬(lock.waiters.head?.map Waiter.me = some waiter.me ∧ lock.owner = none)) :
    Orderly (trace ++ [(waiter.ident, .gaveUp waiter.me)])
      { lock with waiters := lock.waiters.eraseP fun other => other.me = waiter.me } where
  held := horderly.held_snoc rfl (by simp) waiter.ident
  positive := horderly.positive
  inOrder := by
    rw [visits_append]
    refine horderly.inOrder.snoc ?_
    change waiter.ticket ∈ Visit.line (visits trace)
    rw [horderly.line]
    exact List.mem_map_of_mem hmem
  line := by
    rw [map_ticket_eraseP horderly.distinct hmem, ← horderly.line, visits_append]
    exact Visit.line_snoc (visits trace) (.leave waiter.ticket)
  old other hother := horderly.old other (List.mem_of_mem_eraseP hother)
  distinct := horderly.distinct.sublist (List.eraseP_sublist.map Waiter.me)
  headAwake howner other hhead := by
    refine horderly.headAwake howner other ?_
    cases hwaiters : lock.waiters with
    | nil => simp [hwaiters] at hhead
    | cons first rest =>
        have hne : first.me ≠ waiter.me := by
          intro hsame
          exact hfirst ⟨by simp [hwaiters, hsame], howner⟩
        simpa [hwaiters, hne] using hhead

theorem Orderly.serve (horderly : Orderly trace lock) {waiter : Waiter Thread}
    (hmem : waiter ∈ lock.waiters)
    (hhead : lock.waiters.head?.map Waiter.me = some waiter.me) (hfree : lock.owner = none) :
    Orderly (trace ++ [(waiter.ident, .obtained (some waiter.me))])
      { lock with waiters := lock.waiters.tail, owner := some waiter.ident, count := 1 } := by
  obtain ⟨first, hfirst, hsame⟩ := Option.map_eq_some_iff.mp hhead
  obtain ⟨rest, hwaiters⟩ : ∃ rest, lock.waiters = first :: rest := by
    cases hall : lock.waiters with
    | nil => simp [hall] at hfirst
    | cons other rest => exact ⟨rest, by simp_all⟩
  obtain rfl : first = waiter :=
    List.inj_on_of_nodup_map horderly.distinct (hwaiters ▸ List.mem_cons_self) hmem hsame
  have hline : Visit.line (visits trace) = first.ticket :: rest.map Waiter.ticket := by
    rw [horderly.line, hwaiters, List.map_cons]
  exact {
    held := horderly.held_take hfree _ first.ident
    positive := fun _ => Nat.one_pos
    inOrder := by
      rw [visits_append]
      refine horderly.inOrder.snoc ?_
      change (Visit.line (visits trace)).head? = some first.ticket
      rw [hline, List.head?_cons]
    line := by
      rw [visits_append]
      refine (Visit.line_snoc (visits trace) (.serve first.ticket)).trans ?_
      rw [hline, Visit.move_serve_head, hwaiters, List.tail_cons]
    old := fun other hother => horderly.old other (List.mem_of_mem_tail hother)
    distinct := horderly.distinct.sublist ((List.tail_sublist _).map Waiter.me)
    headAwake := fun howner => by cases howner }

/-- Once around the loop. -/
theorem Orderly.turn (horderly : Orderly trace lock) {waiter : Waiter Thread}
    (hmem : waiter ∈ lock.waiters) (now : ℚ) :
    Orderly (trace ++ [(waiter.ident, (lock.turn waiter now).2)]) (lock.turn waiter now).1 := by
  rcases lock.turn_cases waiter now with ⟨hhead, hfree, hturn⟩ | ⟨hfirst, hturn | hturn⟩
  · rw [hturn]
    exact horderly.serve hmem hhead hfree
  · rw [hturn]
    exact horderly.giveUp hmem hfirst
  · rw [hturn]
    exact horderly.sleep waiter.ident hfirst

theorem Orderly.enqueue (horderly : Orderly trace lock) {waiter : Waiter Thread}
    (hme : waiter.me = lock.created) (hqueue : lock.owner = none → lock.waiters ≠ []) :
    Orderly (trace ++ [(waiter.ident, .enqueued waiter.me)]) (lock.enqueue waiter) where
  held := horderly.held_snoc rfl (by simp) waiter.ident
  positive := horderly.positive
  inOrder := by
    rw [visits_append]
    refine horderly.inOrder.snoc ?_
    change waiter.ticket ∉ Visit.line (visits trace)
    rw [horderly.line]
    intro hmem
    obtain ⟨other, hother, hsame⟩ := List.mem_map.mp hmem
    have hold := horderly.old other hother
    have hmes : other.me = waiter.me := congrArg Prod.snd hsame
    omega
  line := by
    rw [visits_append]
    refine (Visit.line_snoc (visits trace) (.arrive waiter.ticket)).trans ?_
    rw [Visit.move, horderly.line, FIFOLock.enqueue, List.map_append, List.map_singleton]
  old other hother := by
    rcases List.mem_append.mp hother with hold | hnew
    · exact (horderly.old other hold).trans (Nat.lt_succ_self _)
    · rw [List.mem_singleton.mp hnew, hme]
      exact Nat.lt_succ_self _
  distinct := by
    rw [FIFOLock.enqueue, List.map_append, List.map_singleton, List.nodup_append]
    refine ⟨horderly.distinct, List.nodup_singleton _, fun first hfirst second hsecond => ?_⟩
    obtain ⟨other, hother, rfl⟩ := List.mem_map.mp hfirst
    rw [List.mem_singleton.mp hsecond, hme]
    exact (horderly.old other hother).ne
  headAwake howner other hhead := by
    refine horderly.headAwake howner other ?_
    rwa [FIFOLock.enqueue, List.head?_append_of_ne_nil _ (hqueue howner)] at hhead

theorem Orderly.acquire (horderly : Orderly trace lock) (ident : Thread) (blocking : Bool)
    (timeout start now : ℚ) :
    Orderly (trace ++ (lock.acquire ident blocking timeout start now).2.map (Prod.mk ident))
      (lock.acquire ident blocking timeout start now).1 := by
  rcases lock.acquire_cases ident blocking timeout start now with
    ⟨howner, hacquire⟩ | ⟨hfree, hempty, hacquire⟩ |
    ⟨-, hqueue, ⟨-, hacquire⟩ | ⟨-, waiter, hme, rfl, hacquire⟩⟩
  · rw [hacquire]
    have hvisits : visits (trace ++ [(ident, .reentered)]) = visits trace := by
      rw [visits_append]
      exact List.append_nil _
    exact {
      held := fun other => by
        rw [List.map_singleton, acquires_snoc, releases_snoc, horderly.held]
        by_cases hsame : ident = other
        · simp [howner, hsame, Occurrence.isAcquire, Nat.add_assoc]
        · simp [howner, hsame]
      positive := fun _ => Nat.succ_pos _
      inOrder := hvisits ▸ horderly.inOrder
      line := hvisits ▸ horderly.line
      old := horderly.old
      distinct := horderly.distinct
      headAwake := fun hnone => absurd hnone (by simp [howner]) }
  · rw [hacquire]
    have hline : Visit.line (visits trace) = [] := by rw [horderly.line, hempty, List.map_nil]
    exact {
      held := horderly.held_take hfree _ ident
      positive := fun _ => Nat.one_pos
      inOrder := by
        rw [visits_append]
        exact horderly.inOrder.snoc hline
      line := by
        rw [visits_append]
        exact (Visit.line_snoc ..).trans horderly.line
      old := horderly.old
      distinct := horderly.distinct
      headAwake := fun hnone => by cases hnone }
  · rw [hacquire]
    exact horderly.note rfl (by simp) ident rfl
  · rw [hacquire, List.map_cons, List.map_singleton, List.append_cons]
    refine (horderly.enqueue hme hqueue).turn ?_ now
    exact List.mem_append_right _ (List.mem_singleton_self _)

theorem Orderly.release (horderly : Orderly trace lock) {ident : Thread}
    {released : FIFOLock Thread} (hrelease : lock.release ident = .ok released) :
    Orderly (trace ++ [(ident, .released)]) released := by
  have hvisits : visits (trace ++ [(ident, .released)]) = visits trace := by
    rw [visits_append]
    exact List.append_nil _
  rcases lock.release_cases ident with
    ⟨-, heq⟩ | ⟨-, -, heq⟩ | ⟨howner, hcount, heq⟩ | ⟨howner, hcount, heq⟩
  · rw [hrelease] at heq
    cases heq
  · rw [hrelease] at heq
    cases heq
  · rw [hrelease] at heq
    cases heq
    exact {
      held := fun other => by
        rw [acquires_snoc, releases_snoc, horderly.held]
        by_cases hsame : ident = other
        · simp [howner, hsame, hcount, Occurrence.isAcquire]
        · simp [howner, hsame]
      positive := fun hsome => absurd rfl hsome
      inOrder := hvisits ▸ horderly.inOrder
      line := by
        rw [hvisits, horderly.line]
        refine (map_notifyHead (fun waiter => ?_) _).symm
        rw [Waiter.ticket, Waiter.ticket, notify_me, notify_ident]
      old := fun waiter hwaiter => by
        have hmem : waiter.me ∈ (notifyHead lock.waiters).map Waiter.me :=
          List.mem_map_of_mem hwaiter
        rw [map_notifyHead notify_me] at hmem
        obtain ⟨found, hfound, hsame⟩ := List.mem_map.mp hmem
        exact hsame ▸ horderly.old found hfound
      distinct := by
        rw [map_notifyHead notify_me]
        exact horderly.distinct
      headAwake := fun _ waiter hhead => by
        cases hwaiters : lock.waiters with
        | nil => simp [hwaiters, notifyHead] at hhead
        | cons first rest =>
            obtain rfl : notify first = waiter := by simpa [hwaiters, notifyHead] using hhead
            exact notify_phase first }
  · rw [hrelease] at heq
    cases heq
    exact {
      held := fun other => by
        rw [acquires_snoc, releases_snoc, horderly.held]
        by_cases hsame : ident = other
        · simp [howner, hsame, Occurrence.isAcquire]
          omega
        · simp [howner, hsame]
      positive := fun _ => by
        change 0 < lock.count - 1
        omega
      inOrder := hvisits ▸ horderly.inOrder
      line := hvisits ▸ horderly.line
      old := horderly.old
      distinct := horderly.distinct
      headAwake := horderly.headAwake }

theorem Orderly.move (horderly : Orderly trace lock) {label : Move Thread}
    {next : FIFOLock Thread} {seen : List (Thread × Occurrence)}
    (hmove : lock.move label = some (next, seen)) : Orderly (trace ++ seen) next := by
  cases label with
  | acquire ident blocking timeout start now =>
      simp only [FIFOLock.move] at hmove
      split at hmove
      · cases hmove
      · cases hmove
        exact horderly.acquire ident blocking timeout start now
  | wake ident =>
      simp only [FIFOLock.move] at hmove
      split at hmove
      · cases hmove
      next waiter hwaiter =>
        cases hmove
        rw [List.append_nil]
        exact horderly.wake waiter.me
  | resume ident now =>
      simp only [FIFOLock.move] at hmove
      split at hmove
      · cases hmove
      next waiter hwaiter =>
        split at hmove
        · cases hmove
          obtain ⟨hmem, rfl⟩ := mem_of_waiterOf hwaiter
          exact horderly.turn hmem now
        · cases hmove
  | release ident =>
      simp only [FIFOLock.move] at hmove
      split at hmove
      · cases hmove
      next hwaiter =>
        split at hmove
        · cases hmove
          exact horderly.note rfl (by simp) ident rfl
        next released hreleased =>
          cases hmove
          exact horderly.release hreleased

theorem orderly_of_runs (hruns : threads.Runs init trace lock) : Orderly trace lock :=
  hruns.invariant Orderly orderly_init fun _ _ _ _ _ horderly hmove => horderly.move hmove

/-- A release fails exactly for a thread that has released all that it acquired, and never with its
assertion. -/
theorem release_fails_of_runs (hruns : threads.Runs init trace lock) (ident : Thread) :
    lock.release ident ≠ .error .assertionError ∧
      (lock.release ident = .error .runtimeError ↔
        acquires trace ident ≤ releases trace ident) := by
  have horderly := orderly_of_runs hruns
  have hheld := horderly.held ident
  rcases lock.release_cases ident with
    ⟨howner, heq⟩ | ⟨howner, hcount, -⟩ | ⟨howner, hcount, heq⟩ | ⟨howner, hcount, heq⟩
  · rw [if_neg howner] at hheld
    rw [heq]
    exact ⟨by simp, iff_of_true rfl (by omega)⟩
  · have hpositive := horderly.positive (by simp [howner])
    omega
  all_goals
    rw [if_pos howner] at hheld
    rw [heq]
    exact ⟨by simp, iff_of_false (by simp) (by omega)⟩

/-- The thread 1 has acquired nothing. -/
theorem release_fails_of_runs_other :
    (⟨[], some 0, 1, 0⟩ : FIFOLock Nat).release 1 = .error .runtimeError := by
  have hruns : threads.Runs init [((0 : Nat), .obtained none)] ⟨[], some 0, 1, 0⟩ :=
    .of_run [.acquire 0 true (-1) 0 0] (by decide +kernel)
  exact (release_fails_of_runs hruns 1).2.mpr (by decide)

/-! ## Fairness -/

/-- What a history of the lock has to look like. -/
structure Fair (trace : List (Thread × Occurrence)) (lock : FIFOLock Thread) : Prop where
  /-- The owner is who has not released all that it acquired. -/
  owner : ∀ ident, releases trace ident < acquires trace ident ↔ lock.owner = some ident
  count : ∀ ident, acquires trace ident =
    releases trace ident + if lock.owner = some ident then lock.count else 0
  /-- Only who was in the queue before a waiting thread obtains the lock before it. -/
  noOvertaking : ∀ before between after ident me other entered,
    trace = before ++ (ident, .enqueued me) :: (between ++ (other, .obtained entered) :: after) →
    (ident, .obtained (some me)) ∉ between → (ident, .gaveUp me) ∉ between →
    (other = ident ∧ entered = some me) ∨
      ∃ earlier, entered = some earlier ∧ (other, .enqueued earlier) ∈ before
  headAwake : lock.owner = none → ∀ waiter, lock.waiters.head? = some waiter →
    waiter.phase = .awake ∨ waiter.phase = .notified

theorem Orderly.noOvertaking {before between after : List (Thread × Occurrence)}
    {ident other : Thread} {me : Nat} {entered : Option Nat}
    (horderly : Orderly
      (before ++ (ident, .enqueued me) :: (between ++ (other, .obtained entered) :: after)) lock)
    (hobtained : (ident, .obtained (some me)) ∉ between)
    (hgaveUp : (ident, .gaveUp me) ∉ between) :
    (other = ident ∧ entered = some me) ∨
      ∃ earlier, entered = some earlier ∧ (other, .enqueued earlier) ∈ before := by
  have hinOrder := horderly.inOrder
  have hserve := serve_notMem_visits hobtained
  have hleave := leave_notMem_visits hgaveUp
  cases entered with
  | none =>
      have hvisits : visits (before ++ (ident, .enqueued me) ::
          (between ++ (other, .obtained none) :: after)) =
          visits before ++ .arrive (ident, me) :: (visits between ++ .walkIn :: visits after) := by
        simp [visits, visit?]
      rw [hvisits] at hinOrder
      exact (hinOrder.not_walkIn_of_waiting hserve hleave).elim
  | some earlier =>
      have hvisits : visits (before ++ (ident, .enqueued me) ::
          (between ++ (other, .obtained (some earlier)) :: after)) =
          visits before ++ .arrive (ident, me) ::
            (visits between ++ .serve (other, earlier) :: visits after) := by
        simp [visits, visit?]
      rw [hvisits] at hinOrder
      rcases hinOrder.serve_of_waiting hserve hleave with hsame | hbefore
      · cases hsame
        exact .inl ⟨rfl, rfl⟩
      · exact .inr ⟨earlier, rfl, enqueued_of_mem_visits hbefore⟩

/-- Any number of threads, in any order of their transitions. -/
theorem fair_of_runs (hruns : threads.Runs init trace lock) : Fair trace lock := by
  have horderly := orderly_of_runs hruns
  refine ⟨fun ident => ?_, horderly.held, ?_, fun howner waiter hhead => ?_⟩
  · have hheld := horderly.held ident
    constructor
    · intro hlt
      by_contra howner
      rw [if_neg howner] at hheld
      omega
    · intro howner
      rw [if_pos howner] at hheld
      have hpositive := horderly.positive (by simp [howner])
      omega
  · rintro before between after ident me other entered rfl
    exact horderly.noOvertaking
  · have hphase := horderly.headAwake howner waiter hhead
    cases hwaiter : waiter.phase with
    | asleep => exact absurd hwaiter hphase
    | notified => exact .inr rfl
    | awake => exact .inl rfl

/-- The thread 1 gives up, and the lock goes to the thread 2. -/
theorem fair_of_runs_give_up :
    Fair [(0, .obtained none), (1, .enqueued 0), (1, .slept 0), (2, .enqueued 1), (2, .slept 1),
      (1, .gaveUp 0), (0, .released), (2, .obtained (some 1))]
      ⟨[], some 2, 1, 2⟩ :=
  fair_of_runs (TransitionSystem.Runs.of_run
    [.acquire 0 true (-1) 0 0, .acquire 1 true 1 0 0, .acquire 2 true (-1) 0 0, .wake 1,
      .resume 1 1, .release 0, .wake 2, .resume 2 2] (by decide +kernel))

end FIFOLock

end ShuttleFlow
