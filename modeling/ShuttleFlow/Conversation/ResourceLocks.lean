import ShuttleFlow.Conversation.FIFOLockOrder
import ShuttleFlow.Conversation.ResourceLockManager

/-! # Who uses which lock

A thread uses a key from `_get_lock` to the end of `_release_lock` or of the
clean-up. References are counted by key, and each used key has one lock object.
-/

namespace ShuttleFlow

open scoped List

namespace FIFOLock

variable {Thread : Type}

def idents (lock : FIFOLock Thread) : List Thread := lock.waiters.map Waiter.ident

/-- What a call of `acquire` does to a lock, seen from the threads. -/
inductive Settled (old lock : FIFOLock Thread) (ident : Thread) : Occurrence → Prop
  | obtained (me : Option Nat) : old.owner = none → lock.owner = some ident → lock.count = 1 →
      (∀ other, other ∈ lock.idents ↔ other ∈ old.idents ∧ other ≠ ident) →
      Settled old lock ident (.obtained me)
  | gaveUp (me : Nat) : lock.owner = old.owner → lock.count = old.count →
      (∀ other, other ∈ lock.idents ↔ other ∈ old.idents ∧ other ≠ ident) →
      Settled old lock ident (.gaveUp me)
  | slept (me : Nat) : lock.owner = old.owner → lock.count = old.count →
      (∀ other, other ∈ lock.idents ↔ other ∈ old.idents ∨ other = ident) →
      Settled old lock ident (.slept me)

theorem idents_setPhase (lock : FIFOLock Thread) (me : Nat) (phase : Phase) :
    (lock.setPhase me phase).idents = lock.idents := by
  have htickets := congrArg (List.map Prod.fst) (map_ticket_setPhase lock me phase)
  rwa [List.map_map, List.map_map] at htickets

theorem idents_eraseP {waiters : List (Waiter Thread)} {waiter : Waiter Thread}
    (hdistinct : (waiters.map Waiter.me).Nodup) (hnodup : (waiters.map Waiter.ident).Nodup)
    (hmem : waiter ∈ waiters) (other : Thread) :
    other ∈ (waiters.eraseP fun other => other.me = waiter.me).map Waiter.ident ↔
      other ∈ waiters.map Waiter.ident ∧ other ≠ waiter.ident := by
  induction waiters with
  | nil => cases hmem
  | cons first rest ih =>
      obtain ⟨hnew, hrest⟩ := List.nodup_cons.mp hnodup
      by_cases hsame : first.me = waiter.me
      · obtain rfl : first = waiter :=
          List.inj_on_of_nodup_map hdistinct List.mem_cons_self hmem hsame
        rw [List.eraseP_cons_of_pos (by simp), List.map_cons, List.mem_cons]
        constructor
        · exact fun hother => ⟨.inr hother, fun heq => hnew (heq ▸ hother)⟩
        · rintro ⟨heq | hother, hne⟩
          · exact absurd heq hne
          · exact hother
      · have hwaiter : waiter ∈ rest :=
          (List.mem_cons.mp hmem).resolve_left fun heq => hsame (heq ▸ rfl)
        have hne : first.ident ≠ waiter.ident := fun heq =>
          hnew (heq ▸ List.mem_map_of_mem hwaiter)
        rw [List.eraseP_cons_of_neg (by simpa using hsame), List.map_cons, List.map_cons,
          List.mem_cons, List.mem_cons, ih (List.nodup_cons.mp hdistinct).2 hrest hwaiter,
          or_and_right]
        exact or_congr_left ⟨fun heq => ⟨heq, heq ▸ hne⟩, And.left⟩

theorem turn_settled {lock : FIFOLock Thread} {waiter : Waiter Thread}
    (hdistinct : (lock.waiters.map Waiter.me).Nodup) (hnodup : lock.idents.Nodup)
    (hmem : waiter ∈ lock.waiters) (now : ℚ) :
    Settled lock (lock.turn waiter now).1 waiter.ident (lock.turn waiter now).2 ∧
      (lock.turn waiter now).1.idents.Nodup := by
  rcases lock.turn_cases waiter now with ⟨hhead, hfree, hturn⟩ | ⟨-, hturn | hturn⟩
  · rw [hturn]
    refine ⟨.obtained _ hfree rfl rfl fun other => ?_,
      hnodup.sublist ((List.tail_sublist _).map Waiter.ident)⟩
    have htail : lock.waiters.tail = lock.waiters.eraseP fun other => other.me = waiter.me := by
      cases hwaiters : lock.waiters with
      | nil => rfl
      | cons first rest =>
          rw [hwaiters] at hhead
          rw [List.eraseP_cons_of_pos (by simpa using hhead), List.tail_cons]
    rw [idents, htail]
    exact idents_eraseP hdistinct hnodup hmem other
  · rw [hturn]
    exact ⟨.gaveUp _ rfl rfl (idents_eraseP hdistinct hnodup hmem),
      hnodup.sublist (List.eraseP_sublist.map Waiter.ident)⟩
  · rw [hturn]
    refine ⟨.slept _ rfl rfl fun other => ?_, (idents_setPhase ..).symm ▸ hnodup⟩
    rw [idents_setPhase]
    exact ⟨.inl, fun hor => hor.elim id fun heq => heq ▸ List.mem_map_of_mem hmem⟩

variable [DecidableEq Thread]

theorem acquire_settled {lock : FIFOLock Thread} {trace : List (Thread × Occurrence)}
    (horderly : Orderly trace lock) (hnodup : lock.idents.Nodup) {ident : Thread}
    (howner : lock.owner ≠ some ident) (hnew : ident ∉ lock.idents) (timeout start now : ℚ) :
    Settled lock (lock.acquire ident true timeout start now).1 ident
        ((lock.acquire ident true timeout start now).2.getLast?.getD .refused) ∧
      (lock.acquire ident true timeout start now).1.idents.Nodup := by
  rcases lock.acquire_cases ident true timeout start now with
    ⟨hreentered, -⟩ | ⟨hfree, hempty, hacquire⟩ |
    ⟨-, hqueue, ⟨hblocking, -⟩ | ⟨-, waiter, hme, rfl, hacquire⟩⟩
  · exact absurd hreentered howner
  · rw [hacquire]
    have hidents : lock.idents = [] := by rw [idents, hempty, List.map_nil]
    refine ⟨.obtained _ hfree rfl rfl fun other => ?_, hnodup⟩
    change other ∈ lock.idents ↔ _
    simp [hidents]
  · cases hblocking
  · rw [hacquire]
    have hidents : (lock.enqueue waiter).idents = lock.idents ++ [waiter.ident] := by
      rw [idents, enqueue, List.map_append, List.map_singleton]
      rfl
    have hqueued : (lock.enqueue waiter).idents.Nodup := by
      rw [hidents, List.nodup_append]
      refine ⟨hnodup, List.nodup_singleton _, fun first hfirst second hsecond heq => hnew ?_⟩
      rw [← List.mem_singleton.mp hsecond, ← heq]
      exact hfirst
    have hmem : ∀ other, other ∈ (lock.enqueue waiter).idents ↔
        other ∈ lock.idents ∨ other = waiter.ident := by simp [hidents]
    obtain ⟨hsettled, hafter⟩ := turn_settled (horderly.enqueue hme hqueue).distinct hqueued
      (List.mem_append_right _ (List.mem_singleton_self _)) now
    refine ⟨?_, hafter⟩
    simp only [List.getLast?_cons_cons, List.getLast?_singleton, Option.getD_some]
    generalize ((lock.enqueue waiter).turn waiter now).2 = occurrence at hsettled ⊢
    cases hsettled with
    | obtained me hfree hown hcount hothers =>
        refine .obtained me hfree hown hcount fun other => ?_
        rw [hothers, hmem, or_and_right, and_not_self_iff, or_false]
    | gaveUp me hown hcount hothers =>
        refine .gaveUp me hown hcount fun other => ?_
        rw [hothers, hmem, or_and_right, and_not_self_iff, or_false]
    | slept me hown hcount hothers =>
        refine .slept me hown hcount fun other => ?_
        rw [hothers, hmem, or_assoc, or_self]

/-- A lock held once is free after its release. -/
theorem release_of_owner {lock : FIFOLock Thread} {ident : Thread}
    (howner : lock.owner = some ident) (hcount : lock.count = 1) :
    ∃ released, lock.release ident = .ok released ∧ released.owner = none ∧
      released.idents = lock.idents := by
  rcases lock.release_cases ident with
    ⟨hnot, -⟩ | ⟨-, hzero, -⟩ | ⟨-, -, hrelease⟩ | ⟨-, hmore, -⟩
  · exact absurd howner hnot
  · omega
  · exact ⟨_, hrelease, rfl, map_notifyHead notify_ident lock.waiters⟩
  · omega

end FIFOLock

/-! ## Keys of a frame -/

namespace Stage

/-- The keys still to be acquired. -/
def todo : Stage → List String
  | .getting key rest => key :: rest
  | .acquiring key rest _ => key :: rest
  | .waiting key rest _ => key :: rest
  | .cleaning key => [key]
  | .inside => []
  | .releasing _ => []

/-- The key of a reference that has not become a lock held. -/
def wanted : Stage → Option String
  | .acquiring key _ _ => some key
  | .waiting key _ _ => some key
  | .cleaning key => some key
  | _ => none

def fetched : Stage → Option (String × Nat)
  | .acquiring key _ id => some (key, id)
  | .waiting key _ id => some (key, id)
  | _ => none

def queue : Stage → Option Nat
  | .waiting _ _ id => some id
  | _ => none

/-- Has the loop over the keys not been given up? -/
def looping : Stage → Bool
  | .cleaning _ => false
  | .releasing _ => false
  | _ => true

end Stage

namespace Frame

def uses (frame : Frame) (key : String) : Bool :=
  frame.acquired.contains key || frame.stage.wanted = some key

theorem uses_iff {frame : Frame} {key : String} :
    frame.uses key ↔ key ∈ frame.acquired ∨ frame.stage.wanted = some key := by
  simp [uses]

/-- The keys of a frame are the sorted keys, or what is left of them. -/
structure Planned (frame : Frame) : Prop where
  part : frame.acquired ++ frame.stage.todo <+ sortedKeys frame.resourceKeys
  whole : frame.stage.looping → frame.acquired ++ frame.stage.todo = sortedKeys frame.resourceKeys

theorem sortedKeys_pairwise (resourceKeys : List String) :
    (sortedKeys resourceKeys).Pairwise (· < ·) := by
  have hle : (sortedKeys resourceKeys).Pairwise (· ≤ ·) := List.pairwise_insertionSort _ _
  have hnodup : (sortedKeys resourceKeys).Nodup :=
    (List.perm_insertionSort _ _).nodup_iff.mpr (List.nodup_dedup resourceKeys)
  exact (hle.and hnodup).imp fun h => lt_of_le_of_ne h.1 h.2

theorem mem_sortedKeys {resourceKeys : List String} {key : String} :
    key ∈ sortedKeys resourceKeys ↔ key ∈ resourceKeys :=
  (List.perm_insertionSort _ _).mem_iff.trans List.mem_dedup

theorem Planned.pairwise {frame : Frame} (hplanned : frame.Planned) :
    (frame.acquired ++ frame.stage.todo).Pairwise (· < ·) :=
  (sortedKeys_pairwise _).sublist hplanned.part

@[simp] theorem todo_next (keys : List String) : (next keys).todo = keys := by
  cases keys <;> rfl

@[simp] theorem wanted_next (keys : List String) : (next keys).wanted = none := by
  cases keys <;> rfl

@[simp] theorem fetched_next (keys : List String) : (next keys).fetched = none := by
  cases keys <;> rfl

@[simp] theorem queue_next (keys : List String) : (next keys).queue = none := by
  cases keys <;> rfl

theorem planned_releasing {resourceKeys keys : List String}
    (hpart : keys <+ sortedKeys resourceKeys) (raised : Option Raised) :
    (⟨resourceKeys, keys, .releasing raised⟩ : Frame).Planned :=
  ⟨(List.append_nil keys).symm ▸ hpart, fun hlooping => by cases hlooping⟩

theorem planned_start (resourceKeys : List String) : (start resourceKeys).Planned := by
  constructor <;> simp [start]

end Frame

/-! ## The invariant -/

namespace LockUsers

variable {Thread : Type} [DecidableEq Thread]

/-- How many threads use a key. -/
def references (users : LockUsers Thread) (key : String) : Nat :=
  users.frames.countValues fun frame => frame.uses key

structure Sound (users : LockUsers Thread) : Prop where
  planned : ∀ ident frame, users.frames.get? ident = some frame → frame.Planned
  orderly : ∀ id lock, users.manager.lockOf id = some lock →
    ∃ trace, FIFOLock.Orderly trace lock
  nodup : ∀ id lock, users.manager.lockOf id = some lock → lock.idents.Nodup
  single : ∀ id lock, users.manager.lockOf id = some lock → lock.owner ≠ none → lock.count = 1
  located : ∀ key id, users.manager.locks.get? key = some id →
    ∃ object, users.manager.objects[id]? = some object ∧ object.key = key
  fetched : ∀ ident frame key id, users.frames.get? ident = some frame →
    frame.stage.fetched = some (key, id) → users.manager.locks.get? key = some id
  queued : ∀ ident id, (∃ lock, users.manager.lockOf id = some lock ∧ ident ∈ lock.idents) ↔
    ∃ frame, users.frames.get? ident = some frame ∧ frame.stage.queue = some id
  owned : ∀ ident id,
    (∃ lock, users.manager.lockOf id = some lock ∧ lock.owner = some ident) ↔
      ∃ frame key, users.frames.get? ident = some frame ∧ key ∈ frame.acquired ∧
        users.manager.locks.get? key = some id
  counted : ∀ key, users.manager.refcounts.get? key =
    if users.references key = 0 then none else some (users.references key : Int)
  kept : ∀ key, (users.manager.locks.get? key).isSome ↔ users.references key ≠ 0

theorem sound_init (timeouts : Option (Dict String ℚ)) :
    (init timeouts : LockUsers Thread).Sound where
  planned ident frame hframe := by cases hframe
  orderly id lock hlock := by
    simp [init, ResourceLockManager.init, ResourceLockManager.lockOf] at hlock
  nodup id lock hlock := by
    simp [init, ResourceLockManager.init, ResourceLockManager.lockOf] at hlock
  single id lock hlock := by
    simp [init, ResourceLockManager.init, ResourceLockManager.lockOf] at hlock
  located key id hid := by cases hid
  fetched ident frame key id hframe := by cases hframe
  queued ident id := by simp [init, ResourceLockManager.init, ResourceLockManager.lockOf]
  owned ident id := by simp [init, ResourceLockManager.init, ResourceLockManager.lockOf]
  counted key := rfl
  kept key := by
    simp [init, ResourceLockManager.init, references, Dict.countValues, Dict.empty, Dict.get?]

variable {users : LockUsers Thread}

theorem references_ne_zero_iff {key : String} : users.references key ≠ 0 ↔
    ∃ ident frame, users.frames.get? ident = some frame ∧ frame.uses key := by
  rw [← Nat.pos_iff_ne_zero]
  exact Dict.countValues_pos_iff

/-- A used key has a lock object. -/
theorem Sound.exists_id (hsound : users.Sound) {ident : Thread} {frame : Frame} {key : String}
    (hframe : users.frames.get? ident = some frame) (huses : frame.uses key) :
    ∃ id, users.manager.locks.get? key = some id :=
  Option.isSome_iff_exists.mp
    ((hsound.kept key).mpr (references_ne_zero_iff.mpr ⟨ident, frame, hframe, huses⟩))

theorem Sound.exists_lock (hsound : users.Sound) {key : String} {id : Nat}
    (hid : users.manager.locks.get? key = some id) :
    ∃ lock, users.manager.lockOf id = some lock := by
  obtain ⟨object, hobject, -⟩ := hsound.located key id hid
  exact ⟨object.lock, by rw [ResourceLockManager.lockOf, hobject]; rfl⟩

/-- Two keys never share a lock object. -/
theorem Sound.key_unique (hsound : users.Sound) {key other : String} {id : Nat}
    (hkey : users.manager.locks.get? key = some id)
    (hother : users.manager.locks.get? other = some id) : key = other := by
  obtain ⟨object, hobject, rfl⟩ := hsound.located key id hkey
  obtain ⟨found, hfound, rfl⟩ := hsound.located other id hother
  rw [Option.some.inj (hobject.symm.trans hfound)]

/-! ## Changes of one frame -/

variable {ident : Thread} {frames : Dict Thread Frame} {after : Option Frame}

theorem references_changed {key : String} (hchanged : users.frames.Changed frames ident after)
    (huses : after.any (fun frame => frame.uses key) =
      (users.frames.get? ident).any fun frame => frame.uses key)
    (manager : ResourceLockManager Thread) :
    ({ manager := manager, frames := frames } : LockUsers Thread).references key =
      users.references key := by
  have hcount := hchanged.count fun frame => frame.uses key
  rw [huses] at hcount
  exact Nat.add_right_cancel hcount

theorem get?_cases (hchanged : users.frames.Changed frames ident after) {other : Thread}
    {frame : Frame} (hframe : frames.get? other = some frame) :
    (other = ident ∧ after = some frame) ∨
      (other ≠ ident ∧ users.frames.get? other = some frame) := by
  by_cases hother : other = ident
  · exact .inl ⟨hother, hchanged.here.symm.trans (hother ▸ hframe)⟩
  · exact .inr ⟨hother, hchanged.elsewhere other hother ▸ hframe⟩

/-- A frame that changes nothing about locks. -/
theorem Sound.reframe (hsound : users.Sound)
    (hchanged : users.frames.Changed frames ident after)
    (hplanned : ∀ frame, after = some frame → frame.Planned)
    (hacquired : after.elim [] Frame.acquired =
      (users.frames.get? ident).elim [] Frame.acquired)
    (hafter : ∀ frame, after = some frame →
      frame.stage.wanted = none ∧ frame.stage.fetched = none ∧ frame.stage.queue = none)
    (hbefore : ∀ frame, users.frames.get? ident = some frame →
      frame.stage.wanted = none ∧ frame.stage.queue = none) :
    ({ users with frames := frames } : LockUsers Thread).Sound := by
  have huses : ∀ key, after.any (fun frame => frame.uses key) =
      (users.frames.get? ident).any fun frame => frame.uses key := by
    intro key
    cases hnew : after with
    | none =>
        cases hold : users.frames.get? ident with
        | none => rfl
        | some old =>
            rw [hnew, hold] at hacquired
            have hnil : old.acquired = [] := hacquired.symm
            simp [Frame.uses, hnil, (hbefore old hold).1]
    | some new =>
        cases hold : users.frames.get? ident with
        | none =>
            rw [hnew, hold] at hacquired
            have hnil : new.acquired = [] := hacquired
            simp [Frame.uses, hnil, (hafter new hnew).1]
        | some old =>
            rw [hnew, hold] at hacquired
            have hsame : new.acquired = old.acquired := hacquired
            simp [Frame.uses, hsame, (hafter new hnew).1, (hbefore old hold).1]
  have hreferences := fun key => references_changed hchanged (huses key) users.manager
  refine ⟨fun other frame hframe => ?_, hsound.orderly, hsound.nodup, hsound.single,
    hsound.located, fun other frame key id hframe hfetched => ?_, fun other id => ?_,
    fun other id => ?_, fun key => ?_, fun key => ?_⟩
  · rcases get?_cases hchanged hframe with ⟨-, hnew⟩ | ⟨-, hold⟩
    · exact hplanned frame hnew
    · exact hsound.planned other frame hold
  · rcases get?_cases hchanged hframe with ⟨-, hnew⟩ | ⟨-, hold⟩
    · rw [(hafter frame hnew).2.1] at hfetched
      cases hfetched
    · exact hsound.fetched other frame key id hold hfetched
  · rw [hsound.queued]
    by_cases hother : other = ident
    · subst hother
      constructor
      · rintro ⟨frame, hframe, hqueue⟩
        rw [(hbefore frame hframe).2] at hqueue
        cases hqueue
      · rintro ⟨frame, hframe, hqueue⟩
        rw [(hafter frame (hchanged.here.symm.trans hframe)).2.2] at hqueue
        cases hqueue
    · rw [hchanged.elsewhere other hother]
  · rw [hsound.owned]
    by_cases hother : other = ident
    · subst hother
      have hmem : ∀ key, key ∈ after.elim [] Frame.acquired ↔
          key ∈ (users.frames.get? other).elim [] Frame.acquired := fun key => by rw [hacquired]
      constructor
      · rintro ⟨frame, key, hframe, hkey, hid⟩
        rw [hframe] at hmem
        have hnew := (hmem key).mpr hkey
        cases hsome : after with
        | none => simp [hsome] at hnew
        | some new =>
            rw [hsome] at hnew
            exact ⟨new, key, hchanged.here.trans hsome, hnew, hid⟩
      · rintro ⟨frame, key, hframe, hkey, hid⟩
        rw [hchanged.here.symm.trans hframe] at hmem
        have hold := (hmem key).mp hkey
        cases hsome : users.frames.get? other with
        | none => simp [hsome] at hold
        | some old =>
            rw [hsome] at hold
            exact ⟨old, key, rfl, hold, hid⟩
    · rw [hchanged.elsewhere other hother]
  · rw [hreferences]
    exact hsound.counted key
  · rw [hreferences]
    exact hsound.kept key

/-- A change of the lock of one key, and of the frame of the thread that made it. -/
structure Exchange (ident : Thread) (key : String) (id : Nat) (old lock : FIFOLock Thread)
    (frame after : Frame) : Prop where
  planned : after.Planned
  uses : ∀ other, after.uses other = frame.uses other
  acquired : ∀ other, other ≠ key → (other ∈ after.acquired ↔ other ∈ frame.acquired)
  fetched : ∀ pair, after.stage.fetched = some pair → pair = (key, id)
  queueBefore : ∀ other, frame.stage.queue = some other → other = id
  queueAfter : ∀ other, after.stage.queue = some other → other = id
  orderly : ∃ trace, FIFOLock.Orderly trace lock
  nodup : lock.idents.Nodup
  single : lock.owner ≠ none → lock.count = 1
  others : ∀ other, other ≠ ident → ((other ∈ lock.idents ↔ other ∈ old.idents) ∧
    (lock.owner = some other ↔ old.owner = some other))
  waits : ident ∈ lock.idents ↔ after.stage.queue = some id
  holds : lock.owner = some ident ↔ key ∈ after.acquired

theorem Sound.exchange (hsound : users.Sound) {key : String} {id : Nat}
    {old lock : FIFOLock Thread} {frame new : Frame}
    (hframe : users.frames.get? ident = some frame)
    (hold : users.manager.lockOf id = some old)
    (hid : users.manager.locks.get? key = some id)
    (hchanged : users.frames.Changed frames ident (some new))
    (hexchange : Exchange ident key id old lock frame new) :
    ({ manager := users.manager.setLock id lock, frames := frames } : LockUsers Thread).Sound := by
  have hreferences : ∀ other, ({ manager := users.manager.setLock id lock, frames := frames } :
      LockUsers Thread).references other = users.references other := by
    refine fun other => references_changed hchanged ?_ _
    rw [hframe, Option.any_some, Option.any_some, hexchange.uses]
  have hlock := ResourceLockManager.lockOf_setLock_self hold lock
  have hlocks : ∀ other found, (users.manager.setLock id lock).lockOf other = some found →
      (other = id ∧ found = lock) ∨ users.manager.lockOf other = some found := by
    intro other found hfound
    by_cases hother : other = id
    · subst hother
      exact .inl ⟨rfl, Option.some.inj (hfound.symm.trans hlock)⟩
    · rw [ResourceLockManager.lockOf_setLock_of_ne hother] at hfound
      exact .inr hfound
  refine ⟨fun other found hfound => ?_, fun other found hfound => ?_,
    fun other found hfound => ?_, fun other found hfound => ?_, fun other place hplace => ?_,
    fun other found name place hfound hfetched => ?_, fun other place => ?_,
    fun other place => ?_, fun name => ?_, fun name => ?_⟩
  · rcases get?_cases hchanged hfound with ⟨-, hnew⟩ | ⟨-, hsame⟩
    · cases hnew
      exact hexchange.planned
    · exact hsound.planned other found hsame
  · rcases hlocks other found hfound with ⟨-, rfl⟩ | hsame
    · exact hexchange.orderly
    · exact hsound.orderly other found hsame
  · rcases hlocks other found hfound with ⟨-, rfl⟩ | hsame
    · exact hexchange.nodup
    · exact hsound.nodup other found hsame
  · rcases hlocks other found hfound with ⟨-, rfl⟩ | hsame
    · exact hexchange.single
    · exact hsound.single other found hsame
  · exact ResourceLockManager.exists_key_setLock (hsound.located other place hplace) id lock
  · rcases get?_cases hchanged hfound with ⟨-, hnew⟩ | ⟨-, hsame⟩
    · cases hnew
      obtain ⟨rfl, rfl⟩ := Prod.ext_iff.mp (hexchange.fetched _ hfetched)
      exact hid
    · exact hsound.fetched other found name place hsame hfetched
  · by_cases hother : other = ident
    · subst hother
      rw [hchanged.here]
      by_cases hplace : place = id
      · subst hplace
        constructor
        · rintro ⟨found, hfound, hmem⟩
          cases hlock.symm.trans hfound
          exact ⟨new, rfl, hexchange.waits.mp hmem⟩
        · rintro ⟨found, hfound, hqueue⟩
          cases hfound
          exact ⟨lock, hlock, hexchange.waits.mpr hqueue⟩
      · rw [ResourceLockManager.lockOf_setLock_of_ne hplace, hsound.queued]
        constructor
        · rintro ⟨found, hfound, hqueue⟩
          cases hframe.symm.trans hfound
          exact absurd (hexchange.queueBefore place hqueue) hplace
        · rintro ⟨found, hfound, hqueue⟩
          cases hfound
          exact absurd (hexchange.queueAfter place hqueue) hplace
    · rw [hchanged.elsewhere other hother, ← hsound.queued]
      by_cases hplace : place = id
      · subst hplace
        rw [hlock, hold]
        simp only [Option.some.injEq, exists_eq_left']
        exact (hexchange.others other hother).1
      · rw [ResourceLockManager.lockOf_setLock_of_ne hplace]
  · change _ ↔ ∃ found name, frames.get? other = some found ∧ name ∈ found.acquired ∧
      users.manager.locks.get? name = some place
    by_cases hother : other = ident
    · subst hother
      rw [hchanged.here]
      by_cases hplace : place = id
      · subst hplace
        constructor
        · rintro ⟨found, hfound, howner⟩
          cases hlock.symm.trans hfound
          exact ⟨new, key, rfl, hexchange.holds.mp howner, hid⟩
        · rintro ⟨found, name, hfound, hname, hplace⟩
          cases hfound
          obtain rfl := hsound.key_unique hid hplace
          exact ⟨lock, hlock, hexchange.holds.mpr hname⟩
      · rw [ResourceLockManager.lockOf_setLock_of_ne hplace, hsound.owned]
        have hne : ∀ name, users.manager.locks.get? name = some place → name ≠ key := by
          rintro name hname rfl
          exact hplace (Option.some.inj (hname.symm.trans hid))
        constructor
        · rintro ⟨found, name, hfound, hname, hnamed⟩
          cases hframe.symm.trans hfound
          exact ⟨new, name, rfl, (hexchange.acquired name (hne name hnamed)).mpr hname, hnamed⟩
        · rintro ⟨found, name, hfound, hname, hnamed⟩
          cases hfound
          exact ⟨frame, name, hframe, (hexchange.acquired name (hne name hnamed)).mp hname, hnamed⟩
    · rw [hchanged.elsewhere other hother, ← hsound.owned]
      by_cases hplace : place = id
      · subst hplace
        rw [hlock, hold]
        simp only [Option.some.injEq, exists_eq_left']
        exact (hexchange.others other hother).2
      · rw [ResourceLockManager.lockOf_setLock_of_ne hplace]
  · rw [hreferences]
    exact hsound.counted name
  · rw [hreferences]
    exact hsound.kept name

/-! ## One reference more, one reference less -/

/-- A thread that has dropped its reference to a key, whatever has become of the key. -/
theorem Sound.dropped (hsound : users.Sound) {key : String} {frame new : Frame}
    {manager : ResourceLockManager Thread}
    (hframe : users.frames.get? ident = some frame)
    (hstage : frame.stage = .cleaning key)
    (hacquired : new.acquired = frame.acquired) (hplanned : new.Planned)
    (hnew : new.stage.wanted = none ∧ new.stage.fetched = none ∧ new.stage.queue = none)
    (hchanged : users.frames.Changed frames ident (some new))
    (hobjects : manager.objects = users.manager.objects)
    (helsewhere : ∀ other, other ≠ key →
      manager.locks.get? other = users.manager.locks.get? other ∧
      manager.refcounts.get? other = users.manager.refcounts.get? other)
    (hlock : manager.locks.get? key =
      if users.references key = 1 then none else users.manager.locks.get? key)
    (hcount : manager.refcounts.get? key =
      if users.references key = 1 then none else some ((users.references key : Int) - 1)) :
    ({ manager := manager, frames := frames } : LockUsers Thread).Sound := by
  have hnodup := (hsound.planned ident frame hframe).pairwise.imp ne_of_lt
  rw [hstage] at hnodup
  have hkey : key ∉ frame.acquired := fun hmem =>
    (List.pairwise_append.mp hnodup).2.2 key hmem key (List.mem_singleton_self key) rfl
  have huses : frame.uses key := Frame.uses_iff.mpr (.inr (by rw [hstage]; rfl))
  have hunused : new.uses key = false := by
    rw [← Bool.not_eq_true, Frame.uses_iff, hacquired, hnew.1]
    simp [hkey]
  have hsame : ∀ other, other ≠ key → new.uses other = frame.uses other := by
    intro other hother
    rw [Frame.uses, Frame.uses, hacquired, hnew.1, hstage]
    simp [Stage.wanted, Ne.symm hother]
  have hreferences : ∀ other, other ≠ key →
      ({ manager := manager, frames := frames } : LockUsers Thread).references other =
        users.references other := by
    refine fun other hother => references_changed hchanged ?_ _
    rw [hframe, Option.any_some, Option.any_some, hsame other hother]
  have hless : ({ manager := manager, frames := frames } : LockUsers Thread).references key + 1 =
      users.references key := by
    have hcounted := hchanged.count fun frame => frame.uses key
    rw [hframe, Option.any_some, Option.any_some, huses, hunused] at hcounted
    exact hcounted
  have hlockOf : ∀ id, manager.lockOf id = users.manager.lockOf id := by
    intro id
    rw [ResourceLockManager.lockOf, hobjects, ResourceLockManager.lockOf]
  -- whoever else uses the key has kept its lock object
  have hkept : ∀ other found, frames.get? other = some found → ∀ name, found.uses name →
      manager.locks.get? name = users.manager.locks.get? name := by
    intro other found hfound name hname
    by_cases hsome : name = key
    · subst hsome
      have hused : ({ manager := manager, frames := frames } : LockUsers Thread).references name
          ≠ 0 := references_ne_zero_iff.mpr ⟨other, found, hfound, hname⟩
      rw [hlock, if_neg (by omega)]
    · exact (helsewhere name hsome).1
  have hback : ∀ name id, manager.locks.get? name = some id →
      users.manager.locks.get? name = some id := by
    intro name id hid
    by_cases hsome : name = key
    · subst hsome
      rw [hlock] at hid
      split at hid
      · cases hid
      · exact hid
    · rw [← (helsewhere name hsome).1]
      exact hid
  refine ⟨fun other found hfound => ?_, fun id found hfound => ?_, fun id found hfound => ?_,
    fun id found hfound => ?_, fun name id hid => ?_, fun other found name id hfound hfetched => ?_,
    fun other id => ?_, fun other id => ?_, fun name => ?_, fun name => ?_⟩
  · rcases get?_cases hchanged hfound with ⟨-, hself⟩ | ⟨-, hold⟩
    · cases hself
      exact hplanned
    · exact hsound.planned other found hold
  · exact hsound.orderly id found (hlockOf id ▸ hfound)
  · exact hsound.nodup id found (hlockOf id ▸ hfound)
  · exact hsound.single id found (hlockOf id ▸ hfound)
  · rw [hobjects]
    exact hsound.located name id (hback name id hid)
  · have hused : found.uses name := by
      rw [Frame.uses_iff]
      right
      cases hfoundStage : found.stage <;> rw [hfoundStage] at hfetched <;> cases hfetched <;> rfl
    rcases get?_cases hchanged hfound with ⟨-, hself⟩ | ⟨-, hold⟩
    · cases hself
      rw [hnew.2.1] at hfetched
      cases hfetched
    · exact (hkept other found hfound name hused).trans
        (hsound.fetched other found name id hold hfetched)
  · rw [hlockOf, hsound.queued]
    by_cases hother : other = ident
    · subst hother
      have hqueue : frame.stage.queue = none := by
        rw [hstage]
        rfl
      rw [hchanged.here, hframe]
      simp [hqueue, hnew.2.2]
    · rw [hchanged.elsewhere other hother]
  · rw [hlockOf, hsound.owned]
    have hboth : ∀ found, frames.get? other = some found → ∀ name ∈ found.acquired,
        (users.manager.locks.get? name = some id ↔ manager.locks.get? name = some id) := by
      intro found hfound name hname
      rw [hkept other found hfound name (Frame.uses_iff.mpr (.inl hname))]
    by_cases hother : other = ident
    · subst hother
      constructor
      · rintro ⟨found, name, hfound, hname, hid⟩
        cases hframe.symm.trans hfound
        rw [← hacquired] at hname
        exact ⟨new, name, hchanged.here, hname, (hboth new hchanged.here name hname).mp hid⟩
      · rintro ⟨found, name, hfound, hname, hid⟩
        cases hchanged.here.symm.trans hfound
        exact ⟨frame, name, hframe, hacquired ▸ hname, (hboth new hfound name hname).mpr hid⟩
    · have hget := hchanged.elsewhere other hother
      constructor
      · rintro ⟨found, name, hfound, hname, hid⟩
        exact ⟨found, name, hget.trans hfound, hname,
          (hboth found (hget.trans hfound) name hname).mp hid⟩
      · rintro ⟨found, name, hfound, hname, hid⟩
        exact ⟨found, name, hget.symm.trans hfound, hname, (hboth found hfound name hname).mpr hid⟩
  · by_cases hname : name = key
    · subst hname
      change manager.refcounts.get? name = _
      rw [hcount]
      split
      next hone => rw [if_pos (by omega)]
      next hone =>
        rw [if_neg (by omega)]
        congr 1
        omega
    · change manager.refcounts.get? name = _
      rw [hreferences name hname, (helsewhere name hname).2]
      exact hsound.counted name
  · by_cases hname : name = key
    · subst hname
      change (manager.locks.get? name).isSome ↔ _
      rw [hlock]
      split
      next hone =>
        simp only [Option.isSome_none, Bool.false_eq_true, false_iff, not_not]
        omega
      next hone =>
        have hold := hsound.kept name
        rw [hold]
        omega
    · change (manager.locks.get? name).isSome ↔ _
      rw [hreferences name hname, (helsewhere name hname).1]
      exact hsound.kept name

/-- Dropping a reference never fails. -/
theorem Sound.dropReference (hsound : users.Sound) {key : String} {frame new : Frame}
    (hframe : users.frames.get? ident = some frame)
    (hstage : frame.stage = .cleaning key)
    (hacquired : new.acquired = frame.acquired) (hplanned : new.Planned)
    (hnew : new.stage.wanted = none ∧ new.stage.fetched = none ∧ new.stage.queue = none)
    (hchanged : users.frames.Changed frames ident (some new)) :
    (users.manager.dropReference key).2 = none ∧
      ({ manager := (users.manager.dropReference key).1, frames := frames } :
        LockUsers Thread).Sound := by
  have huses : frame.uses key := Frame.uses_iff.mpr (.inr (by rw [hstage]; rfl))
  have hpositive : users.references key ≠ 0 :=
    references_ne_zero_iff.mpr ⟨ident, frame, hframe, huses⟩
  have hcounted := hsound.counted key
  rw [if_neg hpositive] at hcounted
  obtain ⟨id, hid⟩ := hsound.exists_id hframe huses
  obtain ⟨lock, hlock⟩ := hsound.exists_lock hid
  by_cases hlast : users.references key = 1
  · -- nobody else uses the key, so nobody holds its lock
    have hfree : lock.locked = false := by
      rw [FIFOLock.locked, ← Bool.not_eq_true, Option.isSome_iff_exists]
      rintro ⟨owner, howner⟩
      obtain ⟨found, name, hfound, hname, hnamed⟩ :=
        (hsound.owned owner id).mp ⟨lock, hlock, howner⟩
      obtain rfl := hsound.key_unique hid hnamed
      have hnodup := (hsound.planned owner found hfound).pairwise.imp ne_of_lt
      by_cases howns : owner = ident
      · subst howns
        cases hframe.symm.trans hfound
        rw [hstage] at hnodup
        exact (List.pairwise_append.mp hnodup).2.2 key hname key (List.mem_singleton_self key) rfl
      · have hless := (Dict.changed_erase users.frames ident).count fun frame => frame.uses key
        rw [hframe, Option.any_some, huses, Option.any_none] at hless
        have hmore : 0 < (users.frames.erase ident).countValues fun frame => frame.uses key := by
          refine Dict.countValues_pos_iff.mpr ⟨owner, found, ?_, Frame.uses_iff.mpr (.inl hname)⟩
          rw [Dict.get?_erase, if_neg howns, hfound]
        change users.frames.countValues (fun frame => frame.uses key) = 1 at hlast
        simp only [if_true, Bool.false_eq_true, if_false] at hless
        omega
    have hdrop : users.manager.dropReference key = ({ users.manager with
        locks := users.manager.locks.erase key
        refcounts := (users.manager.refcounts.set key ((users.references key : Int) - 1)).erase
          key }, none) := by
      rw [ResourceLockManager.dropReference, hcounted]
      simp [hlast, hid, hlock, hfree]
    rw [hdrop]
    refine ⟨rfl, hsound.dropped hframe hstage hacquired hplanned hnew hchanged rfl ?_ ?_ ?_⟩
    · intro other hother
      simp [Dict.get?_erase, Dict.get?_set, hother]
    · simp [Dict.get?_erase, hlast]
    · simp [Dict.get?_erase, hlast]
  · have hdrop : users.manager.dropReference key = ({ users.manager with
        refcounts := users.manager.refcounts.set key ((users.references key : Int) - 1) },
        none) := by
      rw [ResourceLockManager.dropReference, hcounted]
      simp only
      rw [if_neg (by omega)]
    rw [hdrop]
    refine ⟨rfl, hsound.dropped hframe hstage hacquired hplanned hnew hchanged rfl ?_ ?_ ?_⟩
    · intro other hother
      simp [Dict.get?_set, hother]
    · simp [hlast]
    · simp [Dict.get?_set, hlast]

/-- A thread that gets the lock object of its next key. -/
theorem Sound.getLock (hsound : users.Sound) {resourceKeys acquired rest : List String}
    {key : String}
    (hframe : users.frames.get? ident = some ⟨resourceKeys, acquired, .getting key rest⟩)
    (hchanged : users.frames.Changed frames ident
      (some ⟨resourceKeys, acquired, .acquiring key rest (users.manager.getLock key).2⟩)) :
    ({ manager := (users.manager.getLock key).1, frames := frames } : LockUsers Thread).Sound := by
  have hplan := hsound.planned ident _ hframe
  have hnodup := hplan.pairwise.imp ne_of_lt
  have hkey : key ∉ acquired := fun hmem =>
    (List.pairwise_append.mp hnodup).2.2 key hmem key List.mem_cons_self rfl
  have hbefore : ∀ other, (⟨resourceKeys, acquired, .getting key rest⟩ : Frame).uses other =
      acquired.contains other := by
    intro other
    simp [Frame.uses, Stage.wanted]
  have hafter : ∀ other id, (⟨resourceKeys, acquired, .acquiring key rest id⟩ : Frame).uses other =
      (acquired.contains other || decide (key = other)) := by
    intro other id
    simp [Frame.uses, Stage.wanted]
  have hreferences : ∀ manager other, other ≠ key →
      ({ manager := manager, frames := frames } : LockUsers Thread).references other =
        users.references other := by
    refine fun manager other hother => references_changed hchanged ?_ _
    rw [hframe, Option.any_some, Option.any_some, hbefore, hafter]
    simp [Ne.symm hother]
  have hmore : ∀ manager,
      ({ manager := manager, frames := frames } : LockUsers Thread).references key =
        users.references key + 1 := by
    intro manager
    have hcounted := hchanged.count fun frame => frame.uses key
    rw [hframe, Option.any_some, Option.any_some, hbefore, hafter] at hcounted
    simpa [hkey, references] using hcounted
  have hnext : ∀ name, (users.manager.getLock key).1.refcounts.get? name =
      if name = key then some ((users.references key : Int) + 1)
      else users.manager.refcounts.get? name := by
    intro name
    have hcounted := hsound.counted key
    have hvalue : (users.manager.refcounts.get? key).getD 0 = (users.references key : Int) := by
      rw [hcounted]
      split
      next hzero => rw [hzero, Option.getD_none, Int.ofNat_zero]
      next => rw [Option.getD_some]
    rw [← hvalue]
    unfold ResourceLockManager.getLock
    split
    · exact Dict.get?_set ..
    · exact Dict.get?_set ..
  -- the lock objects, with or without a new one
  obtain ⟨hlocks, hlocated, hother, hlockOf⟩ :
      (∀ name, (users.manager.getLock key).1.locks.get? name =
        if name = key then some (users.manager.getLock key).2
        else users.manager.locks.get? name) ∧
      (∃ object, (users.manager.getLock key).1.objects[(users.manager.getLock key).2]? =
        some object ∧ object.key = key) ∧
      (∀ (place : Nat) object, users.manager.objects[place]? = some object →
        (users.manager.getLock key).1.objects[place]? = some object) ∧
      (∀ place lock, (users.manager.getLock key).1.lockOf place = some lock →
        users.manager.lockOf place = some lock ∨
          (lock = .init ∧ users.manager.lockOf place = none ∧
            users.manager.locks.get? key = none)) := by
    unfold ResourceLockManager.getLock
    split
    next id hid =>
      refine ⟨fun name => ?_, hsound.located key id hid, fun place object hobject => hobject,
        fun place lock hlock => .inl hlock⟩
      change users.manager.locks.get? name = _
      split
      next hname => rw [hname, hid]
      next => rfl
    next hnone =>
      refine ⟨fun name => Dict.get?_set .., ⟨⟨key, .init⟩, by
        simp [ResourceLockManager.addReference], rfl⟩, fun place object hobject => ?_,
        fun place lock hlock => ?_⟩
      · obtain ⟨hplace, -⟩ := List.getElem?_eq_some_iff.mp hobject
        change (users.manager.objects ++ [⟨key, .init⟩])[place]? = some object
        rw [List.getElem?_append_left hplace, hobject]
      · change ((users.manager.objects ++ [⟨key, .init⟩])[place]?).map LockObject.lock =
          some lock at hlock
        by_cases hplace : place < users.manager.objects.length
        · rw [List.getElem?_append_left hplace] at hlock
          exact .inl hlock
        · have hgone : users.manager.lockOf place = none := by
            rw [ResourceLockManager.lockOf, List.getElem?_eq_none (by omega), Option.map_none]
          rw [List.getElem?_append_right (by omega)] at hlock
          obtain ⟨object, hobject, rfl⟩ := Option.map_eq_some_iff.mp hlock
          have hmem := List.mem_of_getElem? hobject
          rw [List.mem_singleton.mp hmem]
          exact .inr ⟨rfl, hgone, hnone⟩
  have hkeep : ∀ place lock, users.manager.lockOf place = some lock →
      (users.manager.getLock key).1.lockOf place = some lock := by
    intro place lock hlock
    obtain ⟨object, hobject, rfl⟩ := Option.map_eq_some_iff.mp hlock
    rw [ResourceLockManager.lockOf, hother place object hobject, Option.map_some]
  have hsame : ∀ name id, users.manager.locks.get? name = some id →
      (users.manager.getLock key).1.locks.get? name = some id := by
    intro name id hid
    rw [hlocks]
    split
    next hname =>
      subst hname
      rw [ResourceLockManager.getLock, hid]
    next => exact hid
  have hback : ∀ other found, frames.get? other = some found → ∀ name ∈ found.acquired,
      ∀ id, (users.manager.getLock key).1.locks.get? name = some id →
        users.manager.locks.get? name = some id := by
    intro other found hfound name hname id hid
    rcases get?_cases hchanged hfound with ⟨-, hself⟩ | ⟨-, hold⟩
    · cases hself
      have hne : name ≠ key := fun heq => hkey (heq ▸ hname)
      rwa [hlocks, if_neg hne] at hid
    · obtain ⟨place, hplace⟩ := hsound.exists_id hold (Frame.uses_iff.mpr (.inl hname))
      rw [hsame name place hplace] at hid
      rwa [← hid]
  refine ⟨fun other found hfound => ?_, fun id found hfound => ?_, fun id found hfound => ?_,
    fun id found hfound => ?_, fun name id hid => ?_, fun other found name id hfound hfetched => ?_,
    fun other id => ?_, fun other id => ?_, fun name => ?_, fun name => ?_⟩
  · rcases get?_cases hchanged hfound with ⟨-, hself⟩ | ⟨-, hold⟩
    · cases hself
      exact ⟨hplan.part, fun _ => hplan.whole rfl⟩
    · exact hsound.planned other found hold
  · rcases hlockOf id found hfound with hold | ⟨rfl, -, -⟩
    · exact hsound.orderly id found hold
    · exact ⟨[], FIFOLock.orderly_init⟩
  · rcases hlockOf id found hfound with hold | ⟨rfl, -, -⟩
    · exact hsound.nodup id found hold
    · exact List.nodup_nil
  · rcases hlockOf id found hfound with hold | ⟨rfl, -, -⟩
    · exact hsound.single id found hold
    · exact fun howner => absurd rfl howner
  · change (users.manager.getLock key).1.locks.get? name = some id at hid
    rw [hlocks] at hid
    split at hid
    next hname =>
      cases hid
      rw [hname]
      exact hlocated
    next hname =>
      obtain ⟨object, hobject, hnamed⟩ := hsound.located name id hid
      exact ⟨object, hother id object hobject, hnamed⟩
  · rcases get?_cases hchanged hfound with ⟨-, hself⟩ | ⟨-, hold⟩
    · cases hself
      cases hfetched
      change (users.manager.getLock key).1.locks.get? key = _
      rw [hlocks, if_pos rfl]
    · exact hsame name id (hsound.fetched other found name id hold hfetched)
  · have hframes : (∃ found, frames.get? other = some found ∧ found.stage.queue = some id) ↔
        ∃ found, users.frames.get? other = some found ∧ found.stage.queue = some id := by
      by_cases hself : other = ident
      · subst hself
        rw [hchanged.here, hframe]
        simp [Stage.queue]
      · rw [hchanged.elsewhere other hself]
    refine Iff.trans ?_ ((hsound.queued other id).trans hframes.symm)
    constructor
    · rintro ⟨lock, hlock, hmem⟩
      rcases hlockOf id lock hlock with hold | ⟨rfl, -, -⟩
      · exact ⟨lock, hold, hmem⟩
      · cases hmem
    · rintro ⟨lock, hlock, hmem⟩
      exact ⟨lock, hkeep id lock hlock, hmem⟩
  · constructor
    · rintro ⟨lock, hlock, howner⟩
      rcases hlockOf id lock hlock with hold | ⟨rfl, -, -⟩
      · obtain ⟨found, name, hfound, hname, hid⟩ := (hsound.owned other id).mp ⟨lock, hold, howner⟩
        by_cases hself : other = ident
        · subst hself
          cases hframe.symm.trans hfound
          exact ⟨_, name, hchanged.here, hname, hsame name id hid⟩
        · exact ⟨found, name, (hchanged.elsewhere other hself).trans hfound, hname,
            hsame name id hid⟩
      · cases howner
    · rintro ⟨found, name, hfound, hname, hid⟩
      have hold := hback other found hfound name hname id hid
      have howned : ∃ lock, users.manager.lockOf id = some lock ∧ lock.owner = some other := by
        rw [hsound.owned]
        rcases get?_cases hchanged hfound with ⟨rfl, hself⟩ | ⟨-, hthen⟩
        · cases hself
          exact ⟨_, name, hframe, hname, hold⟩
        · exact ⟨found, name, hthen, hname, hold⟩
      obtain ⟨lock, hlock, howner⟩ := howned
      exact ⟨lock, hkeep id lock hlock, howner⟩
  · change (users.manager.getLock key).1.refcounts.get? name = _
    rw [hnext]
    split
    next hname =>
      subst hname
      rw [hmore, if_neg (Nat.succ_ne_zero _), Nat.cast_add, Nat.cast_one]
    next hname =>
      rw [hreferences _ name hname]
      exact hsound.counted name
  · change ((users.manager.getLock key).1.locks.get? name).isSome ↔ _
    rw [hlocks]
    split
    next hname =>
      subst hname
      rw [hmore]
      simp
    next hname =>
      rw [hreferences _ name hname]
      exact hsound.kept name

end LockUsers

end ShuttleFlow
