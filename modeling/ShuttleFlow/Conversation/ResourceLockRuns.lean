import ShuttleFlow.Conversation.ResourceLocks

/-! # Runs of the resource lock manager -/

namespace ShuttleFlow

open scoped List

namespace LockUsers

variable {Thread : Type} [DecidableEq Thread]
variable {users : LockUsers Thread} {ident : Thread} {frame : Frame}

theorem Sound.not_owner (hsound : users.Sound) {key : String} {id : Nat} {lock : FIFOLock Thread}
    (hframe : users.frames.get? ident = some frame) (hlock : users.manager.lockOf id = some lock)
    (hid : users.manager.locks.get? key = some id) (hkey : key ∉ frame.acquired) :
    lock.owner ≠ some ident := by
  intro howner
  obtain ⟨found, name, hfound, hname, hnamed⟩ := (hsound.owned ident id).mp ⟨lock, hlock, howner⟩
  cases hframe.symm.trans hfound
  exact hkey (hsound.key_unique hid hnamed ▸ hname)

theorem Sound.owner (hsound : users.Sound) {key : String} {id : Nat} {lock : FIFOLock Thread}
    (hframe : users.frames.get? ident = some frame) (hlock : users.manager.lockOf id = some lock)
    (hid : users.manager.locks.get? key = some id) (hkey : key ∈ frame.acquired) :
    lock.owner = some ident := by
  obtain ⟨found, hfound, howner⟩ := (hsound.owned ident id).mpr ⟨frame, key, hframe, hkey, hid⟩
  cases hlock.symm.trans hfound
  exact howner

theorem Sound.mem_idents_iff (hsound : users.Sound) {id : Nat} {lock : FIFOLock Thread}
    (hframe : users.frames.get? ident = some frame) (hlock : users.manager.lockOf id = some lock) :
    ident ∈ lock.idents ↔ frame.stage.queue = some id := by
  have hqueued := hsound.queued ident id
  rw [hlock, hframe] at hqueued
  simpa using hqueued

/-- In the loop of `lock`, with a lock object of the next key. -/
def Frame.Pending (frame : Frame) (key : String) (rest : List String) (id : Nat) : Prop :=
  frame.stage = .acquiring key rest id ∨ frame.stage = .waiting key rest id

namespace Frame.Pending

variable {key : String} {rest : List String} {id : Nat}

theorem todo (hpending : Frame.Pending frame key rest id) :
    frame.stage.todo = key :: rest := by
  rcases hpending with hstage | hstage <;> rw [hstage] <;> rfl

theorem wanted (hpending : Frame.Pending frame key rest id) :
    frame.stage.wanted = some key := by
  rcases hpending with hstage | hstage <;> rw [hstage] <;> rfl

theorem fetched (hpending : Frame.Pending frame key rest id) :
    frame.stage.fetched = some (key, id) := by
  rcases hpending with hstage | hstage <;> rw [hstage] <;> rfl

theorem looping (hpending : Frame.Pending frame key rest id) : frame.stage.looping := by
  rcases hpending with hstage | hstage <;> rw [hstage] <;> rfl

theorem queue (hpending : Frame.Pending frame key rest id) {other : Nat}
    (hqueue : frame.stage.queue = some other) : other = id := by
  rcases hpending with hstage | hstage <;> rw [hstage] at hqueue <;> cases hqueue
  rfl

theorem notMem (hpending : Frame.Pending frame key rest id) (hplanned : frame.Planned) :
    key ∉ frame.acquired := by
  intro hmem
  have hnodup := hplanned.pairwise.imp ne_of_lt
  rw [hpending.todo] at hnodup
  exact (List.pairwise_append.mp hnodup).2.2 key hmem key List.mem_cons_self rfl

end Frame.Pending

/-- However a call of `acquire` turns out. -/
theorem Sound.acquired (hsound : users.Sound) {key : String} {rest : List String} {id : Nat}
    {old lock : FIFOLock Thread} {occurrence : Occurrence}
    (hframe : users.frames.get? ident = some frame) (hpending : Frame.Pending frame key rest id)
    (hold : users.manager.lockOf id = some old)
    (hsettled : FIFOLock.Settled old lock ident occurrence) (hnodup : lock.idents.Nodup)
    (horderly : ∃ trace, FIFOLock.Orderly trace lock) :
    (users.acquired ident frame key rest id lock occurrence).Sound := by
  have hplanned := hsound.planned ident frame hframe
  have hid := hsound.fetched ident frame key id hframe hpending.fetched
  have hkey := hpending.notMem hplanned
  have hnot := hsound.not_owner hframe hold hid hkey
  have hwhole := hplanned.whole hpending.looping
  rw [hpending.todo] at hwhole
  cases hsettled with
  | obtained me hfree howner hcount hidents =>
      refine hsound.exchange hframe hold hid (Dict.changed_set ..) {
        planned := ?_
        uses := fun other => ?_
        acquired := fun other hother => ?_
        fetched := fun pair hpair => ?_
        queueBefore := fun other => hpending.queue
        queueAfter := fun other hqueue => ?_
        orderly := horderly
        nodup := hnodup
        single := fun _ => hcount
        others := fun other hother => ⟨?_, ?_⟩
        waits := ?_
        holds := ?_ }
      · have hadvanced : (frame.acquired ++ [key]) ++ rest =
            Frame.sortedKeys frame.resourceKeys := by
          rw [← hwhole, List.append_assoc, List.singleton_append]
        constructor
        · rw [Frame.advance, Frame.todo_next, hadvanced]
        · intro _
          rw [Frame.advance, Frame.todo_next, hadvanced]
      · rw [Bool.eq_iff_iff, Frame.uses_iff, Frame.uses_iff, hpending.wanted]
        simp [Frame.advance, eq_comm]
      · simp [Frame.advance, hother]
      · simp [Frame.advance] at hpair
      · simp [Frame.advance] at hqueue
      · rw [hidents]
        exact and_iff_left hother
      · rw [howner, hfree]
        simp [Ne.symm hother]
      · rw [hidents]
        simp [Frame.advance]
      · simp [howner, Frame.advance]
  | gaveUp me howner hcount hidents =>
      refine hsound.exchange hframe hold hid (Dict.changed_set ..) {
        planned := ?_
        uses := fun other => ?_
        acquired := fun other hother => Iff.rfl
        fetched := fun pair hpair => by cases hpair
        queueBefore := fun other => hpending.queue
        queueAfter := fun other hqueue => by cases hqueue
        orderly := horderly
        nodup := hnodup
        single := fun hsome => hcount ▸ hsound.single id old hold (howner ▸ hsome)
        others := fun other hother => ⟨?_, by rw [howner]⟩
        waits := ?_
        holds := ?_ }
      · constructor
        · rw [← hwhole]
          exact (List.Sublist.refl _).append (List.Sublist.cons_cons key (List.nil_sublist rest))
        · intro hlooping
          cases hlooping
      · rw [Bool.eq_iff_iff, Frame.uses_iff, Frame.uses_iff, hpending.wanted]
        rfl
      · rw [hidents]
        exact and_iff_left hother
      · rw [hidents]
        simp [Stage.queue]
      · rw [howner]
        exact iff_of_false hnot hkey
  | slept me howner hcount hidents =>
      refine hsound.exchange hframe hold hid (Dict.changed_set ..) {
        planned := ?_
        uses := fun other => ?_
        acquired := fun other hother => Iff.rfl
        fetched := fun pair hpair => (Option.some.inj hpair).symm
        queueBefore := fun other => hpending.queue
        queueAfter := fun other hqueue => (Option.some.inj hqueue).symm
        orderly := horderly
        nodup := hnodup
        single := fun hsome => hcount ▸ hsound.single id old hold (howner ▸ hsome)
        others := fun other hother => ⟨?_, by rw [howner]⟩
        waits := ?_
        holds := ?_ }
      · exact ⟨hwhole ▸ List.Sublist.refl _, fun _ => hwhole⟩
      · rw [Bool.eq_iff_iff, Frame.uses_iff, Frame.uses_iff, hpending.wanted]
        rfl
      · rw [hidents]
        exact or_iff_left hother
      · rw [hidents]
        simp [Stage.queue]
      · rw [howner]
        exact iff_of_false hnot hkey

theorem Sound.wake (hsound : users.Sound) {key : String} {rest : List String} {id : Nat}
    {lock : FIFOLock Thread} (hframe : users.frames.get? ident = some frame)
    (hpending : Frame.Pending frame key rest id)
    (hlock : users.manager.lockOf id = some lock) (me : Nat) :
    ({ users with manager := users.manager.setLock id (lock.setPhase me .awake) } :
      LockUsers Thread).Sound := by
  have hplanned := hsound.planned ident frame hframe
  have hid := hsound.fetched ident frame key id hframe hpending.fetched
  have hkey := hpending.notMem hplanned
  have hchanged := Dict.changed_refl users.frames ident
  rw [hframe] at hchanged
  obtain ⟨trace, horderly⟩ := hsound.orderly id lock hlock
  have hidents := lock.idents_setPhase me .awake
  have hnot := hsound.not_owner hframe hlock hid hkey
  exact hsound.exchange hframe hlock hid hchanged {
    planned := hplanned
    uses := fun other => rfl
    acquired := fun other hother => Iff.rfl
    fetched := fun pair hpair => Option.some.inj (hpair.symm.trans hpending.fetched)
    queueBefore := fun other => hpending.queue
    queueAfter := fun other => hpending.queue
    orderly := ⟨trace, horderly.wake me⟩
    nodup := hidents.symm ▸ hsound.nodup id lock hlock
    single := hsound.single id lock hlock
    others := fun other hother => ⟨by rw [hidents], Iff.rfl⟩
    waits := by
      rw [hidents]
      exact hsound.mem_idents_iff hframe hlock
    holds := iff_of_false hnot hkey }

/-- A held lock is released, and its reference dropped. -/
theorem Sound.releaseLock (hsound : users.Sound) {resourceKeys keys : List String} {key : String}
    {raised : Option Raised}
    (hframe : users.frames.get? ident = some ⟨resourceKeys, keys ++ [key], .releasing raised⟩) :
    (users.manager.releaseLock ident key).2 = none ∧
      ({ users with manager := (users.manager.releaseLock ident key).1 }.withFrame ident
        ⟨resourceKeys, keys, .releasing raised⟩ : LockUsers Thread).Sound := by
  have hmem : key ∈ keys ++ [key] := List.mem_append_right _ (List.mem_singleton_self key)
  have hplanned := hsound.planned ident _ hframe
  have hpart : keys ++ [key] <+ Frame.sortedKeys resourceKeys :=
    (List.append_nil (keys ++ [key])) ▸ hplanned.part
  have hkey : key ∉ keys := fun hin => by
    have hpairwise := (Frame.sortedKeys_pairwise resourceKeys).sublist hpart
    exact lt_irrefl key
      ((List.pairwise_append.mp hpairwise).2.2 key hin key (List.mem_singleton_self key))
  obtain ⟨id, hid⟩ := hsound.exists_id hframe (Frame.uses_iff.mpr (.inl hmem))
  obtain ⟨lock, hlock⟩ := hsound.exists_lock hid
  have howner := hsound.owner hframe hlock hid hmem
  have hcount := hsound.single id lock hlock (by simp [howner])
  obtain ⟨released, hreleased, hfree, hidents⟩ := FIFOLock.release_of_owner howner hcount
  obtain ⟨trace, horderly⟩ := hsound.orderly id lock hlock
  have hbetween : (⟨users.manager.setLock id released,
      users.frames.set ident ⟨resourceKeys, keys, .cleaning key⟩⟩ : LockUsers Thread).Sound :=
    hsound.exchange hframe hlock hid (Dict.changed_set ..) {
      planned := ⟨hpart, fun hlooping => by cases hlooping⟩
      uses := fun other => by
        rw [Bool.eq_iff_iff, Frame.uses_iff, Frame.uses_iff]
        simp [Stage.wanted, eq_comm]
      acquired := fun other hother => by simp [hother]
      fetched := fun pair hpair => by cases hpair
      queueBefore := fun other hqueue => by cases hqueue
      queueAfter := fun other hqueue => by cases hqueue
      orderly := ⟨_, horderly.release hreleased⟩
      nodup := hidents.symm ▸ hsound.nodup id lock hlock
      single := fun hsome => absurd hfree hsome
      others := fun other hother => ⟨by rw [hidents], by simp [hfree, howner, Ne.symm hother]⟩
      waits := by
        rw [hidents, hsound.mem_idents_iff hframe hlock]
        simp [Stage.queue]
      holds := by simp [hfree, hkey] }
  have hrelease : users.manager.releaseLock ident key =
      (users.manager.setLock id released).dropReference key := by
    rw [ResourceLockManager.releaseLock, hid]
    simp only [hlock, hreleased]
  rw [hrelease]
  refine hbetween.dropReference (Dict.changed_set ..).here rfl ?_ ?_ ?_
    (Dict.changed_set ..).of_set
  · rfl
  · exact Frame.planned_releasing ((List.sublist_append_left ..).trans hpart) raised
  · exact ⟨rfl, rfl, rfl⟩

theorem Sound.move (hsound : users.Sound) {label : LockMove Thread} {next : LockUsers Thread}
    {seen : List (Thread × Ended)} (hmove : users.move label = some (next, seen)) :
    next.Sound := by
  cases label with
  | call ident resourceKeys =>
      simp only [LockUsers.move] at hmove
      split at hmove
      · cases hmove
      next hnone =>
        cases hmove
        refine hsound.reframe (Dict.changed_set ..) ?_ ?_ ?_ ?_
        · rintro frame hframe
          cases hframe
          exact Frame.planned_start resourceKeys
        · rw [hnone]
          rfl
        · rintro frame hframe
          cases hframe
          simp [Frame.start]
        · intro frame hframe
          rw [hnone] at hframe
          cases hframe
  | getLock ident =>
      simp only [LockUsers.move] at hmove
      split at hmove
      next resourceKeys acquired key rest hframe =>
        cases hmove
        exact hsound.getLock hframe (Dict.changed_set ..)
      · cases hmove
  | acquire ident start now =>
      simp only [LockUsers.move] at hmove
      split at hmove
      next resourceKeys acquired key rest id hframe =>
        split at hmove
        · cases hmove
        next lock hlock =>
          cases hmove
          have hpending : Frame.Pending ⟨resourceKeys, acquired, .acquiring key rest id⟩ key rest
              id := .inl rfl
          obtain ⟨trace, horderly⟩ := hsound.orderly id lock hlock
          have hid := hsound.fetched ident _ key id hframe hpending.fetched
          have hnew : ident ∉ lock.idents := by
            rw [hsound.mem_idents_iff hframe hlock]
            simp [Stage.queue]
          obtain ⟨hsettled, hnodup⟩ := FIFOLock.acquire_settled horderly
            (hsound.nodup id lock hlock)
            (hsound.not_owner hframe hlock hid
              (hpending.notMem (hsound.planned ident _ hframe))) hnew
            (users.manager.getTimeout key) start now
          exact hsound.acquired hframe hpending hlock hsettled hnodup
            ⟨_, horderly.acquire ident true (users.manager.getTimeout key) start now⟩
      · cases hmove
  | wake ident =>
      simp only [LockUsers.move] at hmove
      split at hmove
      next resourceKeys acquired key rest id hframe =>
        split at hmove
        · cases hmove
        next lock hlock =>
          split at hmove
          · cases hmove
          next waiter hwaiter =>
            cases hmove
            exact hsound.wake hframe (.inr rfl) hlock waiter.me
      · cases hmove
  | resume ident now =>
      simp only [LockUsers.move] at hmove
      split at hmove
      next resourceKeys acquired key rest id hframe =>
        split at hmove
        · cases hmove
        next lock hlock =>
          split at hmove
          · cases hmove
          next waiter hwaiter =>
            split at hmove
            · cases hmove
              obtain ⟨trace, horderly⟩ := hsound.orderly id lock hlock
              obtain ⟨hmem, rfl⟩ := FIFOLock.mem_of_waiterOf hwaiter
              obtain ⟨hsettled, hnodup⟩ := FIFOLock.turn_settled horderly.distinct
                (hsound.nodup id lock hlock) hmem now
              exact hsound.acquired hframe (.inr rfl) hlock hsettled hnodup
                ⟨_, horderly.turn hmem now⟩
            · cases hmove
      · cases hmove
  | cleanUp ident =>
      simp only [LockUsers.move] at hmove
      split at hmove
      next resourceKeys acquired key hframe =>
        cases hmove
        have hpart := (hsound.planned ident _ hframe).part
        refine (hsound.dropReference hframe rfl ?_ ?_ ?_ (Dict.changed_set ..)).2
        · rfl
        · exact Frame.planned_releasing ((List.sublist_append_left ..).trans hpart) _
        · exact ⟨rfl, rfl, rfl⟩
      · cases hmove
  | leave ident =>
      simp only [LockUsers.move] at hmove
      split at hmove
      next resourceKeys acquired hframe =>
        cases hmove
        refine hsound.reframe (Dict.changed_set ..) ?_ ?_ ?_ ?_
        · rintro frame heq
          cases heq
          exact Frame.planned_releasing ((List.sublist_append_left ..).trans
            (hsound.planned ident _ hframe).part) none
        · rw [hframe]
          rfl
        · rintro frame heq
          cases heq
          exact ⟨rfl, rfl, rfl⟩
        · intro frame heq
          cases hframe.symm.trans heq
          exact ⟨rfl, rfl⟩
      · cases hmove
  | releaseLock ident =>
      simp only [LockUsers.move] at hmove
      split at hmove
      next resourceKeys acquired raised hframe =>
        split at hmove
        next hlast =>
          cases hmove
          obtain rfl := List.getLast?_eq_none_iff.mp hlast
          refine hsound.reframe (Dict.changed_erase ..) (fun frame heq => by cases heq) ?_
            (fun frame heq => by cases heq) ?_
          · rw [hframe]
            rfl
          · intro frame heq
            cases hframe.symm.trans heq
            exact ⟨rfl, rfl⟩
        next key hlast =>
          obtain ⟨keys, rfl⟩ := List.getLast?_eq_some_iff.mp hlast
          obtain ⟨hnone, hnext⟩ := hsound.releaseLock hframe
          rw [hnone] at hmove
          cases hmove
          rw [List.dropLast_concat]
          exact hnext
      · cases hmove

theorem sound_of_runs {timeouts : Option (Dict String ℚ)} {trace : List (Thread × Ended)}
    (hruns : system.Runs (init timeouts) trace users) : users.Sound :=
  hruns.invariant (fun _ users => users.Sound) (sound_init timeouts)
    fun _ _ _ _ _ hsound hmove => hsound.move hmove

/-! ## Nobody waits in a circle -/

/-- A thread in the queue of a lock waits for the owner, and for those ahead of it. -/
def WaitsFor (users : LockUsers Thread) (ident other : Thread) : Prop :=
  ∃ id lock ahead behind, users.manager.lockOf id = some lock ∧
    lock.idents = ahead ++ ident :: behind ∧ (lock.owner = some other ∨ other ∈ ahead)

/-- The key that a thread waits for, and its place in the queue. -/
def place (users : LockUsers Thread) (ident : Thread) : String × Nat :=
  match users.frames.get? ident with
  | some ⟨_, _, .waiting key _ id⟩ =>
      (key, (users.manager.lockOf id).elim 0 fun lock => lock.idents.idxOf ident)
  | _ => ("", 0)

/-- Places with smaller keys come first, then those at the end of a queue. -/
def Before (first second : String × Nat) : Prop :=
  first.1 < second.1 ∨ (first.1 = second.1 ∧ second.2 < first.2)

instance : IsTrans (String × Nat) Before where
  trans first second third := by
    rintro (hlt | ⟨heq, hlt⟩) (hlt' | ⟨heq', hlt'⟩)
    · exact .inl (hlt.trans hlt')
    · exact .inl (heq' ▸ hlt)
    · exact .inl (heq ▸ hlt')
    · exact .inr ⟨heq.trans heq', hlt'.trans hlt⟩

instance : Std.Irrefl Before where
  irrefl first := by
    rintro (hlt | ⟨-, hlt⟩)
    · exact lt_irrefl _ hlt
    · exact lt_irrefl _ hlt

theorem Sound.waiting (hsound : users.Sound) {id : Nat} {lock : FIFOLock Thread}
    (hlock : users.manager.lockOf id = some lock) (hmem : ident ∈ lock.idents) :
    ∃ resourceKeys acquired key rest,
      users.frames.get? ident = some ⟨resourceKeys, acquired, .waiting key rest id⟩ ∧
      users.manager.locks.get? key = some id ∧
      users.place ident = (key, lock.idents.idxOf ident) := by
  obtain ⟨frame, hframe, hqueue⟩ := (hsound.queued ident id).mp ⟨lock, hlock, hmem⟩
  obtain ⟨resourceKeys, acquired, stage⟩ := frame
  cases stage with
  | waiting key rest place =>
      cases hqueue
      refine ⟨resourceKeys, acquired, key, rest, hframe, ?_, ?_⟩
      · exact hsound.fetched ident _ key id hframe rfl
      · simp only [place, hframe, hlock, Option.elim_some]
  | _ => cases hqueue

theorem Sound.before (hsound : users.Sound) {first second third : Thread}
    (hfirst : users.WaitsFor first second) (hsecond : users.WaitsFor second third) :
    Before (users.place first) (users.place second) := by
  obtain ⟨id, lock, ahead, behind, hlock, hidents, hahead⟩ := hfirst
  obtain ⟨other, found, front, back, hfound, hfront, -⟩ := hsecond
  obtain ⟨-, -, key, -, -, hid, hplace⟩ :=
    hsound.waiting hlock (hidents ▸ List.mem_append_cons_self)
  obtain ⟨resourceKeys, acquired, name, rest, hframe, hother, hthere⟩ :=
    hsound.waiting hfound (hfront ▸ List.mem_append_cons_self)
  rw [hplace, hthere]
  rcases hahead with howner | hmem
  · -- the owner has the key already, and waits for a greater one
    obtain ⟨held, owned, hheld, howned, hnamed⟩ := (hsound.owned second id).mp ⟨lock, hlock, howner⟩
    cases hframe.symm.trans hheld
    obtain rfl := hsound.key_unique hid hnamed
    have hpairwise := (hsound.planned second _ hframe).pairwise
    exact .inl ((List.pairwise_append.mp hpairwise).2.2 key howned name List.mem_cons_self)
  · have hqueue : second ∈ lock.idents := hidents ▸ List.mem_append_left _ hmem
    obtain ⟨_, _, same, _, hsame, hid', -⟩ := hsound.waiting hlock hqueue
    cases hframe.symm.trans hsame
    cases hlock.symm.trans hfound
    refine .inr ⟨hsound.key_unique hid hid', ?_⟩
    change lock.idents.idxOf second < lock.idents.idxOf first
    have hnodup := hsound.nodup id lock hlock
    rw [hidents] at hnodup ⊢
    have hnot : first ∉ ahead := fun hin =>
      (List.nodup_append.mp hnodup).2.2 first hin first List.mem_cons_self rfl
    rw [List.idxOf_append_of_mem hmem, List.idxOf_append_of_notMem hnot, List.idxOf_cons_self,
      Nat.add_zero]
    exact List.idxOf_lt_length_iff.mpr hmem

/-! ## What the manager promises -/

/-- A lock object that is owned, waited for, or about to be acquired. -/
def Live (users : LockUsers Thread) (id : Nat) : Prop :=
  (∃ lock, users.manager.lockOf id = some lock ∧ (lock.owner ≠ none ∨ lock.waiters ≠ [])) ∨
  ∃ ident frame key, users.frames.get? ident = some frame ∧ frame.stage.fetched = some (key, id)

structure Safe (users : LockUsers Thread) : Prop where
  exclusive : ∀ first second frame other,
    users.frames.get? first = some frame → users.frames.get? second = some other →
    frame.stage = .inside → other.stage = .inside →
    (∃ key, key ∈ frame.resourceKeys ∧ key ∈ other.resourceKeys) → first = second
  /-- The references to a key are the threads that hold it or wait for it. -/
  counted : ∀ key, users.manager.refcounts.get? key =
    if users.references key = 0 then none else some (users.references key : Int)
  /-- Exactly the keys that are held or waited for have a lock object in the map. -/
  mapped : ∀ key, (users.manager.locks.get? key).isSome ↔
    ∃ ident frame, users.frames.get? ident = some frame ∧ frame.uses key
  /-- No lock object in use is out of the map, so no key has two. -/
  live : ∀ id, users.Live id → ∃ object, users.manager.objects[id]? = some object ∧
    users.manager.locks.get? object.key = some id
  acyclic : ∀ ident, ¬Relation.TransGen users.WaitsFor ident ident
  left : users.frames.entries = [] →
    users.manager.locks.entries = [] ∧ users.manager.refcounts.entries = []

theorem Sound.exclusive (hsound : users.Sound) {first second : Thread} {frame other : Frame}
    (hframe : users.frames.get? first = some frame) (hother : users.frames.get? second = some other)
    (hinside : frame.stage = .inside) (hinside' : other.stage = .inside) {key : String}
    (hkey : key ∈ frame.resourceKeys) (hkey' : key ∈ other.resourceKeys) : first = second := by
  have hheld : ∀ ident found, users.frames.get? ident = some found → found.stage = .inside →
      key ∈ found.resourceKeys → key ∈ found.acquired := by
    intro ident found hfound hstage hmem
    have hwhole := (hsound.planned ident found hfound).whole (by rw [hstage]; rfl)
    rw [hstage, Stage.todo, List.append_nil] at hwhole
    rw [hwhole]
    exact Frame.mem_sortedKeys.mpr hmem
  have hfirst := hheld first frame hframe hinside hkey
  have hsecond := hheld second other hother hinside' hkey'
  obtain ⟨id, hid⟩ := hsound.exists_id hframe (Frame.uses_iff.mpr (.inl hfirst))
  obtain ⟨lock, hlock⟩ := hsound.exists_lock hid
  exact Option.some.inj ((hsound.owner hframe hlock hid hfirst).symm.trans
    (hsound.owner hother hlock hid hsecond))

theorem Sound.mapped_of_live (hsound : users.Sound) {id : Nat} (hlive : users.Live id) :
    ∃ object, users.manager.objects[id]? = some object ∧
      users.manager.locks.get? object.key = some id := by
  obtain ⟨key, hid⟩ : ∃ key, users.manager.locks.get? key = some id := by
    rcases hlive with ⟨lock, hlock, howner | hwaiters⟩ | ⟨ident, frame, key, hframe, hfetched⟩
    · obtain ⟨owner, howner⟩ := Option.ne_none_iff_exists'.mp howner
      obtain ⟨-, key, -, -, hid⟩ := (hsound.owned owner id).mp ⟨lock, hlock, howner⟩
      exact ⟨key, hid⟩
    · obtain ⟨waiter, hwaiter⟩ := List.exists_mem_of_ne_nil _ hwaiters
      obtain ⟨-, -, key, -, -, hid, -⟩ := hsound.waiting hlock (List.mem_map_of_mem hwaiter)
      exact ⟨key, hid⟩
    · exact ⟨key, hsound.fetched ident frame key id hframe hfetched⟩
  obtain ⟨object, hobject, rfl⟩ := hsound.located key id hid
  exact ⟨object, hobject, hid⟩

/-- Any set of threads with any keys, in any order of their transitions. -/
theorem safe_of_runs {timeouts : Option (Dict String ℚ)} {trace : List (Thread × Ended)}
    (hruns : system.Runs (init timeouts) trace users) : users.Safe := by
  have hsound := sound_of_runs hruns
  refine ⟨?_, hsound.counted, fun key => ?_, fun id => hsound.mapped_of_live, ?_, fun hleft => ?_⟩
  · rintro first second frame other hframe hother hinside hinside' ⟨key, hkey, hkey'⟩
    exact hsound.exclusive hframe hother hinside hinside' hkey hkey'
  · rw [hsound.kept, references_ne_zero_iff]
  · exact not_transGen_self_of_rank Before users.place fun _ _ _ => hsound.before
  · have hnone : ∀ key, users.references key = 0 := fun key => by
      rw [references, Dict.countValues, hleft, List.countP_nil]
    constructor
    · refine Dict.entries_eq_nil_of_get? fun key => ?_
      rw [← Option.not_isSome_iff_eq_none, hsound.kept, hnone]
      exact not_not.mpr rfl
    · refine Dict.entries_eq_nil_of_get? fun key => ?_
      rw [hsound.counted, hnone, if_pos rfl]

/-- Two threads want the same file, and one of them has it. -/
theorem safe_of_runs_two_threads :
    (⟨⟨⟨[("file:/a", 0), ("file:/b", 1)], by decide⟩, ⟨[("file:/a", 2), ("file:/b", 1)], by decide⟩,
        ResourceLockManager.defaultTimeouts,
        [⟨"file:/a", ⟨[⟨0, 1, 0, 30, .asleep⟩], some 0, 1, 1⟩⟩, ⟨"file:/b", ⟨[], some 0, 1, 0⟩⟩]⟩,
      ⟨[(0, ⟨["file:/b", "file:/a"], ["file:/a", "file:/b"], .inside⟩),
        (1, ⟨["file:/a"], [], .waiting "file:/a" [] 0⟩)], by decide⟩⟩ : LockUsers Nat).Safe :=
  @safe_of_runs _ _ _ none [] (TransitionSystem.Runs.of_run
    [.call 0 ["file:/b", "file:/a"], .getLock 0, .acquire 0 0 0, .getLock 0, .acquire 0 0 0,
      .call 1 ["file:/a"], .getLock 1, .acquire 1 0 1] (by decide +kernel))

end LockUsers

end ShuttleFlow
