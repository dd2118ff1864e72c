import Mathlib.Data.List.Basic
import Mathlib.Data.List.TakeDrop
import ShuttleFlow.Library.Transitions

/-! # Subscribing and replaying

Whoever emits an event schedules its publication on the event loop, and then appends it to
the log. A client subscribes, is given a snapshot of the state, and has the log resent.
-/

namespace ShuttleFlow

open TransitionSystem

variable {Event EventId : Type} [DecidableEq EventId] (eventId : Event → EventId)

structure EventPage (Event EventId : Type) where
  items : List Event
  nextPageId : Option EventId

/-- An unknown page starts at the beginning. -/
def startIndex (events : List Event) (pageId : Option EventId) : Nat :=
  (pageId.bind fun wanted => events.findIdx? fun event => eventId event = wanted).getD 0

def pageLimit : Nat := 100

/-- The events in their order, from the page on. -/
def searchEvents (events : List Event) (pageId : Option EventId) : EventPage Event EventId :=
  let rest := events.drop (startIndex eventId events pageId)
  { items := rest.take pageLimit
    nextPageId := (rest.drop pageLimit).head?.map eventId }

/-- The lock of the state. Its holder may be between the two steps of an emission. -/
inductive StateLock (Event : Type)
  | free
  | held
  | emitting (event : Event)

/-- A client's connection, by what is done next for it. -/
inductive SocketPhase (EventId : Type)
  | connecting
  | snapshotting
  | pushingState
  | resending (pageId : Option EventId)
  | listening
  deriving DecidableEq

structure EventFeed (Event EventId : Type) where
  log : List Event
  /-- The publications that the event loop has not begun. -/
  scheduled : List Event := []
  lock : StateLock Event := .free
  /-- What is emitted by threads that do not hold the lock. -/
  unlocked : List Event := []
  socket : SocketPhase EventId := .connecting
  sent : List Event := []

inductive FeedStep (Event : Type)
  | acquire
  | emit (event : Event)
  | append
  /-- The event cannot be stored. -/
  | appendFails
  | release
  /-- A condensation is requested. -/
  | emitUnlocked (event : Event)
  | appendUnlocked (index : Nat)
  | appendUnlockedFails (index : Nat)
  | publish
  | subscribe
  | snapshot
  | pushState
  | resendPage

namespace EventFeed

/-- Publications reach the client from its subscription on. -/
def subscribed (feed : EventFeed Event EventId) : Bool :=
  match feed.socket with
  | .connecting => false
  | .snapshotting | .pushingState | .resending _ | .listening => true

def schedule (feed : EventFeed Event EventId) (event : Event) : EventFeed Event EventId :=
  { feed with scheduled := feed.scheduled ++ [event] }

def store (feed : EventFeed Event EventId) (event : Event) : EventFeed Event EventId :=
  { feed with log := feed.log ++ [event] }

def notify (feed : EventFeed Event EventId) (event : Event) : EventFeed Event EventId :=
  if feed.subscribed then { feed with sent := feed.sent ++ [event] } else feed

/-- A page of the log is sent. -/
def resend (feed : EventFeed Event EventId) (pageId : Option EventId) : EventFeed Event EventId :=
  let page := searchEvents eventId feed.log pageId
  { feed with
    sent := feed.sent ++ page.items
    socket :=
      match page.nextPageId with
      | some next => .resending (some next)
      | none => .listening }

def step (feed : EventFeed Event EventId) :
    FeedStep Event → Option (EventFeed Event EventId × List Unit)
  | .acquire =>
      match feed.lock with
      | .free => some ({ feed with lock := .held }, [])
      | _ => none
  | .emit event =>
      match feed.lock with
      | .held => some ({ feed.schedule event with lock := .emitting event }, [])
      | _ => none
  | .append =>
      match feed.lock with
      | .emitting event => some ({ feed.store event with lock := .held }, [])
      | _ => none
  | .appendFails =>
      match feed.lock with
      | .emitting _ => some ({ feed with lock := .held }, [])
      | _ => none
  | .release =>
      match feed.lock with
      | .held => some ({ feed with lock := .free }, [])
      | _ => none
  | .emitUnlocked event =>
      some ({ feed.schedule event with unlocked := feed.unlocked ++ [event] }, [])
  | .appendUnlocked index =>
      match feed.unlocked[index]? with
      | some event =>
          some ({ feed.store event with unlocked := feed.unlocked.eraseIdx index }, [])
      | none => none
  | .appendUnlockedFails index =>
      match feed.unlocked[index]? with
      | some _ => some ({ feed with unlocked := feed.unlocked.eraseIdx index }, [])
      | none => none
  | .publish =>
      match feed.scheduled with
      | [] => none
      | event :: rest =>
          some ({ feed with scheduled := rest }.notify event, [])
  | .subscribe =>
      match feed.socket with
      | .connecting => some ({ feed with socket := .snapshotting }, [])
      | _ => none
  | .snapshot =>
      -- read in another thread, which takes the lock
      match feed.socket, feed.lock with
      | .snapshotting, .free => some ({ feed with socket := .pushingState }, [])
      | _, _ => none
  | .pushState =>
      match feed.socket with
      | .pushingState => some ({ feed with socket := .resending none }, [])
      | _ => none
  | .resendPage =>
      match feed.socket with
      | .resending pageId => some (feed.resend eventId pageId, [])
      | _ => none

def system : TransitionSystem (EventFeed Event EventId) (FeedStep Event) Unit where
  step := step eventId

/-- No client is connected, and nothing is emitted. -/
def ofLog (log : List Event) : EventFeed Event EventId where
  log

/-- Nothing is left to be done. -/
structure Quiescent (feed : EventFeed Event EventId) : Prop where
  scheduled : feed.scheduled = []
  lock : feed.lock = .free
  unlocked : feed.unlocked = []
  socket : feed.socket = .listening

/-- An event that is emitted without the lock, and was published before the client subscribed,
is stored before the last page is read. -/
def storedInTime [DecidableEq Event] (feed : EventFeed Event EventId) : FeedStep Event → Bool
  | .appendUnlocked index =>
      feed.unlocked[index]?.all fun event =>
        feed.socket ≠ .listening || event ∈ feed.scheduled || event ∈ feed.sent
  | _ => true

/-! ## What is still to be sent -/

/-- What the client is going to be resent. -/
def toResend (feed : EventFeed Event EventId) : List Event :=
  match feed.socket with
  | .connecting | .snapshotting | .pushingState => feed.log
  | .resending pageId => feed.log.drop (startIndex eventId feed.log pageId)
  | .listening => []

/-- The event is published to the client. -/
def Published (feed : EventFeed Event EventId) (event : Event) : Prop :=
  event ∈ feed.scheduled ∨ event ∈ feed.sent

/-- Each event that is in the log, or is being emitted under the lock, is sent or will be. -/
structure Covered (feed : EventFeed Event EventId) : Prop where
  log : ∀ event ∈ feed.log, Published feed event ∨ event ∈ toResend eventId feed
  /-- The snapshot waits for who emitted before the subscription. -/
  emitting : ∀ event, feed.lock = .emitting event →
    Published feed event ∨ feed.socket = .connecting ∨ feed.socket = .snapshotting
  page : ∀ pageId, feed.socket = .resending (some pageId) →
    ∃ event ∈ feed.log, eventId event = pageId

end EventFeed

/-! ## Pages of a log that grows -/

variable {eventId}

/-- A page that has been announced starts where it did. -/
theorem startIndex_append {events : List Event} {pageId : EventId} (more : List Event)
    (hpage : ∃ event ∈ events, eventId event = pageId) :
    startIndex eventId (events ++ more) (some pageId) =
      startIndex eventId events (some pageId) := by
  have hfound : (events.findIdx? fun event => eventId event = pageId).isSome := by
    simpa [List.findIdx?_isSome] using hpage
  obtain ⟨index, hindex⟩ := Option.isSome_iff_exists.mp hfound
  simp only [startIndex, Option.bind_some, List.findIdx?_append, hindex, Option.some_or]

/-- The next page starts no later than the last one ends. -/
theorem startIndex_next_le {events : List Event} {index : Nat} {event : Event}
    (hevent : events[index]? = some event) :
    startIndex eventId events (some (eventId event)) ≤ index := by
  rw [startIndex, Option.bind_some]
  cases hfound : events.findIdx? fun other => eventId other = eventId event with
  | none => exact Nat.zero_le _
  | some first =>
      obtain ⟨-, hbefore⟩ := List.findIdx?_eq_some_iff_getElem.mp hfound |>.2
      by_contra hlt
      obtain ⟨hindex, hget⟩ := List.getElem?_eq_some_iff.mp hevent
      exact hbefore index (Nat.lt_of_not_le hlt) (by simp [hget])

/-- The next page starts with an event of the log. -/
theorem nextPageId_eq_some {events : List Event} {pageId : Option EventId} {next : EventId}
    (hnext : (searchEvents eventId events pageId).nextPageId = some next) :
    ∃ first, events[startIndex eventId events pageId + pageLimit]? = some first ∧
      eventId first = next := by
  obtain ⟨first, hfirst, heq⟩ := Option.map_eq_some_iff.mp hnext
  rw [List.head?_drop, List.getElem?_drop] at hfirst
  exact ⟨first, hfirst, heq⟩

/-- What a page leaves out is on the next one or after it. -/
theorem mem_searchEvents_or {events : List Event} {pageId : Option EventId} {event : Event}
    (hevent : event ∈ events.drop (startIndex eventId events pageId)) :
    event ∈ (searchEvents eventId events pageId).items ∨
      ∃ next, (searchEvents eventId events pageId).nextPageId = some next ∧
        event ∈ events.drop (startIndex eventId events (some next)) := by
  rw [← List.take_append_drop pageLimit (events.drop _)] at hevent
  rcases List.mem_append.mp hevent with htaken | hrest
  · exact .inl htaken
  · refine .inr ?_
    cases hnext : (searchEvents eventId events pageId).nextPageId with
    | none =>
        rw [searchEvents, Option.map_eq_none_iff, List.head?_eq_none_iff] at hnext
        rw [hnext] at hrest
        cases hrest
    | some next =>
        obtain ⟨first, hfirst, rfl⟩ := nextPageId_eq_some hnext
        rw [List.drop_drop] at hrest
        exact ⟨_, rfl, List.drop_subset_drop_left events (startIndex_next_le hfirst) hrest⟩

namespace EventFeed

variable {feed next : EventFeed Event EventId} {event : Event}

/-! ## The steps -/

omit [DecidableEq EventId] in
theorem Published.schedule (hpublished : Published feed event) (other : Event) :
    Published (feed.schedule other) event :=
  hpublished.imp_left (List.mem_append_left _)

omit [DecidableEq EventId] in
theorem published_schedule (feed : EventFeed Event EventId) (event : Event) :
    Published (feed.schedule event) event :=
  .inl (List.mem_append_right _ List.mem_cons_self)

/-- What the log grows by comes after what is to be resent. -/
theorem toResend_store (hpage : ∀ pageId, feed.socket = .resending (some pageId) →
    ∃ stored ∈ feed.log, eventId stored = pageId) (hsocket : feed.socket ≠ .listening) :
    toResend eventId (feed.store event) = toResend eventId feed ++ [event] := by
  unfold toResend store
  simp only
  cases hphase : feed.socket with
  | connecting | snapshotting | pushingState => rfl
  | listening => exact absurd hphase hsocket
  | resending pageId =>
      simp only
      have hsame : startIndex eventId (feed.log ++ [event]) pageId =
          startIndex eventId feed.log pageId := by
        cases pageId with
        | none => rfl
        | some pageId => exact startIndex_append _ (hpage pageId hphase)
      rw [hsame]
      refine List.drop_append_of_le_length ?_
      cases pageId with
      | none => exact Nat.zero_le _
      | some pageId =>
          obtain ⟨stored, hstored, rfl⟩ := hpage pageId hphase
          obtain ⟨index, hindex, hget⟩ := List.getElem_of_mem hstored
          have hstored : feed.log[index]? = some stored := by
            rw [List.getElem?_eq_getElem hindex, hget]
          exact Nat.le_trans (startIndex_next_le hstored) (Nat.le_of_lt hindex)

/-- An event is stored that is published, or that is going to be resent. -/
theorem Covered.store (hcovered : Covered eventId feed)
    (hevent : Published feed event ∨ feed.socket ≠ .listening) :
    Covered eventId (feed.store event) := by
  refine ⟨?_, hcovered.emitting, ?_⟩
  · intro stored hstored
    by_cases hsocket : feed.socket = .listening
    · refine .inl ?_
      rcases List.mem_append.mp hstored with hold | hnew
      · refine (hcovered.log stored hold).resolve_right ?_
        simp [toResend, hsocket]
      · rw [List.mem_singleton.mp hnew]
        exact hevent.resolve_right (not_not.mpr hsocket)
    · rw [toResend_store hcovered.page hsocket]
      rcases List.mem_append.mp hstored with hold | hnew
      · exact (hcovered.log stored hold).imp_right (List.mem_append_left _)
      · exact .inr (List.mem_append_right _ hnew)
  · intro pageId hpage
    obtain ⟨stored, hstored, heq⟩ := hcovered.page pageId hpage
    exact ⟨stored, List.mem_append_left _ hstored, heq⟩

theorem Covered.schedule (hcovered : Covered eventId feed) (event : Event) :
    Covered eventId (feed.schedule event) :=
  ⟨fun stored hstored => (hcovered.log stored hstored).imp_left fun h => h.schedule event,
    fun stored hstored => (hcovered.emitting stored hstored).imp_left fun h => h.schedule event,
    hcovered.page⟩

/-- The holder of the lock is not between the two steps of an emission. -/
theorem Covered.setLock {lock : StateLock Event} (hcovered : Covered eventId feed)
    (hlock : ∀ event, lock = .emitting event → Published feed event) :
    Covered eventId { feed with lock } :=
  ⟨hcovered.log, fun event hevent => .inl (hlock event hevent), hcovered.page⟩

theorem Covered.setUnlocked {unlocked : List Event} (hcovered : Covered eventId feed) :
    Covered eventId { feed with unlocked } :=
  ⟨hcovered.log, hcovered.emitting, hcovered.page⟩

/-- The connection goes on before the log is resent. -/
theorem Covered.setSocket {socket : SocketPhase EventId} (hcovered : Covered eventId feed)
    (hlog : toResend eventId { feed with socket } = feed.log)
    (hemitting : ∀ event, feed.lock = .emitting event → socket = .snapshotting ∨
      feed.socket ≠ .connecting ∧ feed.socket ≠ .snapshotting)
    (hpage : ∀ pageId, socket ≠ .resending (some pageId)) :
    Covered eventId { feed with socket } := by
  refine ⟨?_, ?_, fun pageId heq => absurd heq (hpage pageId)⟩
  · intro stored hstored
    rw [hlog]
    exact .inr hstored
  · intro event hevent
    rcases hemitting event hevent with hsocket | ⟨hconnecting, hsnapshotting⟩
    · exact .inr (.inr hsocket)
    · refine .inl ((hcovered.emitting event hevent).resolve_right ?_)
      exact not_or.mpr ⟨hconnecting, hsnapshotting⟩

theorem Covered.publish {rest : List Event} (hcovered : Covered eventId feed)
    (hscheduled : feed.scheduled = event :: rest) :
    Covered eventId ({ feed with scheduled := rest }.notify event) := by
  unfold notify
  split
  next hsubscribed =>
    have hpublished (stored : Event) (hstored : Published feed stored) :
        Published { feed with scheduled := rest, sent := feed.sent ++ [event] } stored := by
      rcases hstored with hstored | hstored
      · rw [hscheduled] at hstored
        rcases List.mem_cons.mp hstored with rfl | hrest
        · exact .inr (List.mem_append_right _ List.mem_cons_self)
        · exact .inl hrest
      · exact .inr (List.mem_append_left _ hstored)
    exact ⟨fun stored hstored => (hcovered.log stored hstored).imp_left (hpublished stored),
      fun stored hstored => (hcovered.emitting stored hstored).imp_left (hpublished stored),
      hcovered.page⟩
  next hsubscribed =>
    have hconnecting : feed.socket = .connecting := by
      cases hsocket : feed.socket <;> simp_all [subscribed]
    refine ⟨?_, fun stored hstored => .inr (.inl hconnecting), hcovered.page⟩
    intro stored hstored
    refine .inr ?_
    simpa [toResend, hconnecting] using hstored

/-- What follows a page. -/
theorem resend_socket (feed : EventFeed Event EventId) (pageId : Option EventId) :
    (feed.resend eventId pageId).socket =
      match (searchEvents eventId feed.log pageId).nextPageId with
      | some next => .resending (some next)
      | none => .listening := rfl

theorem Covered.resend {pageId : Option EventId} (hcovered : Covered eventId feed)
    (hsocket : feed.socket = .resending pageId) : Covered eventId (feed.resend eventId pageId) := by
  have hpublished (stored : Event) (hstored : Published feed stored) :
      Published (feed.resend eventId pageId) stored :=
    hstored.imp_right (List.mem_append_left _)
  refine ⟨?_, ?_, ?_⟩
  · intro stored hstored
    rcases hcovered.log stored hstored with hold | hresent
    · exact .inl (hpublished stored hold)
    · unfold toResend at hresent
      rw [hsocket] at hresent
      rcases mem_searchEvents_or hresent with hitem | ⟨next, hnext, hrest⟩
      · exact .inl (.inr (List.mem_append_right _ hitem))
      · refine .inr ?_
        unfold toResend
        rw [resend_socket, hnext]
        exact hrest
  · intro stored hstored
    refine .inl (hpublished stored ((hcovered.emitting stored hstored).resolve_right ?_))
    rw [hsocket]
    exact nofun
  · intro announced hannounced
    rw [resend_socket] at hannounced
    split at hannounced
    next next hnext =>
      cases hannounced
      obtain ⟨first, hfirst, heq⟩ := nextPageId_eq_some hnext
      exact ⟨first, List.mem_of_getElem? hfirst, heq⟩
    next => cases hannounced

theorem covered_step [DecidableEq Event] {label : FeedStep Event} {seen : List Unit}
    (hcovered : Covered eventId feed) (hintime : storedInTime feed label = true)
    (hstep : step eventId feed label = some (next, seen)) : Covered eventId next := by
  cases label with
  | acquire =>
      simp only [step] at hstep
      split at hstep <;> cases hstep
      exact hcovered.setLock nofun
  | emit event =>
      simp only [step] at hstep
      split at hstep <;> cases hstep
      refine (hcovered.schedule event).setLock fun emitted hemitted => ?_
      cases hemitted
      exact published_schedule feed event
  | append =>
      simp only [step] at hstep
      split at hstep <;> cases hstep
      next event hlock =>
        refine (hcovered.store ?_).setLock nofun
        refine (hcovered.emitting event hlock).imp_right fun hsocket => ?_
        rcases hsocket with hsocket | hsocket <;> simp [hsocket]
  | appendFails =>
      simp only [step] at hstep
      split at hstep <;> cases hstep
      exact hcovered.setLock nofun
  | release =>
      simp only [step] at hstep
      split at hstep <;> cases hstep
      exact hcovered.setLock nofun
  | emitUnlocked event =>
      cases hstep
      exact (hcovered.schedule event).setUnlocked
  | appendUnlocked index =>
      simp only [step] at hstep
      split at hstep <;> cases hstep
      next event hevent =>
        refine (hcovered.store ?_).setUnlocked
        simp only [storedInTime, hevent, Option.all_some, Bool.or_eq_true, decide_eq_true_eq]
          at hintime
        rcases hintime with (hsocket | hscheduled) | hsent
        · exact .inr hsocket
        · exact .inl (.inl hscheduled)
        · exact .inl (.inr hsent)
  | appendUnlockedFails index =>
      simp only [step] at hstep
      split at hstep <;> cases hstep
      exact hcovered.setUnlocked
  | publish =>
      simp only [step] at hstep
      split at hstep <;> cases hstep
      next event rest hscheduled => exact hcovered.publish hscheduled
  | subscribe =>
      simp only [step] at hstep
      split at hstep <;> cases hstep
      exact hcovered.setSocket rfl (fun _ _ => .inl rfl) nofun
  | snapshot =>
      simp only [step] at hstep
      split at hstep <;> cases hstep
      next hlock =>
        refine hcovered.setSocket rfl (fun event hevent => ?_) nofun
        rw [hlock] at hevent
        cases hevent
  | pushState =>
      simp only [step] at hstep
      split at hstep <;> cases hstep
      next hsocket =>
        refine hcovered.setSocket rfl (fun event hevent => .inr ?_) nofun
        simp [hsocket]
  | resendPage =>
      simp only [step] at hstep
      split at hstep <;> cases hstep
      next pageId hsocket => exact hcovered.resend hsocket

/-! ## Whole runs -/

/-- Each event that is stored has been sent to the client. -/
theorem sent_of_storedInTime {Event EventId : Type} [DecidableEq Event] [DecidableEq EventId]
    {eventId : Event → EventId} {log : List Event} {trace : List Unit}
    {feed : EventFeed Event EventId}
    (hruns : ((system eventId).restrict storedInTime).Runs (ofLog log) trace feed)
    (hquiescent : Quiescent feed) {event : Event} (hevent : event ∈ feed.log) :
    event ∈ feed.sent := by
  have hcovered : Covered eventId feed := by
    refine hruns.invariant_restrict (fun _ feed => Covered eventId feed)
      ⟨fun event hevent => .inr hevent, by simp [ofLog], by simp [ofLog]⟩ ?_
    intro trace feed label next seen hcovered hallowed hnext
    exact covered_step hcovered hallowed hnext
  rcases hcovered.log event hevent with (hscheduled | hsent) | hresent
  · rw [hquiescent.scheduled] at hscheduled
    cases hscheduled
  · exact hsent
  · rw [toResend, hquiescent.socket] at hresent
    cases hresent

/-- An event is published before the client subscribes and stored afterwards. The snapshot
waits for it. -/
theorem sent_of_storedInTime_straddling :
    1 ∈ ({ log := [1], socket := .listening, sent := [1] } : EventFeed Nat Nat).sent := by
  have hruns : ((system fun event : Nat => event).restrict storedInTime).Runs (ofLog []) []
      { log := [1], socket := .listening, sent := [1] } :=
    Runs.of_run [.acquire, .emit 1, .publish, .subscribe, .append, .release, .snapshot,
      .pushState, .resendPage] rfl
  exact sent_of_storedInTime hruns ⟨rfl, rfl, rfl, rfl⟩ List.mem_cons_self

/-- A request of a condensation is published before the client subscribes, and stored after
the log has been resent. -/
theorem not_sent_unlocked :
    ∃ trace feed, (system fun event : Nat => event).Runs (ofLog []) trace feed ∧
      Quiescent feed ∧ ∃ event ∈ feed.log, event ∉ feed.sent := by
  have hruns : (system fun event : Nat => event).Runs (ofLog []) []
      { log := [1], socket := .listening } :=
    Runs.of_run [.emitUnlocked 1, .publish, .subscribe, .snapshot, .pushState, .resendPage,
      .appendUnlocked 0] rfl
  exact ⟨_, _, hruns, ⟨rfl, rfl, rfl, rfl⟩, 1, List.mem_cons_self, List.not_mem_nil⟩

end EventFeed

end ShuttleFlow
