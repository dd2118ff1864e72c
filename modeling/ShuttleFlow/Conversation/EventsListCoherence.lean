import ShuttleFlow.Conversation.RemoteEventsList

/-! # The cached events of a remote conversation

The cache is coherent as long as no snapshot of a tool call comes late or again, snapshots
are not left over from the first sync, and events are inserted where the cache is in order.
-/

namespace ShuttleFlow

namespace RemoteEventsList

variable {τ : Type} [LinearOrder τ] {list : RemoteEventsList τ} {event : RemoteEvent τ}
  {delivered events before after log : List (RemoteEvent τ)}

/-- Snapshots of different calls. -/
def Distinct (first second : RemoteEvent τ) : Prop :=
  first.acpToolCallId = second.acpToolCallId → first.acpToolCallId = none

instance (first second : RemoteEvent τ) : Decidable (Distinct first second) :=
  inferInstanceAs (Decidable (_ → _))

/-- The ids are those of the cached events, there is one snapshot of each tool call, and the
other events are in order. -/
structure Tidy (delivered : List (RemoteEvent τ)) (list : RemoteEventsList τ) : Prop where
  ids : ∀ id, id ∈ list.cachedEventIds ↔ id ∈ list.cachedEvents.map RemoteEvent.id
  nodup : (list.cachedEvents.map RemoteEvent.id).Nodup
  subset : ∀ event ∈ list.cachedEvents, event ∈ delivered
  single : list.cachedEvents.Pairwise Distinct
  sorted : (list.cachedEvents.filter fun event => event.acpToolCallId.isNone).Pairwise
    fun first second => first.timestamp ≤ second.timestamp

/-- For each snapshot, a cached one of the same call is as late. -/
def Latest (delivered : List (RemoteEvent τ)) (list : RemoteEventsList τ) : Prop :=
  ∀ event ∈ delivered, event.acpToolCallId ≠ none →
    ∃ cached ∈ list.cachedEvents, cached.acpToolCallId = event.acpToolCallId ∧
      event.timestamp ≤ cached.timestamp

/-- What the cache shall be like after the events were delivered. -/
structure Coherent (delivered : List (RemoteEvent τ)) (list : RemoteEventsList τ) : Prop
    extends Tidy delivered list where
  latest : Latest delivered list

/-- The index leads to cached snapshots. -/
def Indexed (list : RemoteEventsList τ) : Prop :=
  ∀ toolCallId eventId, list.acpToolCallIdToEventId.get? toolCallId = some eventId →
    ∃ cached ∈ list.cachedEvents, cached.id = eventId ∧ cached.acpToolCallId = some toolCallId

/-- An event is cached already, or it is no snapshot and the cache is in order around its
timestamp, or it is a snapshot of a call that is in the index if it is cached. -/
def Fits (event : RemoteEvent τ) (list : RemoteEventsList τ) : Prop :=
  event.id ∈ list.cachedEventIds ∨
    (event.acpToolCallId = none ∧
      Bisect.Partitioned (fun other => event.timestamp < other.timestamp) list.cachedEvents) ∨
    (event.acpToolCallId ≠ none ∧
      ∀ cached ∈ list.cachedEvents, cached.acpToolCallId = event.acpToolCallId →
        (event.acpToolCallId.bind list.acpToolCallIdToEventId.get?).isSome)

instance (event : RemoteEvent τ) (list : RemoteEventsList τ) : Decidable (Fits event list) :=
  inferInstanceAs (Decidable (_ ∨ _ ∨ _))

/-- Each of the events fits when its turn comes. -/
def fitsAll : List (RemoteEvent τ) → RemoteEventsList τ → Bool
  | [], _ => true
  | event :: rest, list => Fits event list && fitsAll rest (list.addEvent event)

/-- Of no call, the events hold earlier snapshots only than the one that is cached. -/
def UpToDate (events : List (RemoteEvent τ)) (list : RemoteEventsList τ) : Prop :=
  ∀ cached ∈ list.cachedEvents, cached.acpToolCallId ≠ none →
    (∃ event ∈ events, event.acpToolCallId = cached.acpToolCallId) →
      ∃ event ∈ events, event.acpToolCallId = cached.acpToolCallId ∧
        cached.timestamp ≤ event.timestamp

instance (events : List (RemoteEvent τ)) (list : RemoteEventsList τ) :
    Decidable (UpToDate events list) :=
  inferInstanceAs (Decidable (∀ cached ∈ list.cachedEvents, _ → _ → _))

/-- The events may be merged into the cache. -/
def mergeable (events : List (RemoteEvent τ)) (list : RemoteEventsList τ) : Bool :=
  fitsAll events list && UpToDate events list

/-! ## One event -/

omit [LinearOrder τ] in
theorem Distinct.symm {first second : RemoteEvent τ} (hdistinct : Distinct first second) :
    Distinct second first :=
  fun hsame => hsame.trans (hdistinct hsame.symm)

/-- A new event that comes between cached ones. -/
theorem Tidy.insert (htidy : Tidy delivered list)
    (hsplit : list.cachedEvents = before ++ after) (hnew : event.id ∉ list.cachedEventIds)
    (hdistinct : ∀ cached ∈ list.cachedEvents, Distinct event cached)
    (hsorted : ((before ++ event :: after).filter fun event => event.acpToolCallId.isNone).Pairwise
      fun first second => first.timestamp ≤ second.timestamp)
    (index : Dict ToolCallID EventID) :
    Tidy (delivered ++ [event])
      { cachedEvents := before ++ event :: after
        cachedEventIds := insert event.id list.cachedEventIds
        acpToolCallIdToEventId := index } where
  ids id := by
    rw [Finset.mem_insert, htidy.ids, hsplit, List.map_append, List.map_append, List.map_cons,
      List.mem_append, List.mem_append, List.mem_cons]
    tauto
  nodup := by
    have hnodup := htidy.nodup
    rw [htidy.ids] at hnew
    rw [hsplit] at hnew hnodup
    rw [List.map_append] at hnew hnodup
    rw [List.map_append, List.map_cons, List.nodup_middle, List.nodup_cons]
    exact ⟨hnew, hnodup⟩
  subset := by
    intro other hother
    rw [List.mem_append, List.mem_cons] at hother
    rw [List.mem_append, List.mem_singleton]
    rcases hother with hbefore | heq | hafter
    · exact .inl (htidy.subset other (hsplit ▸ List.mem_append_left _ hbefore))
    · exact .inr heq
    · exact .inl (htidy.subset other (hsplit ▸ List.mem_append_right _ hafter))
  single := by
    have hsingle := htidy.single
    rw [hsplit] at hsingle hdistinct
    rw [List.pairwise_middle Distinct.symm, List.pairwise_cons]
    exact ⟨hdistinct, hsingle⟩
  sorted := hsorted

/-- What is no snapshot is inserted in order. -/
theorem sorted_insort
    (hsorted : (events.filter fun event => event.acpToolCallId.isNone).Pairwise
      fun first second => first.timestamp ≤ second.timestamp)
    (hpartitioned : Bisect.Partitioned (fun other => event.timestamp < other.timestamp) events) :
    ((Bisect.insort (fun other => event.timestamp < other.timestamp) event events).filter
      fun event => event.acpToolCallId.isNone).Pairwise
        fun first second => first.timestamp ≤ second.timestamp := by
  have hsplit := @List.takeWhile_append_dropWhile _
    (fun other => !decide (event.timestamp < other.timestamp)) events
  rw [← hsplit, List.filter_append, List.pairwise_append] at hsorted
  rw [hpartitioned.insort_eq, List.filter_append, List.filter_cons]
  split
  next =>
    rw [List.pairwise_append, List.pairwise_cons]
    refine ⟨hsorted.1, ⟨fun other hother => ?_, hsorted.2.1⟩, fun first hfirst second hsecond => ?_⟩
    · exact le_of_lt (of_decide_eq_true
        (hpartitioned.above_dropWhile other (List.mem_of_mem_filter hother)))
    · rcases List.mem_cons.mp hsecond with rfl | hsecond
      · have hbelow := List.mem_takeWhile_imp (List.mem_of_mem_filter hfirst)
        exact not_lt.mp (by simpa using hbelow)
      · exact hsorted.2.2 first hfirst second hsecond
  next => exact List.pairwise_append.mpr hsorted

omit [LinearOrder τ] in
theorem replaceAt_eq {old : RemoteEvent τ} (hold : old ∈ events)
    (hnodup : (events.map RemoteEvent.id).Nodup) :
    ∃ before after, events = before ++ old :: after ∧
      replaceAt old.id event events = some (before ++ event :: after) := by
  induction events with
  | nil => cases hold
  | cons first rest ih =>
      rw [List.map_cons, List.nodup_cons] at hnodup
      rw [replaceAt]
      rcases List.mem_cons.mp hold with rfl | hold
      · exact ⟨[], rest, rfl, if_pos rfl⟩
      · have hne : first.id ≠ old.id := fun heq =>
          hnodup.1 (heq ▸ List.mem_map_of_mem hold)
        obtain ⟨before, after, rfl, hreplace⟩ := ih hold hnodup.2
        refine ⟨first :: before, after, rfl, ?_⟩
        rw [if_neg hne, hreplace]
        rfl

/-- A new snapshot that takes the place of another one. -/
theorem Tidy.replace {old : RemoteEvent τ} (htidy : Tidy delivered list)
    (hsplit : list.cachedEvents = before ++ old :: after) (hnew : event.id ∉ list.cachedEventIds)
    (hsame : event.acpToolCallId = old.acpToolCallId) (hcall : event.acpToolCallId ≠ none)
    (index : Dict ToolCallID EventID) :
    Tidy (delivered ++ [event])
      { cachedEvents := before ++ event :: after
        cachedEventIds := Insert.insert event.id (list.cachedEventIds.erase old.id)
        acpToolCallIdToEventId := index } := by
  have hnodup := htidy.nodup
  have hids := htidy.ids
  simp only [hsplit, List.map_append, List.map_cons, List.mem_append, List.mem_cons] at hids
  rw [hsplit, List.map_append, List.map_cons, List.nodup_middle, List.nodup_cons,
    List.mem_append, not_or] at hnodup
  rw [hids, not_or, not_or] at hnew
  exact
    { ids := fun id => by
        simp only [Finset.mem_insert, Finset.mem_erase, hids, List.map_append, List.map_cons,
          List.mem_append, List.mem_cons]
        constructor
        · rintro (heq | ⟨hne, hbefore | heq | hafter⟩)
          · exact .inr (.inl heq)
          · exact .inl hbefore
          · exact absurd heq hne
          · exact .inr (.inr hafter)
        · rintro (hbefore | heq | hafter)
          · exact .inr ⟨fun heq => hnodup.1.1 (heq ▸ hbefore), .inl hbefore⟩
          · exact .inl heq
          · exact .inr ⟨fun heq => hnodup.1.2 (heq ▸ hafter), .inr (.inr hafter)⟩
      nodup := by
        rw [List.map_append, List.map_cons, List.nodup_middle, List.nodup_cons, List.mem_append,
          not_or]
        exact ⟨⟨hnew.1, hnew.2.2⟩, hnodup.2⟩
      subset := fun other hother => by
        rw [List.mem_append, List.mem_cons] at hother
        rw [List.mem_append, List.mem_singleton]
        rcases hother with hbefore | heq | hafter
        · exact .inl (htidy.subset other (hsplit ▸ List.mem_append_left _ hbefore))
        · exact .inr heq
        · exact .inl (htidy.subset other
            (hsplit ▸ List.mem_append_right _ (List.mem_cons_of_mem _ hafter)))
      single := by
        have hsingle := htidy.single
        rw [hsplit, List.pairwise_middle Distinct.symm, List.pairwise_cons] at hsingle
        rw [List.pairwise_middle Distinct.symm, List.pairwise_cons]
        refine ⟨fun other hother hcalls => hsame.trans (hsingle.1 other hother ?_), hsingle.2⟩
        exact hsame.symm.trans hcalls
      sorted := by
        have hsorted := htidy.sorted
        have hsnapshot : event.acpToolCallId.isNone = false :=
          Option.isNone_eq_false_iff.mpr (Option.isSome_iff_ne_none.mpr hcall)
        rw [hsplit, List.filter_append, List.filter_cons, ← hsame, hsnapshot] at hsorted
        rw [List.filter_append, List.filter_cons, hsnapshot]
        exact hsorted }

theorem mem_insertSorted {other : RemoteEvent τ} (list : RemoteEventsList τ) :
    other ∈ (list.insertSorted event).cachedEvents ↔
      other = event ∨ other ∈ list.cachedEvents := by
  obtain ⟨before, after, hsplit, hinsort⟩ := Bisect.insort_split
    (fun other => event.timestamp < other.timestamp) event list.cachedEvents
  rw [insertSorted, hinsort, hsplit, List.mem_append, List.mem_append, List.mem_cons]
  tauto

theorem Indexed.insertSorted (hindexed : Indexed list) : Indexed (list.insertSorted event) := by
  intro toolCallId eventId hget
  have hcached : ∀ eventId, list.acpToolCallIdToEventId.get? toolCallId = some eventId →
      ∃ cached ∈ (list.insertSorted event).cachedEvents,
        cached.id = eventId ∧ cached.acpToolCallId = some toolCallId := by
    intro eventId hget
    obtain ⟨cached, hmem, hcached⟩ := hindexed toolCallId eventId hget
    exact ⟨cached, (mem_insertSorted list).mpr (.inr hmem), hcached⟩
  cases hcall : event.acpToolCallId with
  | none =>
      simp only [RemoteEventsList.insertSorted, hcall, Option.elim_none] at hget
      exact hcached eventId hget
  | some toolCallId' =>
      simp only [RemoteEventsList.insertSorted, hcall, Option.elim_some, Dict.get?_set] at hget
      split at hget
      next hsame =>
        cases hget
        exact ⟨event, (mem_insertSorted list).mpr (.inl rfl), rfl, hsame ▸ hcall⟩
      next => exact hcached eventId hget

/-- A cached event with the id of a logged one is that one. -/
theorem Tidy.mem_of_id (htidy : Tidy delivered list) (hnodup : (log.map RemoteEvent.id).Nodup)
    (hdelivered : ∀ event ∈ delivered, event ∈ log) (hevent : event ∈ log)
    (hknown : event.id ∈ list.cachedEventIds) : event ∈ list.cachedEvents := by
  obtain ⟨cached, hcached, hid⟩ := List.mem_map.mp ((htidy.ids _).mp hknown)
  have hsame : cached = event := List.inj_on_of_nodup_map hnodup
    (hdelivered _ (htidy.subset _ hcached)) hevent hid
  rwa [hsame] at hcached

/-- What adding an event does to the cached ones. -/
structure Added (event : RemoteEvent τ) (list next : RemoteEventsList τ) : Prop where
  mem : event ∈ next.cachedEvents
  /-- Only a snapshot of the same call may be gone. -/
  kept : ∀ cached ∈ list.cachedEvents, cached ∈ next.cachedEvents ∨
    (event.acpToolCallId ≠ none ∧ cached.acpToolCallId = event.acpToolCallId)

theorem added_insertSorted (list : RemoteEventsList τ) :
    Added event list (list.insertSorted event) where
  mem := (mem_insertSorted list).mpr (.inl rfl)
  kept _ hcached := .inl ((mem_insertSorted list).mpr (.inr hcached))

/-- An event that fits keeps the cache tidy. -/
theorem Tidy.addEvent (htidy : Tidy delivered list) (hindexed : Indexed list)
    (hnodup : (log.map RemoteEvent.id).Nodup) (hdelivered : ∀ event ∈ delivered, event ∈ log)
    (hevent : event ∈ log) (hfits : Fits event list) :
    Tidy (delivered ++ [event]) (list.addEvent event) ∧ Indexed (list.addEvent event) ∧
      Added event list (list.addEvent event) := by
  rw [RemoteEventsList.addEvent]
  split
  next hknown =>
    have hsubset : ∀ other ∈ list.cachedEvents, other ∈ delivered ++ [event] :=
      fun other hother => List.mem_append_left _ (htidy.subset other hother)
    exact ⟨{ htidy with subset := hsubset }, hindexed,
      htidy.mem_of_id hnodup hdelivered hevent hknown, fun _ hcached => .inl hcached⟩
  next hnew =>
    have hfits := hfits.resolve_left hnew
    obtain ⟨before, after, hsplit, hinsort⟩ := Bisect.insort_split
      (fun other => event.timestamp < other.timestamp) event list.cachedEvents
    rw [addEventUnsafe]
    split
    next hcall =>
      refine ⟨?_, hindexed.insertSorted, added_insertSorted list⟩
      have hpartitioned := (hfits.resolve_right fun hsnapshot => hsnapshot.1 hcall).2
      have hsorted := sorted_insort htidy.sorted hpartitioned
      rw [insertSorted]
      rw [hinsort] at hsorted ⊢
      exact htidy.insert hsplit hnew (fun _ _ _ => hcall) hsorted _
    next toolCallId hcall =>
      obtain ⟨hsnapshot, hcalls⟩ := hfits.resolve_left fun hplain => by
        cases hplain.1.symm.trans hcall
      split
      next hunknown =>
        refine ⟨?_, hindexed.insertSorted, added_insertSorted list⟩
        have hdistinct : ∀ cached ∈ list.cachedEvents, Distinct event cached := by
          intro cached hcached hsame
          have hindex := hcalls cached hcached hsame.symm
          rw [hcall, Option.bind_some, hunknown] at hindex
          cases hindex
        rw [insertSorted, hinsort]
        refine htidy.insert hsplit hnew hdistinct ?_ _
        have hsorted := htidy.sorted
        rw [hsplit, List.filter_append] at hsorted
        rw [List.filter_append, List.filter_cons, hcall]
        exact hsorted
      next existingId hknown =>
        obtain ⟨old, hold, rfl, holdCall⟩ := hindexed toolCallId existingId hknown
        obtain ⟨before, after, hsplit, hreplace⟩ := @replaceAt_eq _ event _ old hold htidy.nodup
        have hsame : event.acpToolCallId = old.acpToolCallId := hcall.trans holdCall.symm
        have hother : ∀ cached ∈ list.cachedEvents, cached ≠ old →
            cached ∈ before ++ event :: after := by
          intro cached hcached hne
          rw [hsplit, List.mem_append, List.mem_cons] at hcached
          rw [List.mem_append, List.mem_cons]
          exact hcached.imp_right fun hcached => .inr (hcached.resolve_left hne)
        rw [hreplace]
        refine ⟨htidy.replace hsplit hnew hsame hsnapshot _, fun toolCallId' eventId hget => ?_,
          List.mem_append_right _ List.mem_cons_self, fun cached hcached => ?_⟩
        · rw [Dict.get?_set] at hget
          split at hget
          next heq =>
            cases hget
            exact ⟨event, List.mem_append_right _ List.mem_cons_self, rfl, heq ▸ hcall⟩
          next hne =>
            obtain ⟨cached, hmem, hid, hcached⟩ := hindexed toolCallId' eventId hget
            refine ⟨cached, hother cached hmem fun heq => hne ?_, hid, hcached⟩
            rw [heq] at hcached
            exact Option.some.inj (hcached.symm.trans holdCall)
        · by_cases heq : cached = old
          · exact .inr ⟨hsnapshot, heq ▸ hsame.symm⟩
          · exact .inl (hother cached hcached heq)

/-! ## Several events -/

/-- What merging events does to the cached ones. -/
structure Merged (events : List (RemoteEvent τ)) (list next : RemoteEventsList τ) : Prop where
  latest : Latest events next
  /-- Only snapshots of the same calls may be gone. -/
  kept : ∀ cached ∈ list.cachedEvents, cached ∈ next.cachedEvents ∨
    ∃ event ∈ events, event.acpToolCallId ≠ none ∧ cached.acpToolCallId = event.acpToolCallId

/-- A later event is merged. -/
theorem Merged.snoc {next last : RemoteEventsList τ} (hmerged : Merged events list next)
    (hadded : Added event next last)
    (hlate : ∀ other ∈ events, other.timestamp ≤ event.timestamp) :
    Merged (events ++ [event]) list last where
  latest other hother hcall := by
    rcases List.mem_append.mp hother with hold | hlast
    · obtain ⟨cached, hcached, hsame, hle⟩ := hmerged.latest other hold hcall
      rcases hadded.kept cached hcached with hkept | ⟨-, hevent⟩
      · exact ⟨cached, hkept, hsame, hle⟩
      · exact ⟨event, hadded.mem, hevent.symm.trans hsame, hlate other hold⟩
    · rw [List.mem_singleton.mp hlast]
      exact ⟨event, hadded.mem, rfl, le_refl _⟩
  kept cached hcached := by
    rcases hmerged.kept cached hcached with hkept | ⟨other, hother, hcall⟩
    · rcases hadded.kept cached hkept with hkept | hcall
      · exact .inl hkept
      · exact .inr ⟨event, List.mem_append_right _ (List.mem_singleton_self _), hcall⟩
    · exact .inr ⟨other, List.mem_append_left _ hother, hcall⟩

/-- The events that were merged already are `first`. -/
theorem Tidy.reconcile_append {first : List (RemoteEvent τ)} {next : RemoteEventsList τ}
    (hnodup : (log.map RemoteEvent.id).Nodup) (htidy : Tidy (delivered ++ first) next)
    (hindexed : Indexed next) (hmerged : Merged first list next)
    (hdelivered : ∀ event ∈ delivered ++ first, event ∈ log)
    (hevents : ∀ event ∈ events, event ∈ log)
    (hsorted : (first ++ events).Pairwise fun first second => first.timestamp ≤ second.timestamp)
    (hfits : fitsAll events next) :
    Tidy (delivered ++ (first ++ events)) (next.reconcile events) ∧
      Indexed (next.reconcile events) ∧ Merged (first ++ events) list (next.reconcile events) := by
  induction events generalizing first next with
  | nil =>
      rw [List.append_nil]
      exact ⟨htidy, hindexed, hmerged⟩
  | cons event rest ih =>
      rw [fitsAll, Bool.and_eq_true, decide_eq_true_eq] at hfits
      rw [List.forall_mem_cons] at hevents
      obtain ⟨htidy', hindexed', hadded⟩ :=
        htidy.addEvent hindexed hnodup hdelivered hevents.1 hfits.1
      have hlate : ∀ other ∈ first, other.timestamp ≤ event.timestamp := fun other hother =>
        (List.pairwise_append.mp hsorted).2.2 other hother event List.mem_cons_self
      rw [List.append_cons] at hsorted ⊢
      rw [List.append_assoc] at htidy'
      refine ih htidy' hindexed' (hmerged.snoc hadded hlate) ?_ hevents.2 hsorted hfits.2
      rw [← List.append_assoc]
      exact List.forall_mem_append.mpr ⟨hdelivered, List.forall_mem_singleton.mpr hevents.1⟩

/-- Events that are in order and may be merged keep the cache coherent. -/
theorem Coherent.reconcile (hcoherent : Coherent delivered list) (hindexed : Indexed list)
    (hnodup : (log.map RemoteEvent.id).Nodup) (hdelivered : ∀ event ∈ delivered, event ∈ log)
    (hevents : ∀ event ∈ events, event ∈ log)
    (hsorted : events.Pairwise fun first second => first.timestamp ≤ second.timestamp)
    (hmergeable : mergeable events list) :
    Coherent (delivered ++ events) (list.reconcile events) ∧
      Indexed (list.reconcile events) := by
  rw [mergeable, Bool.and_eq_true, decide_eq_true_eq] at hmergeable
  have htidy : Tidy (delivered ++ []) list := (List.append_nil delivered).symm ▸ hcoherent.toTidy
  have hmerged : Merged [] list list := ⟨nofun, fun _ hcached => .inl hcached⟩
  obtain ⟨htidy', hindexed', hmerged'⟩ := htidy.reconcile_append hnodup hindexed hmerged
    ((List.append_nil delivered).symm ▸ hdelivered) hevents hsorted hmergeable.1
  refine ⟨⟨htidy', List.forall_mem_append.mpr ⟨fun other hother hcall => ?_,
    hmerged'.latest⟩⟩, hindexed'⟩
  obtain ⟨cached, hcached, hsame, hle⟩ := hcoherent.latest other hother hcall
  rcases hmerged'.kept cached hcached with hkept | ⟨event, hevent, -, hevents⟩
  · exact ⟨cached, hkept, hsame, hle⟩
  · -- A snapshot that is gone was not later than one of the events.
    obtain ⟨late, hlate, hlateCall, hlateLe⟩ := hmergeable.2 cached hcached
      (fun hnone => hcall (hsame.symm.trans hnone)) ⟨event, hevent, hevents.symm⟩
    obtain ⟨found, hfound, hfoundCall, hfoundLe⟩ := hmerged'.latest late hlate
      fun hnone => hcall (hsame.symm.trans (hlateCall.symm.trans hnone))
    exact ⟨found, hfound, hfoundCall.trans (hlateCall.trans hsame),
      le_trans hle (le_trans hlateLe hfoundLe)⟩

theorem coherent_doFullSync (hnodup : (events.map RemoteEvent.id).Nodup)
    (hsorted : events.Pairwise fun first second => first.timestamp ≤ second.timestamp)
    (hsingle : events.Pairwise Distinct) :
    Coherent events (RemoteEventsList.empty.doFullSync events) ∧
      Indexed (RemoteEventsList.empty.doFullSync events) where
  left :=
    { ids := fun id => by
        rw [doFullSync, RemoteEventsList.empty, Finset.empty_union, List.mem_toFinset]
      nodup := hnodup
      subset := fun _ hevent => hevent
      single := hsingle
      latest := fun event hevent _ => ⟨event, hevent, rfl, le_refl _⟩
      sorted := hsorted.filter _ }
  right := nofun

end RemoteEventsList

/-! ## All runs -/

namespace RemoteEvents

open RemoteEventsList

variable {τ : Type} [LinearOrder τ] {remote next : RemoteEvents τ}
  {delivered seen : List (RemoteEvent τ)}

/-- Steps after which the cache is still coherent. -/
def keepsCoherent (remote : RemoteEvents τ) : RemoteStep τ → Bool
  | .grow _ => true
  | .fullSync pages => decide ((fetchEvents pages).Pairwise Distinct)
  | .reconcile pages => remote.list.all (mergeable (fetchEvents pages))
  | .addEvent event => remote.list.all (mergeable [event])

/-- The invariant of the runs. -/
structure Synced (delivered : List (RemoteEvent τ)) (remote : RemoteEvents τ) : Prop where
  log : WellFormed remote.log
  logged : ∀ event ∈ delivered, event ∈ remote.log
  unsynced : remote.list = none → delivered = []
  coherent : ∀ list, remote.list = some list → Coherent delivered list ∧ Indexed list

theorem Synced.step {label : RemoteStep τ} (hsynced : Synced delivered remote)
    (hallowed : remote.keepsCoherent label) (hstep : remote.step label = some (next, seen)) :
    Synced (delivered ++ seen) next := by
  cases label with
  | grow events =>
      rw [RemoteEvents.step, Option.ite_none_right_eq_some] at hstep
      obtain ⟨hlog, hstep⟩ := hstep
      cases hstep
      rw [List.append_nil]
      exact
        { log := hlog
          logged := fun event hevent => List.mem_append_left _ (hsynced.logged event hevent)
          unsynced := hsynced.unsynced
          coherent := hsynced.coherent }
  | fullSync pages =>
      rw [RemoteEvents.step, Option.ite_none_right_eq_some] at hstep
      obtain ⟨⟨hnone, -, hinitial⟩, hstep⟩ := hstep
      cases hstep
      rw [hsynced.unsynced (Option.isNone_iff_eq_none.mp hnone), List.nil_append]
      have hsublist := hinitial.sublist
      exact
        { log := hsynced.log
          logged := fun event hevent => hinitial.subset hevent
          unsynced := fun hnone => absurd hnone (Option.some_ne_none _)
          coherent := fun list hlist => by
            cases hlist
            exact coherent_doFullSync (hsynced.log.nodup.sublist (hsublist.map _))
              (hsynced.log.sorted.sublist hsublist) (of_decide_eq_true hallowed) }
  | reconcile pages =>
      rw [RemoteEvents.step, Option.ite_none_right_eq_some] at hstep
      obtain ⟨hinitial, hstep⟩ := hstep
      obtain ⟨list, hlist, heq⟩ := Option.map_eq_some_iff.mp hstep
      cases heq
      rw [keepsCoherent, hlist, Option.all_some] at hallowed
      obtain ⟨hcoherent, hindexed⟩ := hsynced.coherent list hlist
      have hevents : ∀ event ∈ fetchEvents pages, event ∈ remote.log :=
        fun event hevent => hinitial.subset hevent
      exact
        { log := hsynced.log
          logged := List.forall_mem_append.mpr ⟨hsynced.logged, hevents⟩
          unsynced := fun hnone => absurd hnone (Option.some_ne_none _)
          coherent := fun list' hlist' => by
            cases hlist'
            exact hcoherent.reconcile hindexed hsynced.log.nodup hsynced.logged hevents
              (hsynced.log.sorted.sublist hinitial.sublist) hallowed }
  | addEvent event =>
      rw [RemoteEvents.step, Option.ite_none_right_eq_some] at hstep
      obtain ⟨hevent, hstep⟩ := hstep
      obtain ⟨list, hlist, heq⟩ := Option.map_eq_some_iff.mp hstep
      cases heq
      rw [keepsCoherent, hlist, Option.all_some] at hallowed
      obtain ⟨hcoherent, hindexed⟩ := hsynced.coherent list hlist
      exact
        { log := hsynced.log
          logged := List.forall_mem_append.mpr
            ⟨hsynced.logged, List.forall_mem_singleton.mpr hevent⟩
          unsynced := fun hnone => absurd hnone (Option.some_ne_none _)
          coherent := fun list' hlist' => by
            cases hlist'
            exact hcoherent.reconcile hindexed hsynced.log.nodup hsynced.logged
              (List.forall_mem_singleton.mpr hevent) (List.pairwise_singleton _ _) hallowed }

/-- In a run whose steps all keep the cache coherent, it is. -/
theorem coherent_of_runs
    (hruns : ((transitions τ).restrict keepsCoherent).Runs {} delivered remote) :
    ∀ list ∈ remote.list, Coherent delivered list := by
  have hsynced : Synced delivered remote := by
    refine hruns.invariant_restrict Synced ?_
      fun _ _ _ _ _ hsynced hallowed hstep => hsynced.step hallowed hstep
    exact
      { log := ⟨List.nodup_nil, .nil⟩
        logged := nofun
        unsynced := fun _ => rfl
        coherent := nofun }
  exact fun list hlist => (hsynced.coherent list hlist).1

/-! ## Snapshots of a call -/

def snapshot (id : EventID) (timestamp : Nat) : RemoteEvent Nat :=
  { id, timestamp, acpToolCallId := some "call" }

/-- The client syncs before the server logs two snapshots and a message. -/
def snapshotSteps : List (RemoteStep Nat) :=
  [.fullSync [.page [] false],
    .grow [snapshot "a" 1, snapshot "b" 2, { id := "c", timestamp := 3 }],
    .addEvent (snapshot "a" 1), .addEvent (snapshot "b" 2)]

/-- The snapshots come in order. The first one comes once more when the whole log is fetched,
and is replaced again. -/
theorem coherent_snapshots :
    ∃ delivered remote, ((transitions Nat).restrict keepsCoherent).Runs {} delivered remote ∧
      delivered.length = 5 ∧ ∀ list ∈ remote.list, Coherent delivered list := by
  obtain ⟨remote, hruns⟩ := @TransitionSystem.Runs.exists_of_run _ _ _
    ((transitions Nat).restrict keepsCoherent) {}
    (snapshotSteps ++ [.reconcile [.page [snapshot "a" 1, snapshot "b" 2] true,
      .page [{ id := "c", timestamp := 3 }] false]])
    [snapshot "a" 1, snapshot "b" 2, snapshot "a" 1, snapshot "b" 2, { id := "c", timestamp := 3 }]
    (by decide +kernel)
  exact ⟨_, remote, hruns, rfl, coherent_of_runs hruns⟩

/-- The first snapshot is delivered again, and takes the place of the second one. -/
theorem not_coherent_of_repetition :
    ¬ ∀ (delivered : List (RemoteEvent Nat)) (remote : RemoteEvents Nat),
      (transitions Nat).Runs {} delivered remote →
        ∀ list ∈ remote.list, Coherent delivered list := by
  intro hcoherent
  have hruns := @TransitionSystem.Runs.of_run _ _ _ (transitions Nat) {}
    (snapshotSteps ++ [.addEvent (snapshot "a" 1)])
    [snapshot "a" 1, snapshot "b" 2, snapshot "a" 1]
    { log := [snapshot "a" 1, snapshot "b" 2, { id := "c", timestamp := 3 }]
      list := some
        { cachedEvents := [snapshot "a" 1]
          cachedEventIds := {"a"}
          acpToolCallIdToEventId := Dict.empty.set "call" "a" } } (by decide +kernel)
  obtain ⟨cached, hcached, -, hle⟩ := (hcoherent _ _ hruns _ rfl).latest (snapshot "b" 2)
    (List.mem_cons_of_mem _ List.mem_cons_self) (Option.some_ne_none _)
  rw [List.mem_singleton.mp hcached] at hle
  exact absurd hle (by decide)

end RemoteEvents

end ShuttleFlow
