import ShuttleFlow.Library.Pruning
import ShuttleFlow.View.ToolLoops

/-! # Views

A view replays the log: it accumulates the events the model may see, applies
condensations on the way, and enforces the properties at the end. What is
enforced is the greatest sublist of the deduplicated accumulation on which the
remaining properties hold, whatever the order in which they are applied.
-/

namespace ShuttleFlow

open scoped List
open ManipulationIndices (complete)

structure View where
  events : List LLMConvertibleEvent := []
  unhandledCondensationRequest : Bool := false
  deriving DecidableEq, Repr

namespace View

/-- The indices respected by all properties. `none` is a `KeyError`. -/
def manipulationIndices (view : View) : Option ManipulationIndices :=
  allProperties.foldlM (fun results property => do
    let indices ← property.manipulationIndices view.events
    return results ∩ indices) (complete view.events)

/-- Enforce the first property that drops something, then check all properties
again. Every round drops an event, so `fuel` is never the reason to stop when it
starts as the number of events. -/
def enforceLoop (allEvents : List Event) :
    Nat → List LLMConvertibleEvent → List LLMConvertibleEvent
  | 0, events => events
  | fuel + 1, events =>
      match allProperties.find? fun property => property.enforce events allEvents ≠ ∅ with
      | none => events
      | some property =>
          enforceLoop allEvents fuel
            (events.filter fun event => event.id ∉ property.enforce events allEvents)

def enforceProperties (view : View) (allEvents : List Event) : View :=
  { view with events := enforceLoop allEvents view.events.length view.events }

def appendEvent (view : View) : Event → View
  | .condensation condensation =>
      { events := condensation.apply view.events, unhandledCondensationRequest := false }
  | .condensationRequest _ => { view with unhandledCondensationRequest := true }
  | .convertible event => { view with events := view.events ++ [event] }
  | .internal _ _ => view

/-- The view before any property is enforced. -/
def appendEvents (events : List Event) : View :=
  events.foldl appendEvent {}

def fromEvents (events : List Event) : View :=
  (appendEvents events).enforceProperties events

/-! ## Manipulation indices -/

theorem mem_manipulationIndices {view : View} {indices : ManipulationIndices}
    (hindices : view.manipulationIndices = some indices) :
    ∃ matching, ToolCallMatching.manipulationIndices view.events = some matching ∧
      ∀ index, index ∈ indices ↔ index ∉ BatchAtomicity.interiorFrom 0 view.events ∧
        index ∈ matching ∧ index ∉ ToolLoopAtomicity.insideFrom 0 false view.events ∧
        index ≤ view.events.length := by
  cases hmatching : ToolCallMatching.manipulationIndices view.events with
  | none =>
      simp [manipulationIndices, allProperties, observationUniquenessProperty,
        batchAtomicityProperty, toolCallMatchingProperty, hmatching,
        ObservationUniqueness.manipulationIndices, BatchAtomicity.manipulationIndices] at hindices
  | some matching =>
      refine ⟨matching, rfl, fun index => ?_⟩
      simp only [manipulationIndices, allProperties, observationUniquenessProperty,
        batchAtomicityProperty, toolCallMatchingProperty, toolLoopAtomicityProperty, hmatching,
        ObservationUniqueness.manipulationIndices, BatchAtomicity.manipulationIndices,
        ToolLoopAtomicity.manipulationIndices, List.foldlM_cons, List.foldlM_nil,
        Option.bind_eq_bind, Option.bind_some, Option.pure_def, Option.some.injEq] at hindices
      subst hindices
      simp only [Finset.mem_inter, Finset.mem_sdiff, ManipulationIndices.mem_complete]
      tauto

theorem exists_manipulationIndices {view : View} {matching : ManipulationIndices}
    (hmatching : ToolCallMatching.manipulationIndices view.events = some matching) :
    ∃ indices, view.manipulationIndices = some indices := by
  simp [manipulationIndices, allProperties, observationUniquenessProperty,
    batchAtomicityProperty, toolCallMatchingProperty, toolLoopAtomicityProperty, hmatching,
    ObservationUniqueness.manipulationIndices, BatchAtomicity.manipulationIndices,
    ToolLoopAtomicity.manipulationIndices]

/-! ## Accumulation -/

@[simp] theorem appendEvents_nil : appendEvents [] = {} := rfl

theorem appendEvents_append (first second : List Event) :
    appendEvents (first ++ second) = second.foldl appendEvent (appendEvents first) := by
  simp [appendEvents]

theorem appendEvents_concat (events : List Event) (event : Event) :
    appendEvents (events ++ [event]) = (appendEvents events).appendEvent event := by
  simp [appendEvents]

/-- Without condensations, accumulation only appends the convertible events. -/
theorem foldl_appendEvent_events (view : View) (events : List Event)
    (hnone : ∀ condensation, .condensation condensation ∉ events) :
    (events.foldl appendEvent view).events = view.events ++ convertibles events := by
  induction events generalizing view with
  | nil => simp
  | cons event rest ih =>
      rw [List.foldl_cons, ih _ fun condensation hmem => hnone condensation (.tail _ hmem)]
      cases event with
      | condensation condensation => exact absurd List.mem_cons_self (hnone condensation)
      | convertible event => simp [appendEvent]
      | condensationRequest _ => rfl
      | internal _ _ => rfl

theorem mem_apply {condensation : Condensation} {events : List LLMConvertibleEvent}
    {event : LLMConvertibleEvent} (hmem : event ∈ condensation.apply events) :
    event ∈ events ∨ ∃ summary, condensation.summaryEvent? = some summary ∧
      event = .condensationSummary summary := by
  unfold Condensation.apply at hmem
  split at hmem
  next summary offset hsummary hoffset =>
    simp only [List.mem_append, List.mem_singleton] at hmem
    rcases hmem with (hmem | rfl) | hmem
    · exact .inl (List.mem_filter.mp (List.mem_of_mem_take hmem)).1
    · exact .inr ⟨summary, hsummary, rfl⟩
    · exact .inl (List.mem_filter.mp (List.mem_of_mem_drop hmem)).1
  next => exact .inl (List.mem_filter.mp hmem).1

/-- An accumulated event comes from the log or is the summary of one of its
condensations. -/
theorem mem_appendEvents {events : List Event} {event : LLMConvertibleEvent}
    (hmem : event ∈ (appendEvents events).events) :
    .convertible event ∈ events ∨ ∃ condensation summary,
      .condensation condensation ∈ events ∧ condensation.summaryEvent? = some summary ∧
      event = .condensationSummary summary := by
  induction events using List.reverseRecOn with
  | nil => cases hmem
  | append_singleton events last ih =>
      have hlift : event ∈ (appendEvents events).events →
          .convertible event ∈ events ++ [last] ∨ ∃ condensation summary,
            .condensation condensation ∈ events ++ [last] ∧
            condensation.summaryEvent? = some summary ∧ event = .condensationSummary summary := by
        intro hold
        refine (ih hold).imp (List.mem_append_left _) ?_
        rintro ⟨condensation, summary, hcondensation, hrest⟩
        exact ⟨condensation, summary, List.mem_append_left _ hcondensation, hrest⟩
      rw [appendEvents_concat] at hmem
      cases last with
      | condensation condensation =>
          rcases mem_apply hmem with hold | ⟨summary, hsummary, rfl⟩
          · exact hlift hold
          · exact .inr ⟨condensation, summary, by simp, hsummary, rfl⟩
      | convertible appended =>
          rcases List.mem_append.mp hmem with hold | hnew
          · exact hlift hold
          · rw [List.mem_singleton] at hnew
            exact .inl (by simp [hnew])
      | condensationRequest _ => exact hlift hmem
      | internal _ _ => exact hlift hmem

end View

/-! ## Distinct ids -/

/-- The id of an event, and with a condensation the id of its summary. -/
def Event.allIds : Event → List EventID
  | condensation event =>
      event.id :: (event.summaryEvent?.map CondensationSummaryEvent.id).toList
  | event => [event.id]

/-- All ids of a log differ, those of the summaries it gives rise to included. -/
def DistinctIds (events : List Event) : Prop :=
  (events.flatMap Event.allIds).Nodup

instance (events : List Event) : Decidable (DistinctIds events) :=
  inferInstanceAs (Decidable (events.flatMap Event.allIds).Nodup)

theorem DistinctIds.sublist {fewer more : List Event} (hdistinct : DistinctIds more)
    (hsub : fewer <+ more) : DistinctIds fewer :=
  List.Nodup.sublist (hsub.flatMap Event.allIds) hdistinct

theorem Event.id_mem_allIds (event : Event) : event.id ∈ event.allIds := by
  cases event <;> simp [Event.allIds, Event.id]

theorem DistinctIds.nodup {events : List Event} (hdistinct : DistinctIds events) :
    (events.map Event.id).Nodup := by
  refine List.Nodup.sublist ?_ hdistinct
  induction events with
  | nil => exact .slnil
  | cons event rest ih =>
      rw [List.map_cons, List.flatMap_cons, ← List.singleton_append]
      exact (List.singleton_sublist.mpr event.id_mem_allIds).append
        (ih (hdistinct.sublist (List.sublist_cons_self _ _)))

namespace View

theorem apply_ids {condensation : Condensation} {events : List LLMConvertibleEvent}
    (hids : (events.map LLMConvertibleEvent.id).Nodup)
    (hfresh : ∀ summary, condensation.summaryEvent? = some summary →
      summary.id ∉ events.map LLMConvertibleEvent.id) :
    ((condensation.apply events).map LLMConvertibleEvent.id).Nodup := by
  unfold Condensation.apply
  have hkept : ((events.filter fun event => event.id ∉ condensation.forgottenEventIds).map
      LLMConvertibleEvent.id).Nodup := hids.sublist (List.filter_sublist.map _)
  split
  next summary offset hsummary _ =>
    have hnew : summary.id ∉ (events.filter fun event =>
        event.id ∉ condensation.forgottenEventIds).map LLMConvertibleEvent.id :=
      fun hmem => hfresh summary hsummary ((List.filter_sublist.map _).subset hmem)
    generalize events.filter (fun event => event.id ∉ condensation.forgottenEventIds) =
      output at hkept hnew
    have hperm : output.take offset ++ [LLMConvertibleEvent.condensationSummary summary] ++
        output.drop offset ~ .condensationSummary summary :: output := by
      rw [List.append_assoc, List.singleton_append]
      refine List.perm_middle.trans ?_
      rw [List.take_append_drop]
    rw [(hperm.map _).nodup_iff, List.map_cons, List.nodup_cons]
    exact ⟨hnew, hkept⟩
  next => exact hkept

theorem id_mem_allIds {events : List Event} {event : LLMConvertibleEvent}
    (hmem : event ∈ (appendEvents events).events) :
    event.id ∈ events.flatMap Event.allIds := by
  rw [List.mem_flatMap]
  rcases mem_appendEvents hmem with hlog | ⟨condensation, summary, hlog, hsummary, rfl⟩
  · exact ⟨_, hlog, Event.id_mem_allIds _⟩
  · exact ⟨_, hlog, by simp [Event.allIds, hsummary, LLMConvertibleEvent.id]⟩

/-- The accumulated events have distinct ids when the log has. -/
theorem appendEvents_ids {events : List Event} (hdistinct : DistinctIds events) :
    ((appendEvents events).events.map LLMConvertibleEvent.id).Nodup := by
  induction events using List.reverseRecOn with
  | nil => exact .nil
  | append_singleton events last ih =>
      have hold := ih (hdistinct.sublist (List.sublist_append_left _ _))
      have hnew : ∀ id ∈ last.allIds,
          id ∉ (appendEvents events).events.map LLMConvertibleEvent.id := by
        intro id hid hmem
        obtain ⟨event, hevent, rfl⟩ := List.mem_map.mp hmem
        rw [DistinctIds, List.flatMap_append, List.nodup_append] at hdistinct
        exact hdistinct.2.2 _ (id_mem_allIds hevent) _ (by simpa using hid) rfl
      rw [appendEvents_concat]
      cases last with
      | condensation condensation =>
          exact apply_ids hold fun summary hsummary =>
            hnew _ (by simp [Event.allIds, hsummary])
      | convertible event =>
          have hevent := hnew event.id (by simp [Event.allIds, Event.id])
          simp only [appendEvent, List.map_append, List.map_cons, List.map_nil]
          exact hold.append (List.nodup_singleton _) (by simpa using hevent)
      | condensationRequest _ => exact hold
      | internal _ _ => exact hold

/-! ## Enforcement as pruning -/

/-- The enforcement of each property against a log, as pruning rules. -/
def enforcementRules (properties : List ViewProperty) (allEvents : List Event) :
    List (Pruning.Rule LLMConvertibleEvent EventID) :=
  properties.map fun property events => property.enforce events allEvents

theorem enforceLoop_eq_prune (allEvents : List Event) (fuel : Nat)
    (events : List LLMConvertibleEvent) :
    enforceLoop allEvents fuel events =
      Pruning.prune LLMConvertibleEvent.id (enforcementRules allProperties allEvents)
        fuel events := by
  induction fuel generalizing events with
  | zero => rfl
  | succ fuel ih =>
      rw [enforceLoop, Pruning.prune, enforcementRules, List.find?_map]
      have hcomp : ((fun rule : Pruning.Rule LLMConvertibleEvent EventID =>
          decide (rule events ≠ ∅)) ∘ fun property events => property.enforce events allEvents) =
          fun property : ViewProperty => decide (property.enforce events allEvents ≠ ∅) := rfl
      rw [hcomp]
      cases allProperties.find? fun property => property.enforce events allEvents ≠ ∅ with
      | none => rfl
      | some property => exact ih _

/-- The properties that are enforced after the observations are unique. -/
def pairingProperties : List ViewProperty :=
  [batchAtomicityProperty, toolCallMatchingProperty, toolLoopAtomicityProperty]

/-- The properties enforced after uniqueness drop nothing. -/
def Coherent (allEvents : List Event) (events : List LLMConvertibleEvent) : Prop :=
  Pruning.Stable (enforcementRules pairingProperties allEvents) events

theorem coherent_iff {allEvents : List Event} {events : List LLMConvertibleEvent} :
    Coherent allEvents events ↔ BatchAtomicity.enforce events allEvents = ∅ ∧
      ToolCallMatching.enforce events allEvents = ∅ ∧
      ToolLoopAtomicity.enforce events allEvents = ∅ := by
  simp [Coherent, Pruning.Stable, enforcementRules, pairingProperties, batchAtomicityProperty,
    toolCallMatchingProperty, toolLoopAtomicityProperty]

/-- The view without the later observations of a tool call. -/
def dedup (events : List LLMConvertibleEvent) : List LLMConvertibleEvent :=
  Pruning.sweep LLMConvertibleEvent.id (ObservationUniqueness.enforce events []) events

theorem dedup_sublist (events : List LLMConvertibleEvent) : dedup events <+ events :=
  Pruning.sweep_sublist _

theorem dedup_nodup (events : List LLMConvertibleEvent) :
    (observationToolCalls (dedup events)).Nodup := by
  have hpair := ObservationUniqueness.pairwise_enforceFrom ∅ events
  rw [observationToolCalls, List.Nodup, List.pairwise_map, List.pairwise_filterMap]
  refine (List.Pairwise.sublist (dedup_sublist events) hpair).imp_of_mem ?_
  intro earlier later _ hlater hnamed first hfirst second hsecond heq
  rw [asObservation_eq_some] at hfirst hsecond
  subst hfirst hsecond
  exact (Pruning.mem_sweep.mp hlater).2 (hnamed first second rfl rfl heq)

theorem batchAtomicity_antitoneOn {base : List LLMConvertibleEvent} {allEvents : List Event}
    (hids : (base.map LLMConvertibleEvent.id).Nodup)
    (hlog : ∀ action, .action action ∈ base → .convertible (.action action) ∈ allEvents) :
    Pruning.AntitoneOn LLMConvertibleEvent.id base (BatchAtomicity.enforce · allEvents) := by
  intro more fewer hmore hfewer item hitem hnamed
  obtain ⟨action, haction, hid, hdiffers⟩ := BatchAtomicity.mem_enforce.mp hnamed
  obtain rfl : .action action = item := eq_of_id_eq hids (hmore.subset haction)
    ((hfewer.trans hmore).subset hitem) hid
  refine BatchAtomicity.mem_enforce.mpr ⟨action, hitem, rfl, fun hsame => hdiffers ?_⟩
  -- the shorter list already has the whole batch, hence so does the longer one
  ext id
  simp only [BatchAtomicity.mem_buildBatches]
  constructor
  · rintro ⟨other, hother, hresponse, rfl⟩
    exact ⟨other, hlog _ (hmore.subset (by simpa using hother)), hresponse, rfl⟩
  · intro hall
    rw [← BatchAtomicity.mem_buildBatches, ← hsame, BatchAtomicity.mem_buildBatches] at hall
    obtain ⟨other, hother, hresponse, rfl⟩ := hall
    exact ⟨other, by simpa using hfewer.subset (by simpa using hother), hresponse, rfl⟩

theorem toolCallMatching_antitoneOn {base : List LLMConvertibleEvent} {allEvents : List Event}
    (hids : (base.map LLMConvertibleEvent.id).Nodup) :
    Pruning.AntitoneOn LLMConvertibleEvent.id base (ToolCallMatching.enforce · allEvents) := by
  intro more fewer hmore hfewer item hitem hnamed
  obtain ⟨event, hevent, hid⟩ := mem_viewEventIds.mp hnamed
  rw [List.mem_filter, decide_eq_true_eq] at hevent
  obtain rfl : event = item := eq_of_id_eq hids (hmore.subset hevent.1)
    ((hfewer.trans hmore).subset hitem) hid
  refine mem_viewEventIds.mpr ⟨event, List.mem_filter.mpr ⟨hitem, ?_⟩, rfl⟩
  rw [decide_eq_true_eq]
  cases event with
  | action action =>
      exact fun hmem => hevent.2 ((observationToolCalls_sublist hfewer).subset hmem)
  | observation observation =>
      exact fun hmem => hevent.2 ((actionToolCalls_sublist hfewer).subset hmem)
  | _ => exact hevent.2

theorem toolLoopAtomicity_antitoneOn {base : List LLMConvertibleEvent}
    {allEvents : List Event} (hids : (allEvents.map Event.id).Nodup) :
    Pruning.AntitoneOn LLMConvertibleEvent.id base
      (ToolLoopAtomicity.enforce · allEvents) := by
  intro more fewer hmore hfewer item hitem hnamed
  obtain ⟨-, toolLoop, hloop, hmem, hpartial⟩ := (ToolLoopAtomicity.mem_enforce hids).mp hnamed
  refine (ToolLoopAtomicity.mem_enforce hids).mpr
    ⟨mem_viewEventIds.mpr ⟨item, hitem, rfl⟩, toolLoop, hloop, hmem, fun hwhole => hpartial ?_⟩
  intro id hid
  obtain ⟨event, hevent, rfl⟩ := mem_viewEventIds.mp (hwhole hid)
  exact mem_viewEventIds.mpr ⟨event, hfewer.subset hevent, rfl⟩

theorem enforcementRules_local {allEvents : List Event}
    (hids : (allEvents.map Event.id).Nodup) :
    ∀ rule ∈ enforcementRules allProperties allEvents,
      Pruning.Local LLMConvertibleEvent.id rule := by
  simp only [enforcementRules, allProperties, List.map_cons, List.map_nil, List.mem_cons,
    List.not_mem_nil, or_false]
  rintro rule (rfl | rfl | rfl | rfl) events id hid
  · obtain ⟨before, observation, after, rfl, rfl, -⟩ :=
      @ObservationUniqueness.exists_of_mem_enforce _ allEvents _ hid
    exact ⟨.observation observation, by simp, rfl⟩
  · obtain ⟨action, haction, rfl, -⟩ := BatchAtomicity.mem_enforce.mp hid
    exact ⟨.action action, haction, rfl⟩
  · obtain ⟨event, hevent, rfl⟩ := mem_viewEventIds.mp hid
    exact ⟨event, (List.mem_filter.mp hevent).1, rfl⟩
  · exact mem_viewEventIds.mp ((ToolLoopAtomicity.mem_enforce hids).mp hid).1

theorem appendEvents_action_mem {events : List Event} {action : ActionEvent}
    (hmem : .action action ∈ (appendEvents events).events) :
    .convertible (.action action) ∈ events := by
  rcases mem_appendEvents hmem with hlog | ⟨_, _, -, -, heq⟩
  · exact hlog
  · cases heq

/-- The view of a log is the greatest coherent part of the accumulated events,
once later duplicate observations are gone. -/
theorem fromEvents_isGreatestStable {events : List Event} (hdistinct : DistinctIds events) :
    Pruning.IsGreatestStable (enforcementRules pairingProperties events)
      (dedup (appendEvents events).events) (fromEvents events).events := by
  have hids := appendEvents_ids hdistinct
  have hsub := dedup_sublist (appendEvents events).events
  have hbase := hids.sublist (hsub.map _)
  change Pruning.IsGreatestStable _ _
    (enforceLoop events (appendEvents events).events.length (appendEvents events).events)
  rw [enforceLoop_eq_prune]
  refine Pruning.prune_cons_isGreatestStable (enforcementRules_local hdistinct.nodup) ?_ ?_ _
    (Nat.le_refl _)
  · intro fewer hfewer
    exact (@ObservationUniqueness.enforce_eq_empty_iff _ events).mpr
      ((dedup_nodup _).sublist (observationToolCalls_sublist hfewer))
  · simp only [List.map_cons, List.map_nil, List.mem_cons, List.not_mem_nil, or_false]
    rintro rule (rfl | rfl | rfl)
    · exact batchAtomicity_antitoneOn hbase fun action haction =>
        appendEvents_action_mem (hsub.subset haction)
    · exact @toolCallMatching_antitoneOn _ events hbase
    · exact toolLoopAtomicity_antitoneOn hdistinct.nodup

theorem fromEvents_sublist {events : List Event} (hdistinct : DistinctIds events) :
    (fromEvents events).events <+ (appendEvents events).events :=
  (fromEvents_isGreatestStable hdistinct).sublist.trans (dedup_sublist _)

theorem fromEvents_coherent {events : List Event} (hdistinct : DistinctIds events) :
    Coherent events (fromEvents events).events :=
  (fromEvents_isGreatestStable hdistinct).stable

theorem fromEvents_observations_nodup {events : List Event} (hdistinct : DistinctIds events) :
    (observationToolCalls (fromEvents events).events).Nodup :=
  (dedup_nodup _).sublist
    (observationToolCalls_sublist (fromEvents_isGreatestStable hdistinct).sublist)

end View

end ShuttleFlow
