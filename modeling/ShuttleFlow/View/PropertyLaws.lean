import Mathlib.Data.List.Nodup
import ShuttleFlow.View.Properties

/-! # What the properties of a view say

One characterization for each enforcement, and one for each index scan.
-/

namespace ShuttleFlow

open scoped List
open ManipulationIndices (complete)

/-! ## Projections -/

@[simp] theorem mem_actionToolCalls {events : List LLMConvertibleEvent} {id : ToolCallID} :
    id ∈ actionToolCalls events ↔ ∃ action, .action action ∈ events ∧ action.toolCallId = id := by
  simp [actionToolCalls]

@[simp] theorem mem_observationToolCalls {events : List LLMConvertibleEvent}
    {id : ToolCallID} :
    id ∈ observationToolCalls events ↔
      ∃ observation, .observation observation ∈ events ∧ observation.toolCallId = id := by
  simp [observationToolCalls]

@[simp] theorem actionToolCalls_append (first second : List LLMConvertibleEvent) :
    actionToolCalls (first ++ second) = actionToolCalls first ++ actionToolCalls second := by
  simp [actionToolCalls]

@[simp] theorem observationToolCalls_append (first second : List LLMConvertibleEvent) :
    observationToolCalls (first ++ second) =
      observationToolCalls first ++ observationToolCalls second := by
  simp [observationToolCalls]

theorem actionToolCalls_sublist {fewer more : List LLMConvertibleEvent}
    (hsub : fewer <+ more) : actionToolCalls fewer <+ actionToolCalls more :=
  (hsub.filterMap _).map _

theorem observationToolCalls_sublist {fewer more : List LLMConvertibleEvent}
    (hsub : fewer <+ more) : observationToolCalls fewer <+ observationToolCalls more :=
  (hsub.filterMap _).map _

/-- In a list with distinct ids, an event is determined by its id. -/
theorem eq_of_id_eq {events : List LLMConvertibleEvent}
    (hids : (events.map LLMConvertibleEvent.id).Nodup) {first second : LLMConvertibleEvent}
    (hfirst : first ∈ events) (hsecond : second ∈ events) (heq : first.id = second.id) :
    first = second :=
  List.inj_on_of_nodup_map hids hfirst hsecond heq

/-! ## Observation uniqueness -/

namespace ObservationUniqueness

theorem mem_enforceFrom_of_seen {seen : Finset ToolCallID} {events : List LLMConvertibleEvent}
    {observation : ObservationBaseEvent} (hmem : .observation observation ∈ events)
    (hseen : observation.toolCallId ∈ seen) :
    observation.id ∈ enforceFrom seen events := by
  induction events generalizing seen with
  | nil => cases hmem
  | cons event rest ih =>
      rcases List.mem_cons.mp hmem with rfl | hrest
      · simp [enforceFrom, LLMConvertibleEvent.asObservation, hseen, LLMConvertibleEvent.id]
      · unfold enforceFrom
        split
        · exact ih hrest hseen
        · split
          · exact Finset.mem_insert_of_mem (ih hrest hseen)
          · exact ih hrest (Finset.mem_insert_of_mem hseen)

/-- Of two observations of one tool call, the later one is named. -/
theorem pairwise_enforceFrom (seen : Finset ToolCallID) (events : List LLMConvertibleEvent) :
    events.Pairwise fun earlier later => ∀ first second, earlier = .observation first →
      later = .observation second → first.toolCallId = second.toolCallId →
      second.id ∈ enforceFrom seen events := by
  induction events generalizing seen with
  | nil => exact .nil
  | cons event rest ih =>
      refine List.pairwise_cons.mpr ⟨?_, ?_⟩
      · rintro later hlater first second rfl rfl heq
        simp only [enforceFrom, LLMConvertibleEvent.asObservation]
        split
        next hseen =>
          exact Finset.mem_insert_of_mem (mem_enforceFrom_of_seen hlater (heq ▸ hseen))
        next => exact mem_enforceFrom_of_seen hlater (heq ▸ Finset.mem_insert_self _ _)
      · unfold enforceFrom
        split
        · exact ih seen
        · split
          · refine (ih seen).imp fun hnamed first second hfirst hsecond heq => ?_
            exact Finset.mem_insert_of_mem (hnamed first second hfirst hsecond heq)
          · exact ih _

/-- Only later duplicates are named. -/
theorem exists_of_mem_enforceFrom {seen : Finset ToolCallID}
    {events : List LLMConvertibleEvent} {id : EventID} (hid : id ∈ enforceFrom seen events) :
    ∃ before observation after, events = before ++ .observation observation :: after ∧
      observation.id = id ∧
      (observation.toolCallId ∈ seen ∨ observation.toolCallId ∈ observationToolCalls before) := by
  induction events generalizing seen with
  | nil => simp [enforceFrom] at hid
  | cons event rest ih =>
      unfold enforceFrom at hid
      split at hid
      next hnone =>
        obtain ⟨before, observation, after, rfl, hobs, hseen⟩ := ih hid
        refine ⟨event :: before, observation, after, rfl, hobs, hseen.imp_right ?_⟩
        exact fun hbefore => (observationToolCalls_sublist (.cons _ (.refl _))).subset hbefore
      next head hsome =>
        obtain rfl := asObservation_eq_some.mp hsome
        split at hid
        next hhead =>
          rcases Finset.mem_insert.mp hid with rfl | hid
          · exact ⟨[], head, rest, rfl, rfl, .inl hhead⟩
          · obtain ⟨before, observation, after, rfl, hobs, hseen⟩ := ih hid
            refine ⟨.observation head :: before, observation, after, rfl, hobs,
              hseen.imp_right ?_⟩
            exact fun hbefore => (observationToolCalls_sublist (.cons _ (.refl _))).subset hbefore
        next hhead =>
          obtain ⟨before, observation, after, rfl, hobs, hseen⟩ := ih hid
          refine ⟨.observation head :: before, observation, after, rfl, hobs, ?_⟩
          rw [Finset.mem_insert] at hseen
          rcases hseen with (heq | hseen) | hbefore
          · exact .inr (mem_observationToolCalls.mpr ⟨head, List.mem_cons_self, heq.symm⟩)
          · exact .inl hseen
          · exact .inr ((observationToolCalls_sublist (.cons _ (.refl _))).subset hbefore)

theorem exists_of_mem_enforce {events : List LLMConvertibleEvent} {allEvents : List Event}
    {id : EventID} (hid : id ∈ enforce events allEvents) :
    ∃ before observation after, events = before ++ .observation observation :: after ∧
      observation.id = id ∧ observation.toolCallId ∈ observationToolCalls before := by
  obtain ⟨before, observation, after, hsplit, hobs, hseen | hbefore⟩ :=
    exists_of_mem_enforceFrom hid
  · simp at hseen
  · exact ⟨before, observation, after, hsplit, hobs, hbefore⟩

theorem enforce_eq_empty_iff {events : List LLMConvertibleEvent} {allEvents : List Event} :
    enforce events allEvents = ∅ ↔ (observationToolCalls events).Nodup := by
  constructor
  · intro hempty
    have hpair := pairwise_enforceFrom ∅ events
    change enforceFrom ∅ events = ∅ at hempty
    rw [hempty] at hpair
    rw [observationToolCalls, List.Nodup, List.pairwise_map, List.pairwise_filterMap]
    refine hpair.imp fun hnamed first hfirst second hsecond heq => ?_
    rw [asObservation_eq_some] at hfirst hsecond
    simpa using hnamed first second hfirst hsecond heq
  · intro hnodup
    by_contra hne
    obtain ⟨id, hid⟩ := Finset.nonempty_iff_ne_empty.mpr hne
    obtain ⟨before, observation, after, rfl, -, hbefore⟩ := exists_of_mem_enforce hid
    rw [observationToolCalls_append, List.nodup_append] at hnodup
    refine hnodup.2.2 _ hbefore observation.toolCallId ?_ rfl
    exact mem_observationToolCalls.mpr ⟨observation, List.mem_cons_self, rfl⟩

end ObservationUniqueness

/-! ## Batch atomicity -/

namespace BatchAtomicity

theorem mem_foldl_addToBatch {events : List Event} {llmResponseId id : EventID}
    (batches : EventID → Finset EventID) :
    id ∈ events.foldl addToBatch batches llmResponseId ↔
      id ∈ batches llmResponseId ∨ ∃ action, .convertible (.action action) ∈ events ∧
        action.llmResponseId = llmResponseId ∧ action.id = id := by
  induction events generalizing batches with
  | nil => simp
  | cons event rest ih =>
      rw [List.foldl_cons, ih]
      unfold addToBatch
      split
      next action =>
        by_cases heq : llmResponseId = action.llmResponseId
        · subst heq
          simp only [Function.update_self, Finset.mem_insert, List.mem_cons,
            Event.convertible.injEq, LLMConvertibleEvent.action.injEq]
          grind
        · simp only [Function.update_of_ne heq, List.mem_cons, Event.convertible.injEq,
            LLMConvertibleEvent.action.injEq]
          grind
      next hother =>
        simp only [List.mem_cons]
        grind

@[simp] theorem mem_buildBatches {events : List Event} {llmResponseId id : EventID} :
    id ∈ buildBatches events llmResponseId ↔
      ∃ action, .convertible (.action action) ∈ events ∧
        action.llmResponseId = llmResponseId ∧ action.id = id := by
  simp [buildBatches, mem_foldl_addToBatch]

theorem mem_enforce {events : List LLMConvertibleEvent} {allEvents : List Event}
    {id : EventID} :
    id ∈ enforce events allEvents ↔ ∃ action, .action action ∈ events ∧ action.id = id ∧
      buildBatches (events.map .convertible) action.llmResponseId ≠
        buildBatches allEvents action.llmResponseId := by
  simp only [enforce, Finset.mem_biUnion, List.mem_toFinset, List.mem_map, List.mem_filterMap,
    asAction_eq_some]
  constructor
  · rintro ⟨_, ⟨action, ⟨_, haction, rfl⟩, rfl⟩, hid⟩
    split at hid
    next hdiffers =>
      obtain ⟨other, hother, hresponse, rfl⟩ := mem_buildBatches.mp hid
      refine ⟨other, by simpa using hother, rfl, ?_⟩
      rwa [hresponse]
    next => simp at hid
  · rintro ⟨action, haction, rfl, hdiffers⟩
    refine ⟨_, ⟨action, ⟨_, haction, rfl⟩, rfl⟩, ?_⟩
    rw [if_pos hdiffers]
    exact mem_buildBatches.mpr ⟨action, by simpa using haction, rfl, rfl⟩

theorem enforce_eq_empty_iff {events : List LLMConvertibleEvent} {allEvents : List Event} :
    enforce events allEvents = ∅ ↔ ∀ action, .action action ∈ events →
      buildBatches (events.map .convertible) action.llmResponseId =
        buildBatches allEvents action.llmResponseId := by
  rw [Finset.eq_empty_iff_forall_notMem]
  simp only [mem_enforce]
  constructor
  · intro hnone action haction
    by_contra hdiffers
    exact hnone action.id ⟨action, haction, rfl, hdiffers⟩
  · rintro hall _ ⟨action, haction, -, hdiffers⟩
    exact hdiffers (hall action haction)

end BatchAtomicity

/-! ## Tool-call matching -/

namespace ToolCallMatching

theorem enforce_eq_empty_iff {events : List LLMConvertibleEvent} {allEvents : List Event} :
    enforce events allEvents = ∅ ↔
      ∀ id, id ∈ actionToolCalls events ↔ id ∈ observationToolCalls events := by
  have hempty : enforce events allEvents = ∅ ↔ ∀ event ∈ events, ¬Unpaired events event := by
    rw [Finset.eq_empty_iff_forall_notMem]
    simp only [enforce, mem_viewEventIds, List.mem_filter, decide_eq_true_eq]
    grind
  rw [hempty]
  constructor
  · intro hpaired id
    constructor
    · intro hid
      obtain ⟨action, haction, rfl⟩ := mem_actionToolCalls.mp hid
      exact not_not.mp (hpaired _ haction)
    · intro hid
      obtain ⟨observation, hobservation, rfl⟩ := mem_observationToolCalls.mp hid
      exact not_not.mp (hpaired _ hobservation)
  · intro hiff event hevent
    cases event with
    | action action =>
        exact not_not.mpr ((hiff _).mp (mem_actionToolCalls.mpr ⟨action, hevent, rfl⟩))
    | observation observation =>
        exact not_not.mpr
          ((hiff _).mpr (mem_observationToolCalls.mpr ⟨observation, hevent, rfl⟩))
    | _ => exact id

/-- The pending tool calls after a whole list; `none` once a `KeyError` occurs. -/
def pendingAfter (pending : Finset ToolCallID) (events : List LLMConvertibleEvent) :
    Option (Finset ToolCallID) :=
  events.foldlM pendingStep pending

@[simp] theorem pendingAfter_nil (pending : Finset ToolCallID) :
    pendingAfter pending [] = some pending := rfl

theorem pendingAfter_cons (pending : Finset ToolCallID) (event : LLMConvertibleEvent)
    (events : List LLMConvertibleEvent) :
    pendingAfter pending (event :: events) =
      (pendingStep pending event).bind (pendingAfter · events) := by
  simp [pendingAfter, List.foldlM_cons, Option.bind_eq_bind]

/-- The scan raises exactly when the fold does, and removes the positions at
which some call is pending. -/
theorem openFrom_spec (index : Nat) (pending : Finset ToolCallID)
    (events : List LLMConvertibleEvent) :
    match pendingAfter pending events with
    | none => openFrom index pending events = none
    | some _ => ∃ removed, openFrom index pending events = some removed ∧
        ∀ position, position ∈ removed ↔ ∃ offset < events.length,
          position = index + offset + 1 ∧
          pendingAfter pending (events.take (offset + 1)) ≠ some ∅ := by
  induction events generalizing index pending with
  | nil => exact ⟨∅, rfl, by simp⟩
  | cons event rest ih =>
      rw [pendingAfter_cons]
      cases hstep : pendingStep pending event with
      | none => simp [openFrom, hstep]
      | some next =>
          have hrest := ih (index + 1) next
          simp only [Option.bind_some]
          split
          next hnone =>
            rw [hnone] at hrest
            simp [openFrom, hstep, hrest]
          next final hfinal =>
            rw [hfinal] at hrest
            obtain ⟨removed, hremoved, hmem⟩ := hrest
            refine ⟨if next ≠ ∅ then insert (index + 1) removed else removed,
              by simp [openFrom, hstep, hremoved], ?_⟩
            intro position
            have hsplit : (∃ offset < (event :: rest).length, position = index + offset + 1 ∧
                pendingAfter pending ((event :: rest).take (offset + 1)) ≠ some ∅) ↔
                (position = index + 1 ∧ next ≠ ∅) ∨ position ∈ removed := by
              rw [hmem]
              simp only [List.take_succ_cons, pendingAfter_cons, hstep, Option.bind_some]
              constructor
              · rintro ⟨offset, hlt, rfl, hpending⟩
                cases offset with
                | zero => exact .inl ⟨rfl, by simpa using hpending⟩
                | succ offset =>
                    exact .inr ⟨offset, by simpa using hlt, by omega, hpending⟩
              · rintro (⟨rfl, hne⟩ | ⟨offset, hlt, rfl, hpending⟩)
                · exact ⟨0, by simp, rfl, by simpa using hne⟩
                · exact ⟨offset + 1, by simpa using hlt, by omega, hpending⟩
            rw [hsplit]
            split
            next hne => simp [hne]
            next heq => simp [not_not.mp heq]

theorem manipulationIndices_eq_some {events : List LLMConvertibleEvent}
    {indices : ManipulationIndices} (hindices : manipulationIndices events = some indices) :
    ∀ index, index ∈ indices ↔ index ≤ events.length ∧
      pendingAfter ∅ (events.take index) = some ∅ := by
  have hspec := openFrom_spec 0 ∅ events
  unfold manipulationIndices at hindices
  split at hspec
  next => simp [hspec] at hindices
  next =>
    obtain ⟨removed, hremoved, hmem⟩ := hspec
    simp only [hremoved, Option.bind_eq_bind, Option.bind_some, Option.pure_def,
      Option.some.injEq] at hindices
    subst hindices
    intro index
    simp only [Finset.mem_sdiff, ManipulationIndices.mem_complete, hmem, zero_add, not_exists,
      not_and, not_not]
    constructor
    · rintro ⟨hle, hclosed⟩
      refine ⟨hle, ?_⟩
      cases index with
      | zero => rfl
      | succ index => exact hclosed index (by omega) rfl
    · rintro ⟨hle, hclosed⟩
      refine ⟨hle, ?_⟩
      rintro offset - rfl
      exact hclosed

theorem exists_manipulationIndices {events : List LLMConvertibleEvent}
    {final : Finset ToolCallID} (hfinal : pendingAfter ∅ events = some final) :
    ∃ indices, manipulationIndices events = some indices := by
  have hspec := openFrom_spec 0 ∅ events
  rw [hfinal] at hspec
  obtain ⟨removed, hremoved, -⟩ := hspec
  exact ⟨complete events \ removed, by simp [manipulationIndices, hremoved]⟩

end ToolCallMatching

end ShuttleFlow
