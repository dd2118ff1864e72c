import Mathlib.Data.Set.Basic
import Mathlib.Data.List.Pairwise
import ShuttleFlow.View.Cuts

/-! # What a view is, without the way it is computed

A set of events is closed when it has, with each action, its batch and its
observation, with each observation its action, and with each event its tool
loop. The view of a log is the greatest closed part of what was accumulated,
later duplicate observations aside.
-/

namespace ShuttleFlow

open scoped List
open ToolLoopAtomicity (IsToolLoop)

structure Closed (allEvents : List Event) (kept : Set LLMConvertibleEvent) : Prop where
  batches : ∀ action, .action action ∈ kept → ∀ other, .convertible (.action other) ∈ allEvents →
    other.llmResponseId = action.llmResponseId → .action other ∈ kept
  answered : ∀ action, .action action ∈ kept →
    ∃ observation, .observation observation ∈ kept ∧ observation.toolCallId = action.toolCallId
  called : ∀ observation, .observation observation ∈ kept →
    ∃ action, .action action ∈ kept ∧ action.toolCallId = observation.toolCallId
  loops : ∀ loop, IsToolLoop allEvents loop → ∀ event ∈ convertibles loop, event ∈ kept →
    ∀ other ∈ convertibles loop, other ∈ kept

namespace Closed

variable {allEvents : List Event} {kept others : Set LLMConvertibleEvent}

theorem union (hkept : Closed allEvents kept) (hothers : Closed allEvents others) :
    Closed allEvents (kept ∪ others) where
  batches := by
    rintro action (haction | haction) other hother hsame
    · exact .inl (hkept.batches action haction other hother hsame)
    · exact .inr (hothers.batches action haction other hother hsame)
  answered := by
    rintro action (haction | haction)
    · obtain ⟨observation, hobservation, heq⟩ := hkept.answered action haction
      exact ⟨observation, .inl hobservation, heq⟩
    · obtain ⟨observation, hobservation, heq⟩ := hothers.answered action haction
      exact ⟨observation, .inr hobservation, heq⟩
  called := by
    rintro observation (hobservation | hobservation)
    · obtain ⟨action, haction, heq⟩ := hkept.called observation hobservation
      exact ⟨action, .inl haction, heq⟩
    · obtain ⟨action, haction, heq⟩ := hothers.called observation hobservation
      exact ⟨action, .inr haction, heq⟩
  loops := by
    rintro loop hloop event hevent (hmem | hmem) other hother
    · exact .inl (hkept.loops loop hloop event hevent hmem other hother)
    · exact .inr (hothers.loops loop hloop event hevent hmem other hother)

/-- Summaries have no part in it. -/
theorem congr (hkept : Closed allEvents kept)
    (hsame : ∀ event : LLMConvertibleEvent, event.isSummary = false →
      (event ∈ kept ↔ event ∈ others)) : Closed allEvents others where
  batches action haction other hother heq :=
    (hsame _ rfl).mp (hkept.batches action ((hsame _ rfl).mpr haction) other hother heq)
  answered action haction := by
    obtain ⟨observation, hobservation, heq⟩ :=
      hkept.answered action ((hsame _ rfl).mpr haction)
    exact ⟨observation, (hsame _ rfl).mp hobservation, heq⟩
  called observation hobservation := by
    obtain ⟨action, haction, heq⟩ := hkept.called observation ((hsame _ rfl).mpr hobservation)
    exact ⟨action, (hsame _ rfl).mp haction, heq⟩
  loops loop hloop event hevent hmem other hother := by
    have hkind : ∀ member ∈ convertibles loop, member.isSummary = false := fun member hmember => by
      simpa using hloop.isSummary_eq_false hmember
    exact (hsame _ (hkind other hother)).mp (hkept.loops loop hloop event hevent
      ((hsame _ (hkind event hevent)).mpr hmem) other hother)

end Closed

/-! ## Closed lists -/

/-- The events are those of the log, or summaries it has no event for. -/
def FromLog (allEvents : List Event) (events : List LLMConvertibleEvent) : Prop :=
  ∀ event ∈ events, .convertible event ∈ allEvents ∨
    ∃ summary, event = .condensationSummary summary ∧ FreshSummary allEvents summary

theorem FromLog.mem {allEvents : List Event} {events : List LLMConvertibleEvent}
    (hlog : FromLog allEvents events) {event : LLMConvertibleEvent} (hevent : event ∈ events)
    (hkind : event.isSummary = false) : .convertible event ∈ allEvents := by
  rcases hlog event hevent with hmem | ⟨summary, rfl, -⟩
  · exact hmem
  · cases hkind

theorem FromLog.subset {allEvents : List Event} {fewer more : List LLMConvertibleEvent}
    (hlog : FromLog allEvents more) (hsub : fewer ⊆ more) : FromLog allEvents fewer :=
  fun event hevent => hlog event (hsub hevent)

variable {allEvents : List Event} {events : List LLMConvertibleEvent}

theorem batchAtomicity_iff (hids : (allEvents.map Event.id).Nodup)
    (hlog : FromLog allEvents events) :
    BatchAtomicity.enforce events allEvents = ∅ ↔
      ∀ action, .action action ∈ events → ∀ other, .convertible (.action other) ∈ allEvents →
        other.llmResponseId = action.llmResponseId → .action other ∈ events := by
  rw [BatchAtomicity.enforce_eq_empty_iff]
  constructor
  · intro hsame action haction other hother hresponse
    have hid : other.id ∈ BatchAtomicity.buildBatches allEvents action.llmResponseId :=
      BatchAtomicity.mem_buildBatches.mpr ⟨other, hother, hresponse, rfl⟩
    rw [← hsame action haction, BatchAtomicity.mem_buildBatches] at hid
    obtain ⟨found, hfound, -, heq⟩ := hid
    have hfound : .action found ∈ events := by simpa using hfound
    have hequal := List.inj_on_of_nodup_map hids (hlog.mem hfound rfl) hother heq
    simp only [Event.convertible.injEq, LLMConvertibleEvent.action.injEq] at hequal
    exact hequal ▸ hfound
  · intro hall action haction
    ext id
    simp only [BatchAtomicity.mem_buildBatches]
    constructor
    · rintro ⟨other, hother, hresponse, rfl⟩
      exact ⟨other, hlog.mem (by simpa using hother) rfl, hresponse, rfl⟩
    · rintro ⟨other, hother, hresponse, rfl⟩
      exact ⟨other, by simpa using hall action haction other hother hresponse, hresponse, rfl⟩

theorem toolLoopAtomicity_iff (hids : (allEvents.map Event.id).Nodup)
    (hlog : FromLog allEvents events) :
    ToolLoopAtomicity.enforce events allEvents = ∅ ↔
      ∀ loop, IsToolLoop allEvents loop → ∀ event ∈ convertibles loop, event ∈ events →
        ∀ other ∈ convertibles loop, other ∈ events := by
  -- an event of the list with the id of an event of a loop is that event
  have hfind : ∀ loop, IsToolLoop allEvents loop → ∀ event ∈ convertibles loop,
      event.id ∈ viewEventIds events → event ∈ events := by
    intro loop hloop event hevent hid
    obtain ⟨found, hfound, heq⟩ := mem_viewEventIds.mp hid
    have hmem := mem_convertibles.mp hevent
    rcases hlog found hfound with hown | ⟨summary, rfl, hfresh⟩
    · have hequal := List.inj_on_of_nodup_map hids hown (hloop.mem hmem) heq
      exact Event.convertible.inj hequal ▸ hfound
    · refine absurd ?_ (hloop.summary_notMem hfresh)
      exact mem_eventIds.mpr ⟨_, hmem, heq.symm⟩
  rw [ToolLoopAtomicity.enforce_eq_empty_iff hids]
  constructor
  · intro hwhole loop hloop event hevent hmem other hother
    have hsubset := hwhole _ (ToolLoopAtomicity.mem_toolLoops.mpr ⟨loop, hloop, rfl⟩) event.id
      (mem_eventIds.mpr ⟨_, mem_convertibles.mp hevent, rfl⟩)
      (mem_viewEventIds.mpr ⟨event, hmem, rfl⟩)
    exact hfind loop hloop other hother
      (hsubset (mem_eventIds.mpr ⟨_, mem_convertibles.mp hother, rfl⟩))
  · intro hall toolLoop htoolLoop id hid hview
    obtain ⟨loop, hloop, rfl⟩ := ToolLoopAtomicity.mem_toolLoops.mp htoolLoop
    have hmember : ∀ id ∈ eventIds loop, ∃ event ∈ convertibles loop, event.id = id := by
      intro id hid
      obtain ⟨event, hevent, rfl⟩ := mem_eventIds.mp hid
      rw [hloop.eq_map_convertibles] at hevent
      obtain ⟨found, hfound, rfl⟩ := List.mem_map.mp hevent
      exact ⟨found, hfound, rfl⟩
    obtain ⟨event, hevent, rfl⟩ := hmember id hid
    intro other hother
    obtain ⟨member, hmem, rfl⟩ := hmember other hother
    exact mem_viewEventIds.mpr
      ⟨member, hall loop hloop event hevent (hfind loop hloop event hevent hview) member hmem, rfl⟩

theorem coherent_iff_closed (hids : (allEvents.map Event.id).Nodup)
    (hlog : FromLog allEvents events) :
    View.Coherent allEvents events ↔ Closed allEvents {event | event ∈ events} := by
  rw [View.coherent_iff, batchAtomicity_iff hids hlog, toolLoopAtomicity_iff hids hlog,
    ToolCallMatching.enforce_eq_empty_iff]
  constructor
  · rintro ⟨hbatches, hmatched, hloops⟩
    refine ⟨hbatches, fun action haction => ?_, fun observation hobservation => ?_, hloops⟩
    · exact mem_observationToolCalls.mp
        ((hmatched _).mp (mem_actionToolCalls.mpr ⟨action, haction, rfl⟩))
    · exact mem_actionToolCalls.mp
        ((hmatched _).mpr (mem_observationToolCalls.mpr ⟨observation, hobservation, rfl⟩))
  · rintro ⟨hbatches, hanswered, hcalled, hloops⟩
    refine ⟨hbatches, fun id => ⟨fun hid => ?_, fun hid => ?_⟩, hloops⟩
    · obtain ⟨action, haction, rfl⟩ := mem_actionToolCalls.mp hid
      exact mem_observationToolCalls.mpr (hanswered action haction)
    · obtain ⟨observation, hobservation, rfl⟩ := mem_observationToolCalls.mp hid
      exact mem_actionToolCalls.mpr (hcalled observation hobservation)

/-! ## The view of a log -/

theorem DistinctIds.freshSummary {events : List Event} (hdistinct : DistinctIds events)
    {condensation : Condensation} {summary : CondensationSummaryEvent}
    (hmem : .condensation condensation ∈ events)
    (hsummary : condensation.summaryEvent? = some summary) : FreshSummary events summary := by
  intro event hevent heq
  obtain ⟨hown, hothers⟩ := List.nodup_flatMap.mp hdistinct
  have hsummaryId : summary.id ∈ Event.allIds (.condensation condensation) := by
    simp [Event.allIds, hsummary]
  by_cases hsame : event = .condensation condensation
  · subst hsame
    have hnodup := hown _ hmem
    simp only [Event.allIds, hsummary, Option.map_some, Option.toList_some, List.nodup_cons,
      List.mem_singleton] at hnodup
    exact absurd heq hnodup.1
  · have hsymm : Std.Symm (Function.onFun List.Disjoint Event.allIds) := ⟨fun _ _ => .symm⟩
    have hdisjoint := hothers.forall hevent hmem hsame
    exact absurd hsummaryId (hdisjoint (heq ▸ event.id_mem_allIds))

namespace View

/-- The first observation of each tool call is kept. -/
theorem mem_dedup {events : List LLMConvertibleEvent}
    (hids : (events.map LLMConvertibleEvent.id).Nodup) {event : LLMConvertibleEvent} :
    event ∈ dedup events ↔ event ∈ events ∧ ∀ earlier later, event = .observation later →
      [.observation earlier, .observation later] <+ events →
      earlier.toolCallId ≠ later.toolCallId := by
  rw [dedup, Pruning.mem_sweep]
  refine and_congr_right fun hevent => ⟨?_, ?_⟩
  · rintro hkept earlier later rfl hsub heq
    have hpair := ObservationUniqueness.pairwise_enforceFrom ∅ events
    rw [List.pairwise_iff_forall_sublist] at hpair
    exact hkept (hpair hsub earlier later rfl rfl heq)
  · intro hfirst hnamed
    obtain ⟨before, later, after, rfl, hid, hseen⟩ :=
      ObservationUniqueness.exists_of_mem_enforce hnamed
    obtain ⟨earlier, hearlier, heq⟩ := mem_observationToolCalls.mp hseen
    have hsame : event = .observation later := eq_of_id_eq hids hevent (by simp) hid.symm
    refine hfirst earlier later hsame ?_ heq
    exact (List.singleton_sublist.mpr hearlier).append
      (List.singleton_sublist.mpr List.mem_cons_self)

theorem appendEvents_fromLog {events : List Event} (hdistinct : DistinctIds events) :
    FromLog events (appendEvents events).events := by
  intro event hevent
  rcases mem_appendEvents hevent with hlog | ⟨condensation, summary, hmem, hsummary, rfl⟩
  · exact .inl hlog
  · exact .inr ⟨summary, rfl, hdistinct.freshSummary hmem hsummary⟩

theorem fromEvents_closed {events : List Event} (hdistinct : DistinctIds events) :
    Closed events {event | event ∈ (fromEvents events).events} :=
  (coherent_iff_closed hdistinct.nodup
    ((appendEvents_fromLog hdistinct).subset (fromEvents_sublist hdistinct).subset)).mp
    (fromEvents_coherent hdistinct)

/-- The view has the events of every closed part of the accumulation. -/
theorem subset_fromEvents {events : List Event} (hdistinct : DistinctIds events)
    {kept : Set LLMConvertibleEvent} (hclosed : Closed events kept)
    (hsub : ∀ event ∈ kept, event ∈ dedup (appendEvents events).events)
    {event : LLMConvertibleEvent} (hevent : event ∈ kept) :
    event ∈ (fromEvents events).events := by
  classical
  have hlist : {event | event ∈ (dedup (appendEvents events).events).filter (· ∈ kept)} =
      kept := by
    ext event
    simpa using hsub event
  have hgreatest := (fromEvents_isGreatestStable hdistinct).greatest
    ((dedup (appendEvents events).events).filter (· ∈ kept)) List.filter_sublist ?_
  · exact hgreatest.subset (by simpa using ⟨hsub event hevent, hevent⟩)
  · have hlog := (appendEvents_fromLog hdistinct).subset (dedup_sublist _).subset
    refine (coherent_iff_closed hdistinct.nodup (hlog.subset List.filter_sublist.subset)).mpr ?_
    rw [hlist]
    exact hclosed

/-- The events of the view are those of the closed parts of the accumulation. -/
theorem mem_fromEvents_iff_closed {events : List Event} (hdistinct : DistinctIds events)
    {event : LLMConvertibleEvent} :
    event ∈ (fromEvents events).events ↔ ∃ kept : Set LLMConvertibleEvent, event ∈ kept ∧
      (∀ other ∈ kept, other ∈ dedup (appendEvents events).events) ∧ Closed events kept := by
  constructor
  · intro hevent
    refine ⟨_, hevent, fun other hother => ?_, fromEvents_closed hdistinct⟩
    exact (fromEvents_isGreatestStable hdistinct).sublist.subset hother
  · rintro ⟨kept, hevent, hsub, hclosed⟩
    exact subset_fromEvents hdistinct hclosed hsub hevent

theorem mem_fromEvents_iff_closed_loop :
    ∃ kept : Set LLMConvertibleEvent, Sample.message "m" ∈ kept ∧
      (∀ other ∈ kept, other ∈ dedup (appendEvents Example.log).events) ∧
      Closed Example.log kept :=
  (mem_fromEvents_iff_closed (by decide)).mp (by decide)

end View

end ShuttleFlow
