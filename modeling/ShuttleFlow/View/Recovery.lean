import ShuttleFlow.View.Replay

/-! # Duplicate observations after a crash

Crash recovery may leave a tool call with a second observation. The view drops
later observations; the tool loops it is compared with still contain them.
-/

namespace ShuttleFlow

open scoped List
open ToolLoopAtomicity (IsToolLoop)

/-- An observation whose tool call has an earlier one. -/
def LaterDuplicate (events : List LLMConvertibleEvent) (event : LLMConvertibleEvent) : Prop :=
  ∃ earlier later, event = .observation later ∧
    [.observation earlier, .observation later] <+ events ∧
    earlier.toolCallId = later.toolCallId

open scoped Classical in
noncomputable def withoutLaterDuplicates (events : List LLMConvertibleEvent) :
    List LLMConvertibleEvent :=
  events.filter fun event => ¬LaterDuplicate events event

namespace View

variable {log : List Event}

theorem mem_dedup_iff {events : List LLMConvertibleEvent}
    (hids : (events.map LLMConvertibleEvent.id).Nodup) {event : LLMConvertibleEvent} :
    event ∈ dedup events ↔ event ∈ events ∧ ¬LaterDuplicate events event := by
  rw [mem_dedup hids, LaterDuplicate]
  refine and_congr_right fun _ => ⟨?_, ?_⟩
  · rintro hfirst ⟨earlier, later, heq, hsub, hcall⟩
    exact hfirst earlier later heq hsub hcall
  · intro hnone earlier later heq hsub hcall
    exact hnone ⟨earlier, later, heq, hsub, hcall⟩

theorem dedup_eq_withoutLaterDuplicates {events : List LLMConvertibleEvent}
    (hids : (events.map LLMConvertibleEvent.id).Nodup) :
    dedup events = withoutLaterDuplicates events := by
  refine Segments.eq_of_sublist_of_mem (List.Nodup.of_map _ hids) (dedup_sublist events)
    List.filter_sublist fun event => ?_
  simp [mem_dedup_iff hids, withoutLaterDuplicates]

/-- An observed tool call keeps its first observation. -/
theorem exists_mem_dedup {events : List LLMConvertibleEvent}
    (hids : (events.map LLMConvertibleEvent.id).Nodup) {id : ToolCallID}
    (hid : id ∈ observationToolCalls events) : id ∈ observationToolCalls (dedup events) := by
  obtain ⟨observation, hobservation, hcall⟩ := mem_observationToolCalls.mp hid
  let answers : LLMConvertibleEvent → Bool := fun event =>
    event.asObservation.any fun observation => observation.toolCallId = id
  obtain ⟨found, hfound⟩ : ∃ found, events.find? answers = some found := by
    rw [← Option.isSome_iff_exists, List.find?_isSome]
    exact ⟨_, hobservation, by simp [answers, LLMConvertibleEvent.asObservation, hcall]⟩
  obtain ⟨hanswers, before, after, rfl, hbefore⟩ := List.find?_eq_some_iff_append.mp hfound
  simp only [answers, Option.any_eq_true, asObservation_eq_some, decide_eq_true_eq] at hanswers
  obtain ⟨first, rfl, hfirst⟩ := hanswers
  refine mem_observationToolCalls.mpr ⟨first, (mem_dedup_iff hids).mpr ⟨by simp, ?_⟩, hfirst⟩
  rintro ⟨earlier, later, heq, hsub, hcall'⟩
  obtain rfl := LLMConvertibleEvent.observation.inj heq
  -- the earlier observation would already have been found
  have hpair := List.Nodup.of_map _ hids
  rw [List.nodup_append, List.nodup_cons] at hpair
  have hpre := Segments.sublist_before_marker
    (fun hmem => hpair.2.2 _ hmem _ List.mem_cons_self rfl) hpair.2.1.1
    (show [LLMConvertibleEvent.observation earlier] ++ .observation first :: [] <+ _ from hsub)
  have hmem := List.singleton_sublist.mp hpre
  have hnot := hbefore _ hmem
  simp [answers, LLMConvertibleEvent.asObservation, hcall', hfirst] at hnot

/-- Without a condensation, everything in the log is accumulated. -/
theorem appendEvents_eq_convertibles (hnone : ∀ condensation, .condensation condensation ∉ log) :
    (appendEvents log).events = convertibles log := by
  simpa [appendEvents] using foldl_appendEvent_events {} log hnone

/-- The events that are no later duplicates are closed when no tool loop
contains a later duplicate. -/
theorem closed_dedup_iff
    (hids : ((convertibles log).map LLMConvertibleEvent.id).Nodup)
    (hmatched : ToolCallMatching.enforce (convertibles log) log = ∅) :
    Closed log {event | event ∈ dedup (convertibles log)} ↔
      ∀ loop, IsToolLoop log loop → ∀ event ∈ convertibles loop,
        ¬LaterDuplicate (convertibles log) event := by
  have hmem : ∀ event, event ∈ dedup (convertibles log) ↔
      event ∈ convertibles log ∧ ¬LaterDuplicate (convertibles log) event :=
    fun _ => mem_dedup_iff hids
  have haction : ∀ action, .action action ∈ convertibles log →
      .action action ∈ dedup (convertibles log) := by
    refine fun action hevent => (hmem _).mpr ⟨hevent, ?_⟩
    rintro ⟨earlier, later, heq, -⟩
    cases heq
  rw [ToolCallMatching.enforce_eq_empty_iff] at hmatched
  constructor
  · intro hclosed loop hloop event hevent hduplicate
    obtain ⟨start, body, hshape, hstart, -⟩ := hloop.shape_convertibles
    have hfirst : start ∈ convertibles loop := by simp [hshape]
    have hin : start ∈ dedup (convertibles log) := by
      have hown := hloop.stretch.subset hfirst
      cases start with
      | action start => exact haction start hown
      | observation observation => cases hstart
      | systemPrompt event => cases hstart
      | message event => cases hstart
      | condensationSummary event => cases hstart
    exact ((hmem _).mp (hclosed.loops loop hloop start hfirst hin event hevent)).2 hduplicate
  · intro hnone
    refine ⟨?_, ?_, ?_, ?_⟩
    · exact fun _ _ other hother _ => haction other (mem_convertibles.mpr hother)
    · intro action hin
      have hobserved := (hmatched _).mp
        (mem_actionToolCalls.mpr ⟨action, ((hmem _).mp hin).1, rfl⟩)
      exact mem_observationToolCalls.mp (exists_mem_dedup hids hobserved)
    · intro observation hin
      obtain ⟨action, hevent, hcall⟩ := mem_actionToolCalls.mp <| (hmatched _).mpr
        (mem_observationToolCalls.mpr ⟨observation, ((hmem _).mp hin).1, rfl⟩)
      exact ⟨action, haction action hevent, hcall⟩
    · exact fun loop hloop _ _ _ other hother =>
        (hmem _).mpr ⟨hloop.stretch.subset hother, hnone loop hloop other hother⟩

/-- Where actions and observations are matched but for duplicates, the view of
the log has everything but the later duplicates, unless one of them is in a
tool loop of the log. -/
theorem fromEvents_eq_withoutLaterDuplicates_iff (hdistinct : DistinctIds log)
    (hnone : ∀ condensation, .condensation condensation ∉ log)
    (hcoherent : Coherent log (convertibles log)) :
    (fromEvents log).events = withoutLaterDuplicates (convertibles log) ↔
      ∀ loop, IsToolLoop log loop → ∀ event ∈ convertibles loop,
        ¬LaterDuplicate (convertibles log) event := by
  have hraw := appendEvents_eq_convertibles hnone
  have hids := hraw ▸ appendEvents_ids hdistinct
  have hmatched := (coherent_iff.mp hcoherent).2.1
  rw [← closed_dedup_iff hids hmatched, ← dedup_eq_withoutLaterDuplicates hids]
  constructor
  · intro hview
    rw [← hview]
    exact fromEvents_closed hdistinct
  · intro hclosed
    have hgreatest := fromEvents_isGreatestStable hdistinct
    rw [hraw] at hgreatest
    have hlog : FromLog log (dedup (convertibles log)) :=
      (hraw ▸ appendEvents_fromLog hdistinct).subset (dedup_sublist _).subset
    exact hgreatest.unique (.refl ((coherent_iff_closed hdistinct.nodup hlog).mpr hclosed))

namespace Example

def thoughtful : LLMConvertibleEvent :=
  .action (Sample.action "a2" "r2" "t2" (some .other) [Sample.thinkingBlock])

/-- The late observation of the first call falls into the tool loop of the
second one. -/
def recovered : List Event :=
  [call, error, Sample.message "m", thoughtful, answer, late].map .convertible

theorem recovered_coherent : Coherent recovered (convertibles recovered) :=
  coherent_iff.mpr ⟨by decide, by decide, by decide⟩

theorem recovered_no_condensation (condensation : Condensation) :
    .condensation condensation ∉ recovered := by
  simp [recovered]

end Example

open Example in
/-- With the duplicate, the second call and its observation are dropped too. -/
theorem fromEvents_recovered :
    DistinctIds recovered ∧ (∀ condensation, .condensation condensation ∉ recovered) ∧
      Coherent recovered (convertibles recovered) ∧
      (fromEvents recovered).events = [call, error, Sample.message "m"] ∧
      withoutLaterDuplicates (convertibles recovered) =
        [call, error, Sample.message "m", thoughtful, answer] ∧
      (fromEvents recovered).events ≠ withoutLaterDuplicates (convertibles recovered) := by
  have hids : ((convertibles recovered).map LLMConvertibleEvent.id).Nodup := by decide
  rw [← dedup_eq_withoutLaterDuplicates hids]
  exact ⟨by decide, recovered_no_condensation, recovered_coherent, by decide, by decide,
    by decide⟩

open Example in
theorem fromEvents_recovered_iff :
    (fromEvents recovered).events = withoutLaterDuplicates (convertibles recovered) ↔
      ∀ loop, IsToolLoop recovered loop → ∀ event ∈ convertibles loop,
        ¬LaterDuplicate (convertibles recovered) event :=
  fromEvents_eq_withoutLaterDuplicates_iff (by decide) recovered_no_condensation
    recovered_coherent

end View

end ShuttleFlow
