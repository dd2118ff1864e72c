import ShuttleFlow.View.Closed

/-! # Replaying a condensation

A condenser reads the enforced view and names a range of it. Replay applies the
resulting condensation to what was accumulated before anything is enforced. Both
agree when enforcement dropped nothing before the range, and the range splits
neither a batch nor a tool loop.
-/

namespace ShuttleFlow

open scoped List
open Segments (outside between)
open ToolLoopAtomicity (IsToolLoop)

/-! ## Logs in which observations follow their actions -/

/-- Each observation comes after its action, the only one with its tool call. -/
def ObservationsFollowActions (events : List Event) : Prop :=
  ∀ before observation after, events = before ++ .convertible (.observation observation) :: after →
    ∃ action, .convertible (.action action) ∈ before ∧
      action.toolCallId = observation.toolCallId ∧
      ∀ other, .convertible (.action other) ∈ events →
        other.toolCallId = observation.toolCallId → other = action

namespace ObservationsFollowActions

variable {log : List Event}

/-- The same at one position of the log. -/
def FollowsAt (log : List Event) (index : Nat) : Prop :=
  ∀ observation ∈ (log[index]?.bind Event.asConvertible).bind LLMConvertibleEvent.asObservation,
    ∃ action ∈ (convertibles (log.take index)).filterMap LLMConvertibleEvent.asAction,
      action.toolCallId = observation.toolCallId ∧
      ∀ other ∈ (convertibles log).filterMap LLMConvertibleEvent.asAction,
        other.toolCallId = observation.toolCallId → other = action

instance (log : List Event) (index : Nat) : Decidable (FollowsAt log index) := by
  unfold FollowsAt
  infer_instance

theorem mem_actions {events : List Event} {action : ActionEvent} :
    action ∈ (convertibles events).filterMap LLMConvertibleEvent.asAction ↔
      .convertible (.action action) ∈ events := by
  simp [mem_convertibles]

theorem iff_followsAt :
    ObservationsFollowActions log ↔ ∀ index < log.length, FollowsAt log index := by
  constructor
  · intro hfollows index hindex observation hobservation
    simp only [List.getElem?_eq_getElem hindex, Option.mem_def, Option.bind_eq_some_iff,
      Option.some.injEq, asConvertible_eq_some, asObservation_eq_some, ↓existsAndEq,
      true_and] at hobservation
    have hsplit : log = log.take index ++
        .convertible (.observation observation) :: log.drop (index + 1) := by
      rw [← hobservation.1, List.getElem_cons_drop, List.take_append_drop]
    obtain ⟨action, haction, hcall, hunique⟩ := hfollows _ _ _ hsplit
    exact ⟨action, mem_actions.mpr haction, hcall,
      fun other hother => hunique other (mem_actions.mp hother)⟩
  · rintro hfollows before observation after rfl
    obtain ⟨action, haction, hcall, hunique⟩ := hfollows before.length (by simp) observation
      (by simp [Event.asConvertible, LLMConvertibleEvent.asObservation])
    rw [List.take_left', mem_actions] at haction
    · exact ⟨action, haction, hcall, fun other hother => hunique other (mem_actions.mpr hother)⟩
    · rfl

instance (log : List Event) : Decidable (ObservationsFollowActions log) :=
  decidable_of_iff _ iff_followsAt.symm

theorem unique (hfollows : ObservationsFollowActions log) {observation : ObservationBaseEvent}
    (hobservation : .convertible (.observation observation) ∈ log) {first second : ActionEvent}
    (hfirst : .convertible (.action first) ∈ log) (hsecond : .convertible (.action second) ∈ log)
    (heq : first.toolCallId = observation.toolCallId)
    (heq' : second.toolCallId = observation.toolCallId) : first = second := by
  obtain ⟨before, after, hsplit⟩ := List.append_of_mem hobservation
  obtain ⟨action, -, -, hunique⟩ := hfollows before observation after hsplit
  exact (hunique first hfirst heq).trans (hunique second hsecond heq').symm

/-- No action comes after an observation of its tool call. -/
theorem pairwise (hfollows : ObservationsFollowActions log)
    (hids : (log.map Event.id).Nodup) :
    (convertibles log).Pairwise fun earlier later => ∀ observation action,
      earlier = .observation observation → later = .action action →
      action.toolCallId ≠ observation.toolCallId := by
  have hlog : log.Pairwise fun earlier later => ∀ observation action,
      earlier = .convertible (.observation observation) → later = .convertible (.action action) →
      action.toolCallId ≠ observation.toolCallId := by
    rw [List.pairwise_iff_forall_sublist]
    rintro earlier later hsub observation action rfl rfl heq
    obtain ⟨first, second, rfl, hfirst, hsecond⟩ := List.cons_sublist_iff.mp hsub
    have hlater := List.singleton_sublist.mp hsecond
    obtain ⟨before, after, rfl⟩ := List.append_of_mem hfirst
    obtain ⟨own, hown, -, hunique⟩ := hfollows before observation (after ++ second) (by simp)
    obtain rfl := hunique action (by simp [hlater]) heq
    have hnodup := List.Nodup.of_map _ hids
    rw [List.nodup_append] at hnodup
    exact hnodup.2.2 _ (List.mem_append_left _ hown) _ hlater rfl
  rw [convertibles, List.pairwise_filterMap]
  refine hlog.imp fun hpair first hfirst second hsecond observation action heq heq' => ?_
  rw [asConvertible_eq_some] at hfirst hsecond
  exact hpair observation action (heq ▸ hfirst) (heq' ▸ hsecond)

end ObservationsFollowActions

/-! ## Accumulation keeps the order of the log -/

namespace View

theorem logged_apply (condensation : Condensation) (events : List LLMConvertibleEvent) :
    logged (condensation.apply events) =
      (logged events).filter fun event => event.id ∉ condensation.forgottenEventIds := by
  unfold Condensation.apply
  split
  · rw [logged_append, logged_append, logged_summary, List.append_nil, ← logged_append,
      List.take_append_drop, logged, logged, List.filter_comm]
  · rw [logged, logged, List.filter_comm]

theorem logged_appendEvents_sublist (log : List Event) :
    logged (appendEvents log).events <+ convertibles log := by
  induction log using List.reverseRecOn with
  | nil => exact .slnil
  | append_singleton log last ih =>
      rw [appendEvents_concat, convertibles_append]
      cases last with
      | condensation condensation =>
          rw [appendEvent, logged_apply]
          exact (List.filter_sublist.trans ih).trans (List.sublist_append_left _ _)
      | convertible event =>
          rw [appendEvent, logged, List.filter_append]
          exact ih.append List.filter_sublist
      | condensationRequest _ => exact ih.trans (List.sublist_append_left _ _)
      | internal _ _ => exact ih.trans (List.sublist_append_left _ _)

/-! ## The view of a log in which observations follow their actions -/

variable {log : List Event}

theorem mem_log (hdistinct : DistinctIds log) {event : LLMConvertibleEvent}
    (hevent : event ∈ (fromEvents log).events) (hkind : event.isSummary = false) :
    .convertible event ∈ log :=
  (appendEvents_fromLog hdistinct).mem ((fromEvents_sublist hdistinct).subset hevent) hkind

theorem fromEvents_ids (hdistinct : DistinctIds log) :
    ((fromEvents log).events.map LLMConvertibleEvent.id).Nodup :=
  (appendEvents_ids hdistinct).sublist ((fromEvents_sublist hdistinct).map _)

theorem fromEvents_calls_nodup (hdistinct : DistinctIds log)
    (hfollows : ObservationsFollowActions log) :
    (actionToolCalls (fromEvents log).events).Nodup := by
  have hnodup := List.Nodup.of_map _ (fromEvents_ids hdistinct)
  rw [actionToolCalls, List.Nodup, List.pairwise_map, List.pairwise_filterMap]
  refine hnodup.imp_of_mem ?_
  intro earlier later hearlier hlater hne first hfirst second hsecond heq
  rw [asAction_eq_some] at hfirst hsecond
  subst hfirst hsecond
  obtain ⟨observation, hobservation, hcall⟩ := (fromEvents_closed hdistinct).answered _ hearlier
  refine hne (congrArg _ ?_)
  exact hfollows.unique (mem_log hdistinct hobservation rfl) (mem_log hdistinct hearlier rfl)
    (mem_log hdistinct hlater rfl) hcall.symm (hcall.trans heq).symm

theorem fromEvents_observed (hdistinct : DistinctIds log)
    (hfollows : ObservationsFollowActions log) {before after : List LLMConvertibleEvent}
    {observation : ObservationBaseEvent}
    (hsplit : (fromEvents log).events = before ++ .observation observation :: after) :
    observation.toolCallId ∈ actionToolCalls before := by
  have hobservation : .observation observation ∈ (fromEvents log).events := by simp [hsplit]
  obtain ⟨action, haction, hcall⟩ := (fromEvents_closed hdistinct).called _ hobservation
  have hpair := ((hfollows.pairwise hdistinct.nodup).sublist
    (logged_appendEvents_sublist log)).sublist ((fromEvents_sublist hdistinct).filter _)
  rw [List.pairwise_filter, hsplit, List.pairwise_append, List.pairwise_cons] at hpair
  rw [Set.mem_ofPred_eq, hsplit, List.mem_append, List.mem_cons] at haction
  rcases haction with hbefore | heq | hafter
  · exact mem_actionToolCalls.mpr ⟨action, hbefore, hcall⟩
  · cases heq
  · exact absurd hcall (hpair.2.1.1 _ hafter rfl rfl observation action rfl rfl)

/-- Its manipulation indices exist, and no tool call is pending at any of them. -/
theorem fromEvents_manipulationIndices (hdistinct : DistinctIds log)
    (hfollows : ObservationsFollowActions log) :
    ∃ indices, (fromEvents log).manipulationIndices = some indices ∧
      ∀ index ∈ indices, index ≤ (fromEvents log).events.length ∧
        ToolCallMatching.pendingAfter ∅ ((fromEvents log).events.take index) = some ∅ := by
  obtain ⟨final, hfinal⟩ := ToolCallMatching.exists_pendingAfter
    (fromEvents_calls_nodup hdistinct hfollows) (fromEvents_observations_nodup hdistinct)
    fun _ _ _ hsplit => fromEvents_observed hdistinct hfollows hsplit
  obtain ⟨matching, hmatching⟩ := ToolCallMatching.exists_manipulationIndices hfinal
  obtain ⟨indices, hindices⟩ := exists_manipulationIndices hmatching
  refine ⟨indices, hindices, fun index hindex => ?_⟩
  obtain ⟨found, hfound, hmem⟩ := mem_manipulationIndices hindices
  obtain rfl : matching = found := Option.some.inj (hmatching.symm.trans hfound)
  exact (ToolCallMatching.manipulationIndices_eq_some hmatching index).mp
    ((hmem index).mp hindex).2.1

end View

/-! ## Condensing a range of a view -/

/-- A condensation as the condensers build it from the view: it forgets the
events of a range and puts a summary where the range was. -/
structure Condenses (condensation : Condensation) (summary : CondensationSummaryEvent)
    (events : List LLMConvertibleEvent) (first last : Nat) : Prop where
  forgotten : condensation.forgottenEventIds = viewEventIds (between events first last)
  summary : condensation.summaryEvent? = some summary
  offset : condensation.summaryOffset = some first

/-- The range has all actions of a response or none, and all events of a tool
loop or none. -/
structure Undivided (log : List Event) (events : List LLMConvertibleEvent) (first last : Nat) :
    Prop where
  batches : ∀ action other, .action action ∈ events → .action other ∈ events →
    action.llmResponseId = other.llmResponseId →
    .action action ∈ between events first last → .action other ∈ between events first last
  loops : ∀ loop, IsToolLoop log loop → ∀ event ∈ convertibles loop, ∀ other ∈ convertibles loop,
    event ∈ events → other ∈ events →
    event ∈ between events first last → other ∈ between events first last

/-- Replay puts the summary in the place of the range, and not between an
action and its observation. -/
structure Replays (log : List Event) (condensation : Condensation)
    (summary : CondensationSummaryEvent) (first last : Nat) : Prop where
  replaced : (View.fromEvents (log ++ [.condensation condensation])).events =
    replaceWithSummary (View.fromEvents log).events first last summary
  outsidePairs : ∀ before after,
    (View.fromEvents (log ++ [.condensation condensation])).events =
      before ++ .condensationSummary summary :: after →
    ∀ action observation, .action action ∈ before → .observation observation ∈ after →
      action.toolCallId ≠ observation.toolCallId

/-- What replay accumulated up to the range is what the view shows there, and
the range is undivided. -/
structure Replayable (log : List Event) (first last : Nat) : Prop where
  intact : (View.appendEvents log).events.take first = (View.fromEvents log).events.take first
  undivided : Undivided log (View.fromEvents log).events first last

/-! ## The log after a condensation -/

/-- An event that leaves tool loops has no influence on the loops before it. -/
theorem isToolLoop_append_leaves {log : List Event} {event : Event}
    (hrole : event.loopRole = .leaves) {loop : List Event} :
    IsToolLoop (log ++ [event]) loop ↔ IsToolLoop log loop := by
  constructor
  · rintro ⟨⟨before, after, hsplit, hafter⟩, start, body, rfl, hstart, hbody⟩
    refine ⟨?_, start, body, rfl, hstart, hbody⟩
    induction after using List.reverseRecOn with
    | nil =>
        rw [List.append_nil] at hsplit
        have hmem : event ∈ start :: body := by
          have hlast := congrArg List.getLast? hsplit
          rw [List.getLast?_concat, List.getLast?_append_of_ne_nil _ (by simp)] at hlast
          exact List.mem_of_getLast? hlast.symm
        rcases List.mem_cons.mp hmem with rfl | hmem
        · rw [hrole] at hstart
          cases hstart
        · have hstays := hbody event hmem
          rw [hrole] at hstays
          cases hstays
    | append_singleton after last _ =>
        rw [← List.append_assoc] at hsplit
        obtain ⟨rfl, -⟩ := List.append_inj' hsplit rfl
        refine ⟨before, after, rfl, fun other hother => hafter other ?_⟩
        cases after with
        | nil => cases hother
        | cons head after => exact hother
  · rintro ⟨⟨before, after, rfl, hafter⟩, hshape⟩
    refine ⟨⟨before, after ++ [event], by simp, fun other hother => ?_⟩, hshape⟩
    cases after with
    | nil =>
        obtain rfl : event = other := by simpa using hother
        simp [hrole]
    | cons head after => exact hafter other hother

theorem closed_append_condensation {log : List Event} {condensation : Condensation}
    {kept : Set LLMConvertibleEvent} :
    Closed (log ++ [.condensation condensation]) kept ↔ Closed log kept := by
  have hloops : ∀ loop, IsToolLoop (log ++ [.condensation condensation]) loop ↔
      IsToolLoop log loop := fun _ => isToolLoop_append_leaves rfl
  constructor
  · rintro ⟨hbatches, hanswered, hcalled, hwhole⟩
    refine ⟨fun action haction other hother => ?_, hanswered, hcalled, fun loop hloop => ?_⟩
    · exact hbatches action haction other (List.mem_append_left _ hother)
    · exact hwhole loop ((hloops loop).mpr hloop)
  · rintro ⟨hbatches, hanswered, hcalled, hwhole⟩
    refine ⟨fun action haction other hother => ?_, hanswered, hcalled, fun loop hloop => ?_⟩
    · exact hbatches action haction other (by simpa using hother)
    · exact hwhole loop ((hloops loop).mp hloop)

namespace View

/-- What a condensation of the range leaves of the accumulated events. -/
def remaining (log : List Event) (first last : Nat) : List LLMConvertibleEvent :=
  (appendEvents log).events.filter fun event =>
    event.id ∉ viewEventIds (between (fromEvents log).events first last)

variable {log : List Event} {condensation : Condensation} {summary : CondensationSummaryEvent}
  {first last : Nat}

theorem appendEvents_condensation
    (hcondenses : Condenses condensation summary (fromEvents log).events first last) :
    (appendEvents (log ++ [.condensation condensation])).events =
      (remaining log first last).take first ++
        .condensationSummary summary :: (remaining log first last).drop first := by
  rw [appendEvents_concat, appendEvent, Condensation.apply, hcondenses.forgotten,
    hcondenses.summary, hcondenses.offset]
  simp [remaining]

theorem id_mem_between_iff (hdistinct : DistinctIds log) {event : LLMConvertibleEvent}
    (hevent : event ∈ (appendEvents log).events) :
    event.id ∈ viewEventIds (between (fromEvents log).events first last) ↔
      event ∈ between (fromEvents log).events first last := by
  rw [mem_viewEventIds]
  constructor
  · rintro ⟨found, hfound, heq⟩
    have hmem := (fromEvents_sublist hdistinct).subset (Segments.mem_of_mem_between hfound)
    exact eq_of_id_eq (appendEvents_ids hdistinct) hmem hevent heq ▸ hfound
  · exact fun hmem => ⟨event, hmem, rfl⟩

theorem mem_remaining (hdistinct : DistinctIds log) {event : LLMConvertibleEvent} :
    event ∈ remaining log first last ↔ event ∈ (appendEvents log).events ∧
      event ∉ between (fromEvents log).events first last := by
  rw [remaining, List.mem_filter, decide_eq_true_eq]
  exact and_congr_right fun hevent => not_congr (id_mem_between_iff hdistinct hevent)

/-- The summary has not been accumulated before. -/
theorem summary_notMem (hdistinct : DistinctIds (log ++ [.condensation condensation]))
    (hcondenses : Condenses condensation summary (fromEvents log).events first last) :
    .condensationSummary summary ∉ (appendEvents log).events := by
  intro hmem
  rw [DistinctIds, List.flatMap_append, List.nodup_append] at hdistinct
  refine hdistinct.2.2 _ (id_mem_allIds hmem) summary.id ?_ rfl
  simp [Event.allIds, hcondenses.summary]

/-- What is left of the view is matched when no call is pending at either end. -/
theorem outside_matched (hdistinct : DistinctIds log)
    (hfollows : ObservationsFollowActions log)
    (hfirst : ToolCallMatching.pendingAfter ∅ ((fromEvents log).events.take first) = some ∅)
    (hlast : ToolCallMatching.pendingAfter ∅ ((fromEvents log).events.take last) = some ∅)
    (id : ToolCallID) :
    id ∈ actionToolCalls (outside (fromEvents log).events first last) ↔
      id ∈ observationToolCalls (outside (fromEvents log).events first last) := by
  have hview := (coherent_iff.mp (fromEvents_coherent hdistinct)).2.1
  have hcut := ToolCallMatching.enforce_replaceWithSummary
    (fromEvents_calls_nodup hdistinct hfollows) (fromEvents_observations_nodup hdistinct) hview
    hfirst hlast ⟨"", ""⟩
  simpa using ToolCallMatching.enforce_eq_empty_iff.mp hcut id

/-- What is left of the view is closed when the range is undivided. -/
theorem closed_outside_iff (hdistinct : DistinctIds log)
    (hfollows : ObservationsFollowActions log) (hle : first ≤ last)
    (hfirst : ToolCallMatching.pendingAfter ∅ ((fromEvents log).events.take first) = some ∅)
    (hlast : ToolCallMatching.pendingAfter ∅ ((fromEvents log).events.take last) = some ∅) :
    Closed log {event | event ∈ outside (fromEvents log).events first last} ↔
      Undivided log (fromEvents log).events first last := by
  have hnodup := List.Nodup.of_map _ (fromEvents_ids hdistinct)
  have hside := fun event (hevent : event ∈ (fromEvents log).events) =>
    Segments.mem_outside_iff hnodup hle hevent
  have hin : ∀ event ∈ outside (fromEvents log).events first last,
      event ∈ (fromEvents log).events := fun _ => Segments.mem_of_mem_outside
  have hview := fromEvents_closed hdistinct
  constructor
  · intro hclosed
    refine ⟨?_, ?_⟩
    · intro action other haction hother hsame hgone
      by_contra hkept
      have hout := hclosed.batches other ((hside _ hother).mpr hkept) action
        (mem_log hdistinct haction rfl) hsame
      exact (hside _ haction).mp hout hgone
    · intro loop hloop event hevent other hother hmem hmem' hgone
      by_contra hkept
      have hout := hclosed.loops loop hloop other hother ((hside _ hmem').mpr hkept) event hevent
      exact (hside _ hmem).mp hout hgone
  · rintro ⟨hbatches, hloops⟩
    have hmatched := outside_matched hdistinct hfollows hfirst hlast
    refine ⟨?_, ?_, ?_, ?_⟩
    · intro action haction other hother hsame
      have hmem := hview.batches action (hin _ haction) other hother hsame
      refine (hside _ hmem).mpr fun hgone => ?_
      exact (hside _ (hin _ haction)).mp haction
        (hbatches other action hmem (hin _ haction) hsame hgone)
    · exact fun action haction => mem_observationToolCalls.mp
        ((hmatched _).mp (mem_actionToolCalls.mpr ⟨action, haction, rfl⟩))
    · exact fun observation hobservation => mem_actionToolCalls.mp
        ((hmatched _).mpr (mem_observationToolCalls.mpr ⟨observation, hobservation, rfl⟩))
    · intro loop hloop event hevent hmem other hother
      have hmem' := hview.loops loop hloop event hevent (hin _ hmem) other hother
      refine (hside _ hmem').mpr fun hgone => ?_
      exact (hside _ (hin _ hmem)).mp hmem
        (hloops loop hloop other hother event hevent hmem' (hin _ hmem) hgone)

/-- An action goes with its observation when no call is pending at either end. -/
theorem action_mem_between (hdistinct : DistinctIds log)
    (hfollows : ObservationsFollowActions log) (hle : first ≤ last)
    (hfirst : ToolCallMatching.pendingAfter ∅ ((fromEvents log).events.take first) = some ∅)
    (hlast : ToolCallMatching.pendingAfter ∅ ((fromEvents log).events.take last) = some ∅)
    {action : ActionEvent} {observation : ObservationBaseEvent}
    (haction : .action action ∈ (fromEvents log).events)
    (hcall : action.toolCallId = observation.toolCallId)
    (hobservation : .observation observation ∈ between (fromEvents log).events first last) :
    .action action ∈ between (fromEvents log).events first last := by
  have hnodup := List.Nodup.of_map _ (fromEvents_ids hdistinct)
  have hmatched := outside_matched hdistinct hfollows hfirst hlast
  by_contra hkept
  have houtside := (Segments.mem_outside_iff hnodup hle haction).mpr hkept
  obtain ⟨other, hother, hcall'⟩ := mem_observationToolCalls.mp
    ((hmatched _).mp (mem_actionToolCalls.mpr ⟨action, houtside, rfl⟩))
  have hobservations := fromEvents_observations_nodup hdistinct
  rw [observationToolCalls, List.Nodup, List.pairwise_map, List.pairwise_filterMap] at hobservations
  have hmem := Segments.mem_of_mem_outside hother
  have hsymm : Std.Symm fun first second : LLMConvertibleEvent =>
      ∀ earlier ∈ first.asObservation, ∀ later ∈ second.asObservation,
        earlier.toolCallId ≠ later.toolCallId :=
    ⟨fun _ _ hne later hlater earlier hearlier => (hne earlier hearlier later hlater).symm⟩
  have hne : LLMConvertibleEvent.observation other ≠ .observation observation := by
    intro heq
    exact (Segments.mem_outside_iff hnodup hle hmem).mp hother (heq ▸ hobservation)
  exact hobservations.forall hmem (Segments.mem_of_mem_between hobservation) hne other rfl
    observation rfl (hcall'.trans hcall)

/-- Accumulated events that survive the condensation survive in their order. -/
theorem remaining_sublist_condensation
    (hcondenses : Condenses condensation summary (fromEvents log).events first last) :
    remaining log first last <+
      (appendEvents (log ++ [.condensation condensation])).events := by
  rw [appendEvents_condensation hcondenses]
  conv_lhs => rw [← List.take_append_drop first (remaining log first last)]
  exact (List.Sublist.refl _).append (List.sublist_cons_self _ _)

theorem mem_condensation
    (hcondenses : Condenses condensation summary (fromEvents log).events first last)
    {event : LLMConvertibleEvent} :
    event ∈ (appendEvents (log ++ [.condensation condensation])).events ↔
      event = .condensationSummary summary ∨ event ∈ remaining log first last := by
  rw [appendEvents_condensation hcondenses, List.mem_append, List.mem_cons]
  conv_rhs => rw [← List.take_append_drop first (remaining log first last), List.mem_append]
  tauto

/-- Replay shows nothing but what is left of the view, and the summary: a
duplicate of an observation in the range has lost its action. -/
theorem mem_outside_of_mem_condensed
    (hdistinct : DistinctIds (log ++ [.condensation condensation]))
    (hfollows : ObservationsFollowActions log) (hle : first ≤ last)
    (hfirst : ToolCallMatching.pendingAfter ∅ ((fromEvents log).events.take first) = some ∅)
    (hlast : ToolCallMatching.pendingAfter ∅ ((fromEvents log).events.take last) = some ∅)
    (hcondenses : Condenses condensation summary (fromEvents log).events first last)
    {event : LLMConvertibleEvent}
    (hevent : event ∈ (fromEvents (log ++ [.condensation condensation])).events)
    (hne : event ≠ .condensationSummary summary) :
    event ∈ outside (fromEvents log).events first last := by
  have hlog := hdistinct.sublist (List.sublist_append_left _ _)
  have hnew := fromEvents_sublist hdistinct
  have hremaining : ∀ other ∈ (fromEvents (log ++ [.condensation condensation])).events,
      other ≠ .condensationSummary summary → other ∈ remaining log first last :=
    fun other hother hother' => ((mem_condensation hcondenses).mp (hnew.subset hother)).resolve_left
      hother'
  have hclosed : Closed log
      ({event | event ∈ (fromEvents (log ++ [.condensation condensation])).events ∧
        event ≠ .condensationSummary summary} ∪ {event | event ∈ (fromEvents log).events}) := by
    refine Closed.union ?_ (fromEvents_closed hlog)
    refine (closed_append_condensation.mp (fromEvents_closed hdistinct)).congr
      fun other hkind => ⟨fun hother => ⟨hother, ?_⟩, fun hother => hother.1⟩
    rintro rfl
    cases hkind
  have hview : event ∈ (fromEvents log).events := by
    refine subset_fromEvents hlog hclosed ?_ (.inl ⟨hevent, hne⟩)
    rintro other (⟨hother, hother'⟩ | hother)
    · have hleft := (mem_remaining hlog).mp (hremaining other hother hother')
      refine (mem_dedup (appendEvents_ids hlog)).mpr ⟨hleft.1, ?_⟩
      rintro earlier later rfl hsub heq
      -- either the earlier observation is still there, or its action is gone
      have hearlier : .observation earlier ∈ (appendEvents log).events := hsub.subset (by simp)
      by_cases hgone : .observation earlier ∈ between (fromEvents log).events first last
      · obtain ⟨action, haction, hcall⟩ := (fromEvents_closed hlog).called _
          (Segments.mem_of_mem_between hgone)
        obtain ⟨other, hfound, hcall'⟩ := (fromEvents_closed hdistinct).called _ hother
        have hfound' := (mem_remaining hlog).mp (hremaining _ hfound (by simp))
        obtain rfl : other = action :=
          hfollows.unique ((appendEvents_fromLog hlog).mem hearlier rfl)
            ((appendEvents_fromLog hlog).mem hfound'.1 rfl) (mem_log hlog haction rfl)
            (hcall'.trans heq.symm) hcall
        exact hfound'.2 (action_mem_between hlog hfollows hle hfirst hlast haction hcall hgone)
      · have hstill : [.observation earlier, .observation later] <+ remaining log first last := by
          have hfilter := hsub.filter fun event =>
            event.id ∉ viewEventIds (between (fromEvents log).events first last)
          rwa [List.filter_eq_self.mpr] at hfilter
          intro member hmember
          rw [decide_eq_true_eq, id_mem_between_iff hlog (hsub.subset hmember)]
          simp only [List.mem_cons, List.not_mem_nil, or_false] at hmember
          rcases hmember with rfl | rfl
          · exact hgone
          · exact hleft.2
        have hkept := (fromEvents_isGreatestStable hdistinct).sublist.subset hother
        exact ((mem_dedup (appendEvents_ids hdistinct)).mp hkept).2 earlier later rfl
          (hstill.trans (remaining_sublist_condensation hcondenses)) heq
    · exact (fromEvents_isGreatestStable hlog).sublist.subset hother
  exact (Segments.mem_outside_iff (List.Nodup.of_map _ (fromEvents_ids hlog)) hle hview).mpr
    ((mem_remaining hlog).mp (hremaining event hevent hne)).2

theorem closed_replaceWithSummary_iff (events : List LLMConvertibleEvent) :
    Closed log {event | event ∈ replaceWithSummary events first last summary} ↔
      Closed log {event | event ∈ outside events first last} := by
  have hsame : ∀ event : LLMConvertibleEvent, event.isSummary = false →
      (event ∈ replaceWithSummary events first last summary ↔
        event ∈ outside events first last) := by
    intro event hkind
    rw [mem_replaceWithSummary, or_iff_right]
    rintro rfl
    cases hkind
  exact ⟨fun hclosed => hclosed.congr hsame,
    fun hclosed => hclosed.congr fun event hkind => (hsame event hkind).symm⟩

theorem take_remaining_of_intact (hdistinct : DistinctIds log) (hle : first ≤ last)
    (hintact : (appendEvents log).events.take first = (fromEvents log).events.take first) :
    remaining log first last = (fromEvents log).events.take first ++
      ((appendEvents log).events.drop first).filter fun event =>
        event.id ∉ viewEventIds (between (fromEvents log).events first last) := by
  have hids := List.Nodup.of_map _ (fromEvents_ids hdistinct)
  conv_lhs => rw [remaining, ← List.take_append_drop first (appendEvents log).events, hintact,
    List.filter_append]
  congr 1
  rw [List.filter_eq_self]
  intro event hevent
  have hview := List.mem_of_mem_take hevent
  rw [decide_eq_true_eq, id_mem_between_iff hdistinct ((fromEvents_sublist hdistinct).subset hview)]
  exact (Segments.mem_outside_iff hids hle hview).mp (List.mem_append_left _ hevent)

/-- The replacement is a sublist of what replay accumulates. -/
theorem replaceWithSummary_sublist (hdistinct : DistinctIds log) (hle : first ≤ last)
    (hlength : first ≤ (fromEvents log).events.length)
    (hcondenses : Condenses condensation summary (fromEvents log).events first last)
    (hintact : (appendEvents log).events.take first = (fromEvents log).events.take first) :
    replaceWithSummary (fromEvents log).events first last summary <+
      (appendEvents (log ++ [.condensation condensation])).events := by
  have hids := List.Nodup.of_map _ (fromEvents_ids hdistinct)
  have hpre : ((fromEvents log).events.take first).length = first := by
    rw [List.length_take, Nat.min_eq_left hlength]
  have hview : (fromEvents log).events.drop last <+ (appendEvents log).events.drop first := by
    have hsub := fromEvents_sublist hdistinct
    rw [← List.take_append_drop first (fromEvents log).events, ← hintact] at hsub
    conv at hsub => rhs; rw [← List.take_append_drop first (appendEvents log).events]
    exact (List.drop_sublist_drop_left _ hle).trans ((List.append_sublist_append_left _).mp hsub)
  rw [appendEvents_condensation hcondenses, take_remaining_of_intact hdistinct hle hintact,
    List.take_left' hpre, List.drop_left' hpre, replaceWithSummary, List.append_assoc]
  have hkeep : ((fromEvents log).events.drop last).filter (fun event =>
      event.id ∉ viewEventIds (between (fromEvents log).events first last)) =
      (fromEvents log).events.drop last := by
    rw [List.filter_eq_self]
    intro event hevent
    have hmem := List.mem_of_mem_drop hevent
    rw [decide_eq_true_eq,
      id_mem_between_iff hdistinct ((fromEvents_sublist hdistinct).subset hmem)]
    exact (Segments.mem_outside_iff hids hle hmem).mp (List.mem_append_right _ hevent)
  have hafter := hview.filter fun event =>
    event.id ∉ viewEventIds (between (fromEvents log).events first last)
  rw [hkeep] at hafter
  exact (List.Sublist.refl _).append (hafter.cons_cons _)

theorem logged_condensation_sublist (log : List Event) (condensation : Condensation) :
    logged (appendEvents (log ++ [.condensation condensation])).events <+
      (appendEvents log).events := by
  rw [appendEvents_concat, appendEvent, logged_apply]
  exact List.filter_sublist.trans List.filter_sublist

/-- Replay shows the replacement when the range is replayable. -/
theorem mem_condensed_of_mem_outside
    (hdistinct : DistinctIds (log ++ [.condensation condensation]))
    (hsub : replaceWithSummary (fromEvents log).events first last summary <+
      (appendEvents (log ++ [.condensation condensation])).events)
    (hclosed : Closed log {event | event ∈ outside (fromEvents log).events first last})
    {event : LLMConvertibleEvent}
    (hevent : event ∈ replaceWithSummary (fromEvents log).events first last summary) :
    event ∈ (fromEvents (log ++ [.condensation condensation])).events := by
  have hlog := hdistinct.sublist (List.sublist_append_left _ _)
  refine subset_fromEvents hdistinct (closed_append_condensation.mpr
    ((closed_replaceWithSummary_iff _).mpr hclosed)) ?_ hevent
  intro other hother
  refine (mem_dedup (appendEvents_ids hdistinct)).mpr ⟨hsub.subset hother, ?_⟩
  rintro earlier later rfl hpair heq
  have hview : .observation later ∈ (fromEvents log).events :=
    Segments.mem_of_mem_outside ((mem_replaceWithSummary.mp hother).resolve_left (by simp))
  have hkept := (fromEvents_isGreatestStable hlog).sublist.subset hview
  refine ((mem_dedup (appendEvents_ids hlog)).mp hkept).2 earlier later rfl ?_ heq
  exact (hpair.filter fun event : LLMConvertibleEvent => !event.isSummary).trans
    (logged_condensation_sublist log condensation)

/-- Replay can only have put the summary in place when nothing was dropped
before it. -/
theorem intact_of_replaced (hdistinct : DistinctIds (log ++ [.condensation condensation]))
    (hlength : first ≤ (fromEvents log).events.length)
    (hcondenses : Condenses condensation summary (fromEvents log).events first last)
    (hsub : replaceWithSummary (fromEvents log).events first last summary <+
      (appendEvents (log ++ [.condensation condensation])).events) :
    (appendEvents log).events.take first = (fromEvents log).events.take first := by
  have hlog := hdistinct.sublist (List.sublist_append_left _ _)
  have hfresh : .condensationSummary summary ∉ remaining log first last := fun hmem =>
    summary_notMem hdistinct hcondenses ((mem_remaining hlog).mp hmem).1
  rw [appendEvents_condensation hcondenses, replaceWithSummary, List.append_assoc] at hsub
  have hpre := Segments.sublist_before_marker (fun hmem => hfresh (List.mem_of_mem_take hmem))
    (fun hmem => hfresh (List.mem_of_mem_drop hmem)) hsub
  have htake := hpre.eq_of_length_le (by simp [Nat.min_eq_left hlength])
  -- the range lies after the first events of the view, hence of the accumulation
  obtain ⟨left, right, hsplit, hleft, hright⟩ := List.append_sublist_iff.mp
    ((List.take_append_drop first (fromEvents log).events).symm ▸ fromEvents_sublist hlog)
  have hlong : first ≤ left.length := by
    simpa [Nat.min_eq_left hlength] using hleft.length_le
  have hnodup := List.Nodup.of_map _ (appendEvents_ids hlog)
  have hkeep : left.filter (fun event =>
      event.id ∉ viewEventIds (between (fromEvents log).events first last)) = left := by
    rw [List.filter_eq_self]
    intro event hevent
    have hmem : event ∈ (appendEvents log).events := by simp [hsplit, hevent]
    rw [decide_eq_true_eq, id_mem_between_iff hlog hmem]
    intro hgone
    rw [hsplit, List.nodup_append] at hnodup
    have hrange : between (fromEvents log).events first last <+
        (fromEvents log).events.drop first := (List.take_sublist _ _).drop _
    exact hnodup.2.2 event hevent event (hright.subset (hrange.subset hgone)) rfl
  rw [htake, remaining, hsplit, List.filter_append, hkeep, List.take_append_of_le_length hlong,
    List.take_append_of_le_length hlong]

/-- Replay never separates an action from its observation by the summary it puts
in place of the range. -/
theorem outsidePairs_of_replaced
    (hdistinct : DistinctIds (log ++ [.condensation condensation]))
    (hfollows : ObservationsFollowActions log)
    (hfirst : ToolCallMatching.pendingAfter ∅ ((fromEvents log).events.take first) = some ∅)
    (hreplaced : (fromEvents (log ++ [.condensation condensation])).events =
      replaceWithSummary (fromEvents log).events first last summary)
    {before after : List LLMConvertibleEvent}
    (hsplit : (fromEvents (log ++ [.condensation condensation])).events =
      before ++ .condensationSummary summary :: after)
    {action : ActionEvent} {observation : ObservationBaseEvent}
    (haction : .action action ∈ before) (hobservation : .observation observation ∈ after) :
    action.toolCallId ≠ observation.toolCallId := by
  have hlog := hdistinct.sublist (List.sublist_append_left _ _)
  have hnodup := List.Nodup.of_map _ (fromEvents_ids hdistinct)
  have hobservations := fromEvents_observations_nodup hdistinct
  rw [hsplit, List.nodup_append, List.nodup_cons] at hnodup
  rw [hsplit, observationToolCalls_append, List.nodup_append] at hobservations
  rw [hreplaced, replaceWithSummary, List.append_assoc, List.singleton_append, eq_comm,
    List.append_cons_inj_of_notMem] at hsplit
  · obtain ⟨rfl, -, rfl⟩ := hsplit
    obtain ⟨hpending, -⟩ := ToolCallMatching.pendingAfter_eq_some hfirst
      ((fromEvents_calls_nodup hlog hfollows).sublist
        (actionToolCalls_sublist (List.take_sublist _ _))) (by simp)
    have hanswered := hpending action.toolCallId
    simp only [Finset.notMem_empty, false_iff, false_or, not_and, not_not] at hanswered
    refine hobservations.2.2 _ (hanswered (mem_actionToolCalls.mpr ⟨action, haction, rfl⟩)) _ ?_
    exact mem_observationToolCalls.mpr ⟨observation, .tail _ hobservation, rfl⟩
  · exact fun hmem => hnodup.2.2 _ hmem _ List.mem_cons_self rfl
  · exact hnodup.2.1.1

/-- Replaying a condensation of a range between two manipulation indices puts
the summary in the place of the range exactly when the range is replayable. -/
theorem replays_iff {log : List Event} (hdistinct : DistinctIds log)
    (hfollows : ObservationsFollowActions log) :
    ∃ indices, (fromEvents log).manipulationIndices = some indices ∧
      ∀ first ∈ indices, ∀ last ∈ indices, first ≤ last →
        ∀ condensation summary, DistinctIds (log ++ [.condensation condensation]) →
          Condenses condensation summary (fromEvents log).events first last →
          (Replays log condensation summary first last ↔ Replayable log first last) := by
  obtain ⟨indices, hindices, hclosed⟩ := fromEvents_manipulationIndices hdistinct hfollows
  refine ⟨indices, hindices, ?_⟩
  intro first hfirst last hlast hle condensation summary hfresh hcondenses
  obtain ⟨hlength, hfirst⟩ := hclosed first hfirst
  obtain ⟨-, hlast⟩ := hclosed last hlast
  have hundivided := closed_outside_iff hdistinct hfollows hle hfirst hlast
  constructor
  · rintro ⟨hreplaced, -⟩
    have hsub := hreplaced ▸ fromEvents_sublist hfresh
    refine ⟨intact_of_replaced hfresh hlength hcondenses hsub, hundivided.mp ?_⟩
    have hnew := closed_append_condensation.mp (fromEvents_closed hfresh)
    rw [hreplaced] at hnew
    exact (closed_replaceWithSummary_iff _).mp hnew
  · rintro ⟨hintact, hrange⟩
    have hsub := replaceWithSummary_sublist hdistinct hle hlength hcondenses hintact
    have hreplaced : (fromEvents (log ++ [.condensation condensation])).events =
        replaceWithSummary (fromEvents log).events first last summary := by
      refine Segments.eq_of_sublist_of_mem (List.Nodup.of_map _ (appendEvents_ids hfresh))
        (fromEvents_sublist hfresh) hsub fun event => ⟨fun hevent => ?_, fun hevent => ?_⟩
      · by_cases heq : event = .condensationSummary summary
        · exact mem_replaceWithSummary.mpr (.inl heq)
        · exact mem_replaceWithSummary.mpr (.inr (mem_outside_of_mem_condensed hfresh hfollows hle
            hfirst hlast hcondenses hevent heq))
      · exact mem_condensed_of_mem_outside hfresh hsub (hundivided.mpr hrange) hevent
    exact ⟨hreplaced, fun before after hsplit action observation haction hobservation =>
      outsidePairs_of_replaced hfresh hfollows hfirst hreplaced hsplit haction hobservation⟩

namespace Example

def call : LLMConvertibleEvent := .action (Sample.action "a1" "r1" "t1" (some .other) [])
def error : LLMConvertibleEvent := .observation (Sample.agentError "e1" "t1")
def late : LLMConvertibleEvent := .observation (Sample.observation "o1" "t1" "a1")
def next : LLMConvertibleEvent := .action (Sample.action "a2" "r2" "t2" (some .other) [])
def answer : LLMConvertibleEvent := .observation (Sample.observation "o2" "t2" "a2")

/-- The first call has a late second observation, which the view drops. -/
def duplicated : List Event :=
  [call, error, late, next, answer, Sample.message "m"].map .convertible

/-- Forget the message, the last event of the view. -/
def forget : Condensation :=
  { id := "c", forgottenEventIds := {"m"}, summary := some "summary", summaryOffset := some 4,
    llmResponseId := "r3" }

def forgotten : CondensationSummaryEvent := ⟨"c-summary", "summary"⟩

end Example

open Example in
/-- The accumulation has one event more before the range than the view, so that
the summary lands between the second call and its observation. -/
theorem not_replays_duplicated :
    DistinctIds duplicated ∧ ObservationsFollowActions duplicated ∧
      (∃ indices, (fromEvents duplicated).manipulationIndices = some indices ∧
        4 ∈ indices ∧ 5 ∈ indices) ∧
      DistinctIds (duplicated ++ [.condensation forget]) ∧
      Condenses forget forgotten (fromEvents duplicated).events 4 5 ∧
      (fromEvents (duplicated ++ [.condensation forget])).events =
        [call, error, next, .condensationSummary forgotten, answer] ∧
      ¬Replays duplicated forget forgotten 4 5 := by
  refine ⟨by decide, by decide, ?_, by decide, ?_, by decide, ?_⟩
  · exact ⟨{0, 2, 4, 5}, by decide, by decide, by decide⟩
  · exact ⟨by decide, by decide, rfl⟩
  · rintro ⟨hreplaced, -⟩
    revert hreplaced
    decide

open Example in
theorem replays_iff_duplicated :
    ∃ indices, (fromEvents duplicated).manipulationIndices = some indices ∧
      ∀ first ∈ indices, ∀ last ∈ indices, first ≤ last →
        ∀ condensation summary, DistinctIds (duplicated ++ [.condensation condensation]) →
          Condenses condensation summary (fromEvents duplicated).events first last →
          (Replays duplicated condensation summary first last ↔
            Replayable duplicated first last) :=
  replays_iff (by decide) (by decide)

end View

end ShuttleFlow
