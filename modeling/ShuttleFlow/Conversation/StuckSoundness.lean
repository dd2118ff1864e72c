import ShuttleFlow.Conversation.StuckPatterns

/-! # Whether what is reported as stuck repeats itself

Each rule looks at the last actions and the last observations on their own. What it finds there is
also what comes last after the user message.
-/

namespace ShuttleFlow

namespace StuckDetector

variable {detector : StuckDetector} {since window : List Event}

/-! ## Patterns -/

def isAgentMessage : Event → Bool
  | .convertible (.message message) => message.source = .agent
  | _ => false

/-- Observations of tools, errors among them. -/
def isToolObservation (event : Event) : Bool :=
  isObservation event && !isRejection event

/-- The last two actions are equal, and the last two observations are equal or errors. -/
def RepeatsLast (detector : StuckDetector) (since : List Event) : Prop :=
  ∃ action earlier actions observation before observations,
    since.reverse.filter isAction = action :: earlier :: actions ∧
    since.reverse.filter isObservation = observation :: before :: observations ∧
    detector.eventEq action earlier = true ∧
    (detector.eventEq observation before = true ∨
      (isAgentError observation = true ∧ isAgentError before = true))

/-- Messages of the agent come last, with no action or observation between them. -/
def EndsInMonologue (detector : StuckDetector) (since : List Event) : Prop :=
  detector.thresholds.monologue ≤
    (since.reverse.takeWhile fun event => !isAction event && !isObservation event).countP
      isAgentMessage

/-- So many items come first, and each equals the one after the next. -/
def Periodic (detector : StuckDetector) (count : Nat) (items : List Event) : Prop :=
  count ≤ items.length ∧ ∀ place first second, place + 2 < count → items[place]? = some first →
    items[place + 2]? = some second → detector.eventEq first second = true

/-- The last actions and observations have period two, for two periods at least. -/
def AlternatesLast (detector : StuckDetector) (since : List Event) : Prop :=
  4 ≤ detector.thresholds.alternatingPattern ∧
    detector.Periodic detector.thresholds.alternatingPattern (since.reverse.filter isAction) ∧
    detector.Periodic detector.thresholds.alternatingPattern
      (since.reverse.filter isToolObservation)

/-- No two events of a kind are equal. -/
def AllDiffer (detector : StuckDetector) (test : Event → Bool) (since : List Event) : Prop :=
  (since.filter test).Pairwise fun first second =>
    detector.eventEq first second = false ∧ detector.eventEq second first = false

/-! ## The rules -/

theorem exists_two {items : List Event} {most count : Nat} (hcount : 2 ≤ count)
    (hlength : count ≤ (items.take most).length) :
    ∃ first second rest more, items = first :: second :: rest ∧
      (items.take most).take count = first :: second :: more := by
  rw [List.length_take] at hlength
  match items, hlength with
  | [], hlength => exact absurd hlength (by simp; omega)
  | [first], hlength => exact absurd hlength (by simp; omega)
  | first :: second :: rest, hlength =>
      obtain ⟨more, rfl⟩ : ∃ more, most = more + 2 := ⟨most - 2, by omega⟩
      obtain ⟨shorter, rfl⟩ : ∃ shorter, count = shorter + 2 := ⟨count - 2, by omega⟩
      exact ⟨first, second, rest, (rest.take more).take shorter, rfl, rfl⟩

theorem eventEq_of_allEqual {first second : Event} {rest : List Event}
    (hequal : detector.allEqual (first :: second :: rest) = true) :
    detector.eventEq first second = true := by
  apply List.all_eq_true.mp hequal
  exact .tail _ List.mem_cons_self

/-- The last two of the events that are looked at are the last two of all. -/
theorem exists_two_of_suffix (hsuffix : window <:+ since) {test : Event → Bool}
    {first second : Event} {rest : List Event}
    (hlast : window.reverse.filter test = first :: second :: rest) :
    ∃ more, since.reverse.filter test = first :: second :: more := by
  have hbegins := (List.reverse_prefix.mpr hsuffix).filter test
  rw [hlast] at hbegins
  obtain ⟨more, hmore⟩ := hbegins
  exact ⟨rest ++ more, hmore.symm⟩

theorem repeatsLast_of_actionObservation (hsuffix : window <:+ since)
    (hthreshold : 2 ≤ detector.thresholds.actionObservation) {most : Nat}
    (hrule : detector.isStuckRepeatingActionObservation
      ((window.reverse.filter isAction).take most)
      ((window.reverse.filter isObservation).take most) = true) :
    detector.RepeatsLast since := by
  simp only [isStuckRepeatingActionObservation, Bool.and_eq_true, decide_eq_true_eq] at hrule
  obtain ⟨⟨⟨hactions, hobservations⟩, hequal⟩, hsame⟩ := hrule
  obtain ⟨action, earlier, actions, more, hlast, htake⟩ := exists_two hthreshold hactions
  obtain ⟨observation, before, observations, others, hlastObservations, htakeObservations⟩ :=
    exists_two hthreshold hobservations
  rw [htake] at hequal
  rw [htakeObservations] at hsame
  obtain ⟨allActions, hall⟩ := exists_two_of_suffix hsuffix hlast
  obtain ⟨allObservations, hallObservations⟩ := exists_two_of_suffix hsuffix hlastObservations
  exact ⟨_, _, _, _, _, _, hall, hallObservations, eventEq_of_allEqual hequal,
    .inl (eventEq_of_allEqual hsame)⟩

theorem repeatsLast_of_actionError (hsuffix : window <:+ since)
    (hthreshold : 2 ≤ detector.thresholds.actionError) {most : Nat}
    (hrule : detector.isStuckRepeatingActionError
      ((window.reverse.filter isAction).take most)
      ((window.reverse.filter isObservation).take most) = true) :
    detector.RepeatsLast since := by
  simp only [isStuckRepeatingActionError, Bool.and_eq_true, decide_eq_true_eq] at hrule
  obtain ⟨⟨⟨hactions, hobservations⟩, hequal⟩, herrors⟩ := hrule
  obtain ⟨action, earlier, actions, more, hlast, htake⟩ := exists_two hthreshold hactions
  obtain ⟨observation, before, observations, others, hlastObservations, htakeObservations⟩ :=
    exists_two hthreshold hobservations
  rw [htake] at hequal
  rw [htakeObservations] at herrors
  have hboth := List.all_eq_true.mp herrors
  obtain ⟨allActions, hall⟩ := exists_two_of_suffix hsuffix hlast
  obtain ⟨allObservations, hallObservations⟩ := exists_two_of_suffix hsuffix hlastObservations
  exact ⟨_, _, _, _, _, _, hall, hallObservations, eventEq_of_allEqual hequal,
    .inr ⟨hboth _ List.mem_cons_self, hboth _ (.tail _ List.mem_cons_self)⟩⟩

/-- The messages that are counted come before any action or observation. -/
theorem agentMessages_le (events : List Event) :
    agentMessages events ≤
      (events.takeWhile fun event => !isAction event && !isObservation event).countP
        isAgentMessage := by
  induction events with
  | nil => exact Nat.le_refl _
  | cons event rest ih =>
      cases event with
      | convertible event =>
          cases event with
          | message message =>
              have hstep : ((.convertible (.message message) :: rest).takeWhile
                  fun event => !isAction event && !isObservation event) =
                  .convertible (.message message) :: rest.takeWhile
                    fun event => !isAction event && !isObservation event := rfl
              rw [hstep, List.countP_cons]
              unfold agentMessages
              cases hsource : message.source with
              | agent =>
                  have hagent : isAgentMessage (.convertible (.message message)) = true :=
                    decide_eq_true hsource
                  rw [if_pos hagent]
                  exact Nat.succ_le_succ ih
              | user => exact Nat.zero_le _
              | _ => exact ih.trans (Nat.le_add_right _ _)
          | condensationSummary summary =>
              have hstep : ((.convertible (.condensationSummary summary) :: rest).takeWhile
                  fun event => !isAction event && !isObservation event) =
                  .convertible (.condensationSummary summary) :: rest.takeWhile
                    fun event => !isAction event && !isObservation event := rfl
              rw [hstep, List.countP_cons]
              exact ih.trans (Nat.le_add_right _ _)
          | _ => exact Nat.zero_le _
      | _ => exact Nat.zero_le _

theorem endsInMonologue_of_rule (hsuffix : window <:+ since)
    (hrule : detector.isStuckMonologue window = true) : detector.EndsInMonologue since := by
  simp only [isStuckMonologue, Bool.and_eq_true, decide_eq_true_eq] at hrule
  have hbegins := takeWhile_prefix_of_prefix (List.reverse_prefix.mpr hsuffix)
    (p := fun event => !isAction event && !isObservation event)
  exact hrule.2.trans ((agentMessages_le _).trans (hbegins.sublist.countP_le))

theorem alternates_spec {items : List Event} (halternates : detector.alternates items = true)
    {place : Nat} {first second : Event} (hfirst : items[place]? = some first)
    (hsecond : items[place + 2]? = some second) : detector.eventEq first second = true := by
  induction items generalizing place with
  | nil => cases hfirst
  | cons head rest ih =>
      match rest, place with
      | [], _ => cases hsecond
      | [_], _ => cases hsecond
      | next :: third :: rest, 0 =>
          simp only [alternates, Bool.and_eq_true] at halternates
          cases hfirst
          cases hsecond
          exact halternates.1
      | next :: third :: rest, place + 1 =>
          simp only [alternates, Bool.and_eq_true] at halternates
          exact ih halternates.2 hfirst hsecond

theorem periodic_of_take (hsuffix : window <:+ since) {test : Event → Bool} {count : Nat}
    (hlength : ((window.reverse.filter test).take count).length = count)
    (halternates : detector.alternates ((window.reverse.filter test).take count) = true) :
    detector.Periodic count (since.reverse.filter test) := by
  have hbegins := (List.reverse_prefix.mpr hsuffix).filter test
  have htaken := (List.take_prefix count _).trans hbegins
  refine ⟨hlength.symm.le.trans htaken.length_le,
    fun place first second hplace hfirst hsecond => ?_⟩
  obtain ⟨more, hmore⟩ := htaken
  rw [← hmore, List.getElem?_append_left (by omega)] at hfirst hsecond
  exact alternates_spec halternates hfirst hsecond

theorem alternatesLast_of_rule (hsuffix : window <:+ since)
    (hthreshold : 4 ≤ detector.thresholds.alternatingPattern)
    (hrule : detector.isStuckAlternatingActionObservation window = true) :
    detector.AlternatesLast since := by
  simp only [isStuckAlternatingActionObservation, Bool.and_eq_true, decide_eq_true_eq] at hrule
  obtain ⟨⟨⟨hactions, hobservations⟩, hequal⟩, hsame⟩ := hrule
  exact ⟨hthreshold, periodic_of_take hsuffix hactions hequal,
    periodic_of_take hsuffix hobservations hsame⟩

/-- What has the period is not all different. -/
theorem AllDiffer.not_periodic {test : Event → Bool} (hdiffer : detector.AllDiffer test since)
    {count : Nat} (hcount : 4 ≤ count) :
    ¬detector.Periodic count (since.reverse.filter test) := by
  rintro ⟨hlength, hperiodic⟩
  have hfirst : 0 < (since.reverse.filter test).length := by omega
  have hthird : 2 < (since.reverse.filter test).length := by omega
  have hequal := hperiodic 0 _ _ (by omega) (List.getElem?_eq_getElem hfirst)
    (List.getElem?_eq_getElem hthird)
  unfold AllDiffer at hdiffer
  rw [← List.pairwise_reverse, ← List.filter_reverse] at hdiffer
  have hdifferent := (List.pairwise_iff_getElem.mp hdiffer 0 2 hfirst hthird (by omega)).2
  rw [hequal] at hdifferent
  cases hdifferent

theorem AllDiffer.not_repeatsLast (hdiffer : detector.AllDiffer isAction since) :
    ¬detector.RepeatsLast since := by
  rintro ⟨action, earlier, actions, -, -, -, hlast, -, hequal, -⟩
  unfold AllDiffer at hdiffer
  rw [← List.pairwise_reverse, ← List.filter_reverse, hlast] at hdiffer
  have hdifferent := ((List.pairwise_cons.mp hdiffer).1 earlier List.mem_cons_self).2
  rw [hequal] at hdifferent
  cases hdifferent

/-- What is reported repeats itself, is a monologue or alternates. Without any repetition it is a
monologue. -/
theorem isStuck_sound (detector : StuckDetector) (log : List Event)
    (hactionObservation : 2 ≤ detector.thresholds.actionObservation)
    (hactionError : 2 ≤ detector.thresholds.actionError)
    (halternating : 4 ≤ detector.thresholds.alternatingPattern)
    (hstuck : detector.isStuck log = true) :
    (detector.RepeatsLast (afterUserMessage log) ∨
      detector.EndsInMonologue (afterUserMessage log) ∨
      detector.AlternatesLast (afterUserMessage log)) ∧
    (detector.AllDiffer isAction (afterUserMessage log) →
      detector.AllDiffer isObservation (afterUserMessage log) →
      detector.EndsInMonologue (afterUserMessage log)) := by
  have hsuffix := afterUserMessage_drop_suffix log (log.length - maxEventsToScan)
  have hcases : detector.RepeatsLast (afterUserMessage log) ∨
      detector.EndsInMonologue (afterUserMessage log) ∨
      detector.AlternatesLast (afterUserMessage log) := by
    unfold isStuck at hstuck
    dsimp only at hstuck
    split at hstuck
    next => cases hstuck
    next =>
      simp only [Bool.or_eq_true, Bool.and_eq_true, decide_eq_true_eq] at hstuck
      rcases hstuck with ((hrule | hrule) | hrule) | ⟨-, hrule⟩
      · exact .inl (repeatsLast_of_actionObservation hsuffix hactionObservation hrule)
      · exact .inl (repeatsLast_of_actionError hsuffix hactionError hrule)
      · exact .inr (.inl (endsInMonologue_of_rule hsuffix hrule))
      · exact .inr (.inr (alternatesLast_of_rule hsuffix halternating hrule))
  refine ⟨hcases, fun hactions _ => ?_⟩
  rcases hcases with hrepeats | hmonologue | halternates
  · exact absurd hrepeats hactions.not_repeatsLast
  · exact hmonologue
  · exact absurd halternates.2.1 (hactions.not_periodic halternating)

theorem isStuck_sound_rounds :
    sampleDetector.isStuck (roundNames.flatMap (sampleRound [])) = true ∧
    (sampleDetector.RepeatsLast (afterUserMessage (roundNames.flatMap (sampleRound []))) ∨
      sampleDetector.EndsInMonologue (afterUserMessage (roundNames.flatMap (sampleRound []))) ∨
      sampleDetector.AlternatesLast (afterUserMessage (roundNames.flatMap (sampleRound [])))) := by
  have hstuck : sampleDetector.isStuck (roundNames.flatMap (sampleRound [])) = true := by
    decide +kernel
  exact ⟨hstuck, (isStuck_sound sampleDetector _ (by decide) (by decide) (by decide) hstuck).1⟩

def agentMessage (id : EventID) : Event :=
  .convertible (.message { id, source := .agent, llmMessage := { role := .assistant } })

/-- Without actions there is no repetition, but a monologue is stuck. -/
theorem not_isStuck_sound_of_monologue : ¬ ∀ (detector : StuckDetector) (log : List Event),
    2 ≤ detector.thresholds.actionObservation → 2 ≤ detector.thresholds.actionError →
    2 ≤ detector.thresholds.monologue → 2 ≤ detector.thresholds.alternatingPattern →
    detector.AllDiffer isAction log → detector.AllDiffer isObservation log →
    detector.isStuck log = false := by
  intro hall
  have hquiet := hall sampleDetector [agentMessage "m1", agentMessage "m2", agentMessage "m3"]
    (by decide) (by decide) (by decide) (by decide) .nil .nil
  exact absurd hquiet (by decide +kernel)

end StuckDetector

end ShuttleFlow
