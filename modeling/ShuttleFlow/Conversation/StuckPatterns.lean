import ShuttleFlow.Conversation.StuckDetector

/-! # What is reported as stuck

Repeated pairs of actions and observations are found when they are among the events that are looked
at. What is found is a repetition, a monologue or an alternation of what follows the last user
message.
-/

namespace ShuttleFlow

namespace StuckDetector

variable {detector : StuckDetector}

/-! ## The events that are looked at -/

theorem afterUserMessage_append {tail : List Event}
    (htail : ∀ event ∈ tail, isUserMessage event = false) (earlier : List Event) :
    afterUserMessage (earlier ++ tail) = afterUserMessage earlier ++ tail := by
  have hkept : ∀ event ∈ tail.reverse, (!isUserMessage event) = true := by
    intro event hmem
    rw [htail event (List.mem_reverse.mp hmem)]
    rfl
  unfold afterUserMessage
  rw [List.reverse_append, List.takeWhile_append_of_pos hkept, List.reverse_append,
    List.reverse_reverse]

theorem takeWhile_prefix_of_prefix {α : Type} {p : α → Bool} {first second : List α}
    (hbegins : first <+: second) : first.takeWhile p <+: second.takeWhile p := by
  induction first generalizing second with
  | nil => exact List.nil_prefix
  | cons head rest ih =>
      obtain ⟨more, rfl⟩ := hbegins
      rw [List.cons_append, List.takeWhile_cons, List.takeWhile_cons]
      split
      next => exact List.cons_prefix_cons.mpr ⟨rfl, ih (List.prefix_append _ _)⟩
      next => exact List.nil_prefix

/-- What is looked at comes last of what follows the user message. -/
theorem afterUserMessage_drop_suffix (log : List Event) (skipped : Nat) :
    afterUserMessage (log.drop skipped) <:+ afterUserMessage log := by
  unfold afterUserMessage
  rw [List.reverse_suffix]
  apply takeWhile_prefix_of_prefix
  rw [List.reverse_prefix]
  exact List.drop_suffix _ _

/-! ## Repeated pairs -/

/-- An event that the model does not see. -/
def isBookkeeping : Event → Bool
  | .convertible _ => false
  | _ => true

def actionOf (pair : ActionEvent × ObservationBaseEvent) : Event :=
  .convertible (.action pair.1)

def observationOf (pair : ActionEvent × ObservationBaseEvent) : Event :=
  .convertible (.observation pair.2)

/-- Pairs of an action and an observation, with nothing but bookkeeping between them. -/
def IsPairs (tail : List Event) (pairs : List (ActionEvent × ObservationBaseEvent)) : Prop :=
  tail.filter (fun event => !isBookkeeping event) =
    pairs.flatMap fun pair => [actionOf pair, observationOf pair]

theorem filter_isAction_pairs (pairs : List (ActionEvent × ObservationBaseEvent)) :
    (pairs.flatMap fun pair => [actionOf pair, observationOf pair]).filter isAction =
      pairs.map actionOf := by
  induction pairs with
  | nil => rfl
  | cons pair rest ih =>
      rw [List.flatMap_cons, List.filter_append, ih]
      rfl

theorem filter_isObservation_pairs (pairs : List (ActionEvent × ObservationBaseEvent)) :
    (pairs.flatMap fun pair => [actionOf pair, observationOf pair]).filter isObservation =
      pairs.map observationOf := by
  induction pairs with
  | nil => rfl
  | cons pair rest ih =>
      rw [List.flatMap_cons, List.filter_append, ih]
      rfl

theorem length_pairs (pairs : List (ActionEvent × ObservationBaseEvent)) :
    (pairs.flatMap fun pair => [actionOf pair, observationOf pair]).length = 2 * pairs.length := by
  induction pairs with
  | nil => rfl
  | cons pair rest ih =>
      rw [List.flatMap_cons, List.length_append, ih, List.length_cons, List.length_cons,
        List.length_cons, List.length_nil]
      omega

namespace IsPairs

variable {tail : List Event} {pairs : List (ActionEvent × ObservationBaseEvent)}

theorem isUserMessage_eq_false (hpairs : IsPairs tail pairs) :
    ∀ event ∈ tail, isUserMessage event = false := by
  intro event hmem
  cases hbookkeeping : isBookkeeping event with
  | true =>
      cases event with
      | convertible => cases hbookkeeping
      | _ => rfl
  | false =>
      have hseen : event ∈ tail.filter fun event => !isBookkeeping event :=
        List.mem_filter.mpr ⟨hmem, by rw [hbookkeeping]; rfl⟩
      rw [hpairs] at hseen
      obtain ⟨pair, -, hpair⟩ := List.mem_flatMap.mp hseen
      simp only [List.mem_cons, List.not_mem_nil, or_false] at hpair
      rcases hpair with rfl | rfl
      · rfl
      · rfl

/-- A kind of events that is not bookkeeping is found in the pairs. -/
theorem filter_eq (hpairs : IsPairs tail pairs) {test : Event → Bool}
    (htest : ∀ event, test event = true → isBookkeeping event = false) :
    tail.filter test =
      (pairs.flatMap fun pair => [actionOf pair, observationOf pair]).filter test := by
  have hfilter := congrArg (List.filter test) hpairs
  rw [List.filter_filter] at hfilter
  have hsame : tail.filter (fun event => test event && !isBookkeeping event) =
      tail.filter test := by
    apply List.filter_congr
    intro event _
    cases hevent : test event with
    | false => rfl
    | true =>
        rw [htest event hevent]
        rfl
  rw [hsame] at hfilter
  exact hfilter

theorem filter_isAction (hpairs : IsPairs tail pairs) :
    tail.filter isAction = pairs.map actionOf := by
  rw [hpairs.filter_eq fun event haction => by cases event <;> trivial, filter_isAction_pairs]

theorem filter_isObservation (hpairs : IsPairs tail pairs) :
    tail.filter isObservation = pairs.map observationOf := by
  rw [hpairs.filter_eq fun event haction => by cases event <;> trivial, filter_isObservation_pairs]

theorem length_le (hpairs : IsPairs tail pairs) : pairs.length ≤ tail.length := by
  have hseen := List.length_filter_le (fun event => !isBookkeeping event) tail
  rw [hpairs, length_pairs] at hseen
  omega

/-- The last events of a kind are those of the pairs. -/
theorem take_filter {test : Event → Bool}
    {item : ActionEvent × ObservationBaseEvent → Event}
    (htest : tail.filter test = pairs.map item) (earlier : List Event) {most : Nat}
    (hmost : pairs.length ≤ most) :
    (((earlier ++ tail).reverse.filter test).take most).take pairs.length =
      (pairs.map item).reverse := by
  have hlength : (pairs.map item).reverse.length = pairs.length := by
    rw [List.length_reverse, List.length_map]
  rw [List.take_take, Nat.min_eq_left hmost, List.reverse_append, List.filter_append,
    List.filter_reverse, htest, List.take_append_of_le_length hlength.ge, ← hlength,
    List.take_length]

end IsPairs

/-- Repetitions that are equal throughout. -/
theorem allEqual_of_forall {items : List Event}
    (hequal : ∀ first ∈ items, ∀ second ∈ items, detector.eventEq first second = true) :
    detector.allEqual items = true := by
  cases items with
  | nil => rfl
  | cons first rest =>
      apply List.all_eq_true.mpr
      exact fun other hmem => hequal first List.mem_cons_self other hmem

/-- The pairs at the end of a log repeat an action, with equal observations or with errors, as often
as a threshold says. -/
def Repeats (detector : StuckDetector) (pairs : List (ActionEvent × ObservationBaseEvent)) : Prop :=
  (∀ first ∈ pairs, ∀ second ∈ pairs,
    detector.eventEq (actionOf first) (actionOf second) = true) ∧
  ((pairs.length = detector.thresholds.actionObservation ∧
      ∀ first ∈ pairs, ∀ second ∈ pairs,
        detector.eventEq (observationOf first) (observationOf second) = true) ∨
    (pairs.length = detector.thresholds.actionError ∧
      ∀ pair ∈ pairs, isAgentError (observationOf pair) = true))

theorem le_length_of_take_eq {items taken : List Event} {count : Nat}
    (htake : items.take count = taken) (hlength : taken.length = count) : count ≤ items.length := by
  have htaken := congrArg List.length htake
  rw [List.length_take, hlength] at htaken
  omega

theorem isStuckRepeatingActionObservation_of_take {lastActions lastObservations : List Event}
    {count : Nat} (hcount : count = detector.thresholds.actionObservation)
    (hactions : count ≤ lastActions.length) (hobservations : count ≤ lastObservations.length)
    (hequal : detector.allEqual (lastActions.take count) = true)
    (hsame : detector.allEqual (lastObservations.take count) = true) :
    detector.isStuckRepeatingActionObservation lastActions lastObservations = true := by
  subst hcount
  unfold isStuckRepeatingActionObservation
  dsimp only
  rw [decide_eq_true hactions, decide_eq_true hobservations, hequal, hsame]
  rfl

theorem isStuckRepeatingActionError_of_take {lastActions lastObservations : List Event}
    {count : Nat} (hcount : count = detector.thresholds.actionError)
    (hactions : count ≤ lastActions.length) (hobservations : count ≤ lastObservations.length)
    (hequal : detector.allEqual (lastActions.take count) = true)
    (herrors : (lastObservations.take count).all isAgentError = true) :
    detector.isStuckRepeatingActionError lastActions lastObservations = true := by
  subst hcount
  unfold isStuckRepeatingActionError
  dsimp only
  rw [decide_eq_true hactions, decide_eq_true hobservations, hequal, herrors]
  rfl

/-- A repetition is found among the last events. -/
theorem isStuck_of_repeats (detector : StuckDetector) (earlier tail : List Event)
    (pairs : List (ActionEvent × ObservationBaseEvent)) (hpairs : IsPairs tail pairs)
    (hrepeats : detector.Repeats pairs) (hwindow : tail.length ≤ maxEventsToScan) :
    detector.isStuck (earlier ++ tail) = true := by
  obtain ⟨hactions, hobservations⟩ := hrepeats
  have hdrop : (earlier ++ tail).drop ((earlier ++ tail).length - maxEventsToScan) =
      earlier.drop ((earlier ++ tail).length - maxEventsToScan) ++ tail := by
    apply List.drop_append_of_le_length
    rw [List.length_append]
    omega
  unfold isStuck
  rw [hdrop, afterUserMessage_append hpairs.isUserMessage_eq_false]
  generalize afterUserMessage (earlier.drop _) = before
  have hlength := hpairs.length_le
  have hlong : ¬(before ++ tail).length < min (min detector.thresholds.actionObservation
      detector.thresholds.actionError) detector.thresholds.monologue := by
    rw [List.length_append]
    rcases hobservations with ⟨hcount, -⟩ | ⟨hcount, -⟩ <;> omega
  dsimp only
  rw [if_neg hlong]
  have hneeded : pairs.length ≤ max detector.thresholds.actionObservation
      detector.thresholds.actionError := by
    rcases hobservations with ⟨hcount, -⟩ | ⟨hcount, -⟩ <;> omega
  have hlastActions := IsPairs.take_filter hpairs.filter_isAction before hneeded
  have hlastObservations := IsPairs.take_filter hpairs.filter_isObservation before hneeded
  have hmanyActions := le_length_of_take_eq hlastActions
    (by rw [List.length_reverse, List.length_map])
  have hmanyObservations := le_length_of_take_eq hlastObservations
    (by rw [List.length_reverse, List.length_map])
  have hequal : detector.allEqual (pairs.map actionOf).reverse = true := by
    apply allEqual_of_forall
    intro first hfirst second hsecond
    obtain ⟨pair, hpair, rfl⟩ := List.mem_map.mp (List.mem_reverse.mp hfirst)
    obtain ⟨other, hother, rfl⟩ := List.mem_map.mp (List.mem_reverse.mp hsecond)
    exact hactions pair hpair other hother
  rw [← hlastActions] at hequal
  rcases hobservations with ⟨hcount, hsame⟩ | ⟨hcount, herrors⟩
  · have hobservationsEqual : detector.allEqual (pairs.map observationOf).reverse = true := by
      apply allEqual_of_forall
      intro first hfirst second hsecond
      obtain ⟨pair, hpair, rfl⟩ := List.mem_map.mp (List.mem_reverse.mp hfirst)
      obtain ⟨other, hother, rfl⟩ := List.mem_map.mp (List.mem_reverse.mp hsecond)
      exact hsame pair hpair other hother
    rw [← hlastObservations] at hobservationsEqual
    rw [isStuckRepeatingActionObservation_of_take hcount hmanyActions hmanyObservations hequal
      hobservationsEqual]
    rfl
  · have hall : (pairs.map observationOf).reverse.all isAgentError = true := by
      apply List.all_eq_true.mpr
      intro event hmem
      obtain ⟨pair, hpair, rfl⟩ := List.mem_map.mp (List.mem_reverse.mp hmem)
      exact herrors pair hpair
    rw [← hlastObservations] at hall
    rw [isStuckRepeatingActionError_of_take hcount hmanyActions hmanyObservations hequal hall,
      Bool.or_true]
    rfl

/-! ## Repetitions within the window, and beyond it -/

def sampleDetector : StuckDetector where
  sameObservation first second := first.observation = second.observation

def samplePair (name : String) : ActionEvent × ObservationBaseEvent :=
  (Sample.action ("a" ++ name) ("r" ++ name) ("c" ++ name) (some .other) [],
    Sample.observation ("o" ++ name) ("c" ++ name) ("a" ++ name))

/-- A pair, and updates of the state behind it. -/
def sampleRound (updates : List String) (name : String) : List Event :=
  actionOf (samplePair name) :: observationOf (samplePair name) ::
    updates.map fun update => .internal (name ++ update) .conversationStateUpdate

def roundNames : List String := ["1", "2", "3", "4"]

def samplePairs : List (ActionEvent × ObservationBaseEvent) := roundNames.map samplePair

theorem repeats_samplePairs : sampleDetector.Repeats samplePairs := by
  unfold Repeats
  exact ⟨by decide +kernel, .inl (by decide +kernel)⟩

theorem isStuck_of_repeats_rounds :
    sampleDetector.isStuck ([] ++ roundNames.flatMap (sampleRound ["x"])) = true :=
  isStuck_of_repeats sampleDetector [] _ samplePairs (by unfold IsPairs; decide +kernel)
    repeats_samplePairs (by decide +kernel)

/-- The first pair is no longer looked at. -/
theorem not_isStuck_beyond_window : ¬ ∀ (detector : StuckDetector) (earlier tail : List Event)
    (pairs : List (ActionEvent × ObservationBaseEvent)), IsPairs tail pairs →
    detector.Repeats pairs → detector.isStuck (earlier ++ tail) = true := by
  intro hall
  have hstuck := hall sampleDetector [] (roundNames.flatMap (sampleRound ["w", "x", "y", "z"]))
    samplePairs (by unfold IsPairs; decide +kernel) repeats_samplePairs
  exact absurd hstuck (by decide +kernel)

end StuckDetector

end ShuttleFlow
