import ShuttleFlow.Event.Basic

/-! # Stuck detection

Only the last events are looked at, and of these only what follows the last user
message.
-/

namespace ShuttleFlow

structure StuckDetectionThresholds where
  actionObservation : Nat := 4
  actionError : Nat := 3
  monologue : Nat := 3
  alternatingPattern : Nat := 6
  actionObservation_pos : 1 ≤ actionObservation := by decide
  actionError_pos : 1 ≤ actionError := by decide
  monologue_pos : 1 ≤ monologue := by decide
  alternatingPattern_pos : 1 ≤ alternatingPattern := by decide

/-- The thresholds, and the equality of observations, of which events keep only
what is shown to the model. -/
structure StuckDetector where
  thresholds : StuckDetectionThresholds := {}
  sameObservation : ObservationEvent → ObservationEvent → Bool

namespace StuckDetector

def maxEventsToScan : Nat := 20

def isAction : Event → Bool
  | .convertible (.action _) => true
  | _ => false

def isObservation : Event → Bool
  | .convertible (.observation _) => true
  | _ => false

def isAgentError : Event → Bool
  | .convertible (.observation (.agentError _)) => true
  | _ => false

def isRejection : Event → Bool
  | .convertible (.observation (.userReject _)) => true
  | _ => false

def isUserMessage : Event → Bool
  | .convertible (.message message) => message.source = .user
  | _ => false

variable (detector : StuckDetector)

/-- Compare two events, ignoring their ids. -/
def eventEq : Event → Event → Bool
  | .convertible (.action first), .convertible (.action second) =>
      first.thought = second.thought ∧ first.action = second.action ∧
        first.toolName = second.toolName
  | .convertible (.observation (.observation first)),
    .convertible (.observation (.observation second)) =>
      detector.sameObservation first second && decide (first.toolName = second.toolName)
  | .convertible (.observation (.agentError first)),
    .convertible (.observation (.agentError second)) => first.error = second.error
  | .convertible (.message first), .convertible (.message second) =>
      first.source = second.source ∧ first.llmMessage = second.llmMessage
  | first, second => first = second

/-- The first items are all equal to the very first. -/
def allEqual (items : List Event) : Bool :=
  match items with
  | [] => true
  | first :: _ => items.all (detector.eventEq first)

/-- Same actions, same observations. Both lists are in reverse order. -/
def isStuckRepeatingActionObservation (lastActions lastObservations : List Event) : Bool :=
  let threshold := detector.thresholds.actionObservation
  threshold ≤ lastActions.length && threshold ≤ lastObservations.length &&
    detector.allEqual (lastActions.take threshold) &&
    detector.allEqual (lastObservations.take threshold)

/-- Same actions, only errors. -/
def isStuckRepeatingActionError (lastActions lastObservations : List Event) : Bool :=
  let threshold := detector.thresholds.actionError
  threshold ≤ lastActions.length && threshold ≤ lastObservations.length &&
    detector.allEqual (lastActions.take threshold) &&
    (lastObservations.take threshold).all isAgentError

/-- How many messages of the agent the reversed events start with. -/
def agentMessages : List Event → Nat
  | [] => 0
  | .convertible (.message message) :: rest =>
      match message.source with
      | .agent => agentMessages rest + 1
      | .user => 0
      | _ => agentMessages rest
  | .convertible (.condensationSummary _) :: rest => agentMessages rest
  | _ :: _ => 0

def isStuckMonologue (events : List Event) : Bool :=
  detector.thresholds.monologue ≤ events.length &&
    detector.thresholds.monologue ≤ agentMessages events.reverse

/-- Every item equals the one after the next. -/
def alternates : List Event → Bool
  | first :: second :: third :: rest =>
      detector.eventEq first third && alternates (second :: third :: rest)
  | _ => true

def isStuckAlternatingActionObservation (events : List Event) : Bool :=
  let threshold := detector.thresholds.alternatingPattern
  let lastActions := (events.reverse.filter isAction).take threshold
  let lastObservations :=
    (events.reverse.filter fun event => isObservation event && !isRejection event).take threshold
  lastActions.length = threshold && lastObservations.length = threshold &&
    detector.alternates lastActions && detector.alternates lastObservations

/-- What follows the last user message. -/
def afterUserMessage (events : List Event) : List Event :=
  (events.reverse.takeWhile fun event => !isUserMessage event).reverse

def isStuck (events : List Event) : Bool :=
  let events := afterUserMessage (events.drop (events.length - maxEventsToScan))
  let thresholds := detector.thresholds
  if events.length <
      min (min thresholds.actionObservation thresholds.actionError) thresholds.monologue then false
  else
    let maxNeeded := max thresholds.actionObservation thresholds.actionError
    let lastActions := (events.reverse.filter isAction).take maxNeeded
    let lastObservations := (events.reverse.filter isObservation).take maxNeeded
    detector.isStuckRepeatingActionObservation lastActions lastObservations ||
      detector.isStuckRepeatingActionError lastActions lastObservations ||
      detector.isStuckMonologue events ||
      (thresholds.alternatingPattern ≤ events.length &&
        detector.isStuckAlternatingActionObservation events)

/-! ## Right after a user message nothing is stuck -/

def isInternal : Event → Bool
  | .internal _ _ => true
  | _ => false

/-- Nothing but bookkeeping has been logged after a user message. -/
def AwaitsAgent (events : List Event) : Prop :=
  ∃ earlier message trailing, events = earlier ++ message :: trailing ∧
    isUserMessage message = true ∧ ∀ event ∈ trailing, isInternal event = true

theorem AwaitsAgent.of_userMessage (earlier : List Event) {message : Event}
    (hmessage : isUserMessage message = true) : AwaitsAgent (earlier ++ [message]) :=
  ⟨earlier, message, [], rfl, hmessage, fun _ hevent => by cases hevent⟩

theorem AwaitsAgent.concat {events : List Event} (hawaits : AwaitsAgent events) {event : Event}
    (hinternal : isInternal event = true) : AwaitsAgent (events ++ [event]) := by
  obtain ⟨earlier, message, trailing, rfl, hmessage, htrailing⟩ := hawaits
  refine ⟨earlier, message, trailing ++ [event], by simp, hmessage, fun other hother => ?_⟩
  rcases List.mem_append.mp hother with hold | hnew
  · exact htrailing other hold
  · rw [List.mem_singleton.mp hnew]
    exact hinternal

theorem not_isUserMessage_of_isInternal {event : Event} (hinternal : isInternal event = true) :
    isUserMessage event = false := by
  cases event with
  | internal => rfl
  | _ => cases hinternal

theorem afterUserMessage_concat (earlier : List Event) {message : Event} {trailing : List Event}
    (hmessage : isUserMessage message = true)
    (htrailing : ∀ event ∈ trailing, isInternal event = true) :
    afterUserMessage (earlier ++ message :: trailing) = trailing := by
  have hkept : ∀ event ∈ trailing.reverse, (!isUserMessage event) = true := by
    intro event hevent
    rw [not_isUserMessage_of_isInternal (htrailing event (List.mem_reverse.mp hevent))]
    rfl
  have hreverse : (earlier ++ message :: trailing).reverse =
      trailing.reverse ++ message :: earlier.reverse := by simp
  rw [afterUserMessage, hreverse, List.takeWhile_append_of_pos hkept,
    List.takeWhile_cons_of_neg (by simp [hmessage]), List.append_nil, List.reverse_reverse]

/-- Whatever the window, only bookkeeping is looked at. -/
theorem AwaitsAgent.isInternal_of_mem {events : List Event} (hawaits : AwaitsAgent events)
    (skipped : Nat) {event : Event} (hevent : event ∈ afterUserMessage (events.drop skipped)) :
    isInternal event = true := by
  obtain ⟨earlier, message, trailing, rfl, hmessage, htrailing⟩ := hawaits
  rw [List.drop_append] at hevent
  cases hrest : skipped - earlier.length with
  | zero =>
      rw [hrest, List.drop_zero, afterUserMessage_concat _ hmessage htrailing] at hevent
      exact htrailing event hevent
  | succ rest =>
      have hgone : earlier.drop skipped = [] := List.drop_eq_nil_of_le (by omega)
      rw [hrest, hgone, List.nil_append, List.drop_succ_cons] at hevent
      have hmem := (List.takeWhile_prefix _).subset (List.mem_reverse.mp hevent)
      exact htrailing event (List.mem_of_mem_drop (List.mem_reverse.mp hmem))

theorem filter_eq_nil_of_isInternal {events : List Event} {test : Event → Bool}
    (hevents : ∀ event ∈ events, isInternal event = true)
    (htest : ∀ event, isInternal event = true → test event = false) :
    events.reverse.filter test = [] := by
  refine List.filter_eq_nil_iff.mpr fun event hevent => ?_
  rw [htest event (hevents event (List.mem_reverse.mp hevent))]
  exact Bool.false_ne_true

theorem agentMessages_of_isInternal {events : List Event}
    (hevents : ∀ event ∈ events, isInternal event = true) : agentMessages events = 0 := by
  cases events with
  | nil => rfl
  | cons event rest =>
      have hevent := hevents event List.mem_cons_self
      cases event with
      | internal => rfl
      | _ => cases hevent

theorem isStuck_of_awaitsAgent {events : List Event} (hawaits : AwaitsAgent events) :
    detector.isStuck events = false := by
  have hinternal : ∀ event ∈ afterUserMessage (events.drop (events.length - maxEventsToScan)),
      isInternal event = true := fun event => hawaits.isInternal_of_mem _
  unfold isStuck
  generalize afterUserMessage (events.drop (events.length - maxEventsToScan)) = since at hinternal
  have hactions : since.reverse.filter isAction = [] :=
    filter_eq_nil_of_isInternal hinternal fun event hevent => by cases event <;> trivial
  have hmessages : agentMessages since.reverse = 0 :=
    agentMessages_of_isInternal fun event hevent => hinternal event (List.mem_reverse.mp hevent)
  have hobservation : ¬detector.thresholds.actionObservation ≤ 0 :=
    Nat.not_le_of_lt detector.thresholds.actionObservation_pos
  have herror : ¬detector.thresholds.actionError ≤ 0 :=
    Nat.not_le_of_lt detector.thresholds.actionError_pos
  have hmonologue : ¬detector.thresholds.monologue ≤ 0 :=
    Nat.not_le_of_lt detector.thresholds.monologue_pos
  have halternating : ¬0 = detector.thresholds.alternatingPattern :=
    (Nat.ne_of_gt detector.thresholds.alternatingPattern_pos).symm
  simp only [isStuckRepeatingActionObservation, isStuckRepeatingActionError, isStuckMonologue,
    isStuckAlternatingActionObservation, hactions, hmessages, List.take_nil, List.length_nil,
    hobservation, herror, hmonologue, halternating, decide_false, Bool.false_and, Bool.and_false,
    Bool.or_false, ite_self]

end StuckDetector

end ShuttleFlow
