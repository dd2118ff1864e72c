import Mathlib.Data.Finset.Basic
import Mathlib.Data.List.Nodup
import Mathlib.Logic.Function.Basic
import ShuttleFlow.Event.Basic

/-! # The state of a conversation

The log, what hooks have blocked, and the scan for actions that still wait for
their observation.
-/

namespace ShuttleFlow

inductive ConversationExecutionStatus
  | idle | running | paused | waitingForConfirmation | finished | error | stuck | deleting
  deriving DecidableEq, Repr

/-- The supply of fresh ids. Ids derived for summaries are never drawn from it. -/
structure IdSource where
  uuid : Nat → EventID
  injective : Function.Injective uuid
  noSummary : ∀ first second, uuid first ++ "-summary" ≠ uuid second

structure ConversationState where
  events : List Event := []
  executionStatus : ConversationExecutionStatus := .idle
  blockedActions : EventID → Option String := fun _ => none
  blockedMessages : EventID → Option String := fun _ => none
  lastUserMessageId : Option EventID := none
  /-- How many ids have been drawn. -/
  drawn : Nat := 0

namespace ConversationState

def blockAction (state : ConversationState) (actionId : EventID) (reason : String) :
    ConversationState :=
  { state with blockedActions := Function.update state.blockedActions actionId (some reason) }

/-- Remove and return the reason an action is blocked for, if there is one. -/
def popBlockedAction (state : ConversationState) (actionId : EventID) :
    Option String × ConversationState :=
  match state.blockedActions actionId with
  | none => (none, state)
  | some reason =>
      (some reason,
        { state with blockedActions := Function.update state.blockedActions actionId none })

def blockMessage (state : ConversationState) (messageId : EventID) (reason : String) :
    ConversationState :=
  { state with blockedMessages := Function.update state.blockedMessages messageId (some reason) }

def popBlockedMessage (state : ConversationState) (messageId : EventID) :
    Option String × ConversationState :=
  match state.blockedMessages messageId with
  | none => (none, state)
  | some reason =>
      (some reason,
        { state with blockedMessages := Function.update state.blockedMessages messageId none })

/-! ## Actions without an observation -/

/-- What the reverse scan has collected from the end of the log. -/
structure UnmatchedScan where
  observedActionIds : Finset EventID := ∅
  observedToolCallIds : Finset ToolCallID := ∅
  unmatchedActions : List ActionEvent := []

def UnmatchedScan.visit (event : Event) (scan : UnmatchedScan) : UnmatchedScan :=
  match event with
  | .convertible (.observation (.observation observation)) =>
      { scan with observedActionIds := insert observation.actionId scan.observedActionIds }
  | .convertible (.observation (.userReject rejection)) =>
      { scan with observedActionIds := insert rejection.actionId scan.observedActionIds }
  | .convertible (.observation (.agentError error)) =>
      { scan with observedToolCallIds := insert error.toolCallId scan.observedToolCallIds }
  | .convertible (.action action) =>
      if action.action.isSome ∧ action.id ∉ scan.observedActionIds ∧
          action.toolCallId ∉ scan.observedToolCallIds then
        { scan with unmatchedActions := action :: scan.unmatchedActions }
      else scan
  | _ => scan

/-- The executable actions without an observation, in log order. -/
def getUnmatchedActions (events : List Event) : List ActionEvent :=
  (events.foldr UnmatchedScan.visit {}).unmatchedActions

end ConversationState

/-! ## Answers -/

/-- Whether an event is the observation of an action. Errors name the tool call
only, the other observations name the action. -/
def Event.answers (action : ActionEvent) : Event → Bool
  | convertible (.observation (.observation observation)) => observation.actionId = action.id
  | convertible (.observation (.userReject rejection)) => rejection.actionId = action.id
  | convertible (.observation (.agentError error)) => error.toolCallId = action.toolCallId
  | _ => false

/-- The executable actions of an event. -/
def Event.executable : Event → List ActionEvent
  | convertible (.action action) => if action.action.isSome then [action] else []
  | _ => []

namespace ConversationState

theorem observed_iff (events : List Event) (action : ActionEvent) :
    (action.id ∈ (events.foldr UnmatchedScan.visit {}).observedActionIds ∨
      action.toolCallId ∈ (events.foldr UnmatchedScan.visit {}).observedToolCallIds) ↔
      ∃ event ∈ events, event.answers action = true := by
  induction events with
  | nil => simp
  | cons event rest ih =>
      rw [List.foldr_cons, List.exists_mem_cons_iff, ← ih]
      unfold UnmatchedScan.visit Event.answers
      split <;> grind

/-- An executable action is unmatched when no later event answers it. -/
theorem getUnmatchedActions_cons (event : Event) (events : List Event) :
    getUnmatchedActions (event :: events) =
      (event.executable.filter fun action => events.all fun later => !later.answers action) ++
        getUnmatchedActions events := by
  have hscan : getUnmatchedActions events =
    (events.foldr UnmatchedScan.visit {}).unmatchedActions := rfl
  unfold getUnmatchedActions at hscan ⊢
  rw [List.foldr_cons]
  cases event with
  | convertible event =>
      cases event with
      | action action =>
          have hnot : (action.id ∉ (events.foldr UnmatchedScan.visit {}).observedActionIds ∧
              action.toolCallId ∉
                (events.foldr UnmatchedScan.visit {}).observedToolCallIds) ↔
              events.all (fun later => !later.answers action) = true := by
            have hobserved := not_congr (observed_iff events action)
            simpa [not_or, not_exists] using hobserved
          simp only [UnmatchedScan.visit, hnot, Event.executable]
          by_cases hvalid : action.action.isSome <;>
            by_cases hall : events.all (fun later => !later.answers action) <;>
            simp [hvalid, hall]
      | observation observation => cases observation <;> rfl
      | _ => rfl
  | _ => rfl

@[simp] theorem getUnmatchedActions_nil : getUnmatchedActions [] = [] := rfl

theorem getUnmatchedActions_append (first second : List Event) :
    getUnmatchedActions (first ++ second) =
      ((getUnmatchedActions first).filter fun action =>
        second.all fun later => !later.answers action) ++ getUnmatchedActions second := by
  induction first with
  | nil => rfl
  | cons event rest ih =>
      rw [List.cons_append, getUnmatchedActions_cons, ih, getUnmatchedActions_cons,
        List.filter_append, List.append_assoc, List.filter_filter]
      congr 2
      funext action
      simp [Bool.and_comm]

theorem mem_getUnmatchedActions {events : List Event} {action : ActionEvent} :
    action ∈ getUnmatchedActions events ↔ ∃ before after,
      events = before ++ .convertible (.action action) :: after ∧ action.action.isSome ∧
        ∀ later ∈ after, later.answers action = false := by
  induction events with
  | nil => simp
  | cons event rest ih =>
      rw [getUnmatchedActions_cons, List.mem_append, ih]
      constructor
      · rintro (hhead | ⟨before, after, rfl, hvalid, hnone⟩)
        · rw [List.mem_filter] at hhead
          obtain ⟨hexecutable, hnone⟩ := hhead
          unfold Event.executable at hexecutable
          split at hexecutable
          next found =>
            split at hexecutable
            next hvalid =>
              obtain rfl := List.mem_singleton.mp hexecutable
              exact ⟨[], rest, rfl, hvalid, by simpa using hnone⟩
            next => cases hexecutable
          next => cases hexecutable
        · exact ⟨event :: before, after, rfl, hvalid, hnone⟩
      · rintro ⟨before, after, hsplit, hvalid, hnone⟩
        cases before with
        | nil =>
            obtain ⟨rfl, rfl⟩ := List.cons.inj hsplit
            exact .inl (by simpa [Event.executable, hvalid] using hnone)
        | cons first before =>
            obtain ⟨rfl, rfl⟩ := List.cons.inj hsplit
            exact .inr ⟨before, after, rfl, hvalid, hnone⟩

end ConversationState

end ShuttleFlow
