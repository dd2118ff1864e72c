import Mathlib.Data.Finset.Basic
import ShuttleFlow.Llm.Message

/-! # Events of a conversation

Events are split as in the source: those that can be turned into messages for
the model, and those that only steer or record the conversation. A view holds
the former only.
-/

namespace ShuttleFlow

abbrev EventID := String

inductive SourceType
  | agent | user | environment | hook
  deriving DecidableEq, Repr

inductive SecurityRisk
  | unknown | low | medium | high
  deriving DecidableEq, Repr

/-- The classes of tool actions the agent tells apart. -/
inductive ActionKind
  | finish | think | other
  deriving DecidableEq, Repr

/-- A validated tool action: its class and its JSON dump. -/
structure Action where
  kind : ActionKind
  dump : String
  deriving DecidableEq, Repr

/-- The result of a tool, as the content shown to the model. -/
structure Observation where
  toLLMContent : List Content
  deriving DecidableEq, Repr

structure SystemPromptEvent where
  id : EventID
  systemPrompt : String
  dynamicContext : Option String := none
  deriving DecidableEq, Repr

structure MessageEvent where
  id : EventID
  source : SourceType
  llmMessage : Message
  llmResponseId : Option EventID := none
  extendedContent : List Content := []
  deriving DecidableEq, Repr

/-- A tool call made by the model. `action` is missing when the call did not
validate and cannot be executed. -/
structure ActionEvent where
  id : EventID
  thought : List Content := []
  reasoningContent : Option String := none
  thinkingBlocks : List ThinkingBlock := []
  responsesReasoningItem : Option ReasoningItemModel := none
  action : Option Action
  toolName : String
  toolCallId : ToolCallID
  toolCall : MessageToolCall
  llmResponseId : EventID
  securityRisk : SecurityRisk := .unknown
  deriving DecidableEq, Repr

structure ObservationEvent where
  id : EventID
  toolName : String
  toolCallId : ToolCallID
  observation : Observation
  actionId : EventID
  deriving DecidableEq, Repr

inductive RejectionSource
  | user | hook
  deriving DecidableEq, Repr

structure UserRejectObservation where
  id : EventID
  toolName : String
  toolCallId : ToolCallID
  rejectionReason : String
  rejectionSource : RejectionSource := .user
  actionId : EventID
  deriving DecidableEq, Repr

structure AgentErrorEvent where
  id : EventID
  toolName : String
  toolCallId : ToolCallID
  error : String
  deriving DecidableEq, Repr

structure CondensationSummaryEvent where
  id : EventID
  summary : String
  deriving DecidableEq, Repr

/-- The subclasses of `ObservationBaseEvent`. -/
inductive ObservationBaseEvent
  | observation (event : ObservationEvent)
  | userReject (event : UserRejectObservation)
  | agentError (event : AgentErrorEvent)
  deriving DecidableEq, Repr

namespace ObservationBaseEvent

def id : ObservationBaseEvent → EventID
  | observation event => event.id
  | userReject event => event.id
  | agentError event => event.id

def toolName : ObservationBaseEvent → String
  | observation event => event.toolName
  | userReject event => event.toolName
  | agentError event => event.toolName

def toolCallId : ObservationBaseEvent → ToolCallID
  | observation event => event.toolCallId
  | userReject event => event.toolCallId
  | agentError event => event.toolCallId

end ObservationBaseEvent

/-- Events that can be converted to messages for the model. -/
inductive LLMConvertibleEvent
  | systemPrompt (event : SystemPromptEvent)
  | message (event : MessageEvent)
  | action (event : ActionEvent)
  | observation (event : ObservationBaseEvent)
  | condensationSummary (event : CondensationSummaryEvent)
  deriving DecidableEq, Repr

def LLMConvertibleEvent.id : LLMConvertibleEvent → EventID
  | systemPrompt event => event.id
  | message event => event.id
  | action event => event.id
  | observation event => event.id
  | condensationSummary event => event.id

/-- Some events of the view are being forgotten, and possibly summarized. -/
structure Condensation where
  id : EventID
  forgottenEventIds : Finset EventID
  summary : Option String := none
  summaryOffset : Option Nat := none
  llmResponseId : EventID
  deriving DecidableEq

/-- The remaining event classes. None of them is shown to the model. -/
inductive InternalKind
  | pause | interrupt | token | hookExecution | conversationStateUpdate
  | conversationError | llmCompletionLog | streamingDelta | acpToolCall | serverError
  deriving DecidableEq, Repr

inductive Event
  | convertible (event : LLMConvertibleEvent)
  | condensation (event : Condensation)
  | condensationRequest (eventId : EventID)
  | internal (eventId : EventID) (kind : InternalKind)
  deriving DecidableEq

def Event.id : Event → EventID
  | convertible event => event.id
  | condensation event => event.id
  | condensationRequest eventId => eventId
  | internal eventId _ => eventId

/-! ## Projections to the classes the source tests for with `isinstance` -/

def LLMConvertibleEvent.asAction : LLMConvertibleEvent → Option ActionEvent
  | action event => some event
  | _ => none

def LLMConvertibleEvent.asObservation : LLMConvertibleEvent → Option ObservationBaseEvent
  | observation event => some event
  | _ => none

def Event.asConvertible : Event → Option LLMConvertibleEvent
  | convertible event => some event
  | _ => none

@[simp] theorem asAction_eq_some {event : LLMConvertibleEvent} {action : ActionEvent} :
    event.asAction = some action ↔ event = .action action := by
  cases event <;> simp [LLMConvertibleEvent.asAction]

@[simp] theorem asObservation_eq_some {event : LLMConvertibleEvent}
    {observation : ObservationBaseEvent} :
    event.asObservation = some observation ↔ event = .observation observation := by
  cases event <;> simp [LLMConvertibleEvent.asObservation]

@[simp] theorem asConvertible_eq_some {event : Event} {found : LLMConvertibleEvent} :
    event.asConvertible = some found ↔ event = .convertible found := by
  cases event <;> simp [Event.asConvertible]

/-- The events of a log that can be shown to the model, in log order. -/
def convertibles (events : List Event) : List LLMConvertibleEvent :=
  events.filterMap Event.asConvertible

@[simp] theorem convertibles_nil : convertibles [] = [] := rfl

@[simp] theorem convertibles_append (first second : List Event) :
    convertibles (first ++ second) = convertibles first ++ convertibles second :=
  List.filterMap_append

@[simp] theorem convertibles_cons_convertible (event : LLMConvertibleEvent)
    (events : List Event) :
    convertibles (.convertible event :: events) = event :: convertibles events := rfl

theorem mem_convertibles {event : LLMConvertibleEvent} {events : List Event} :
    event ∈ convertibles events ↔ .convertible event ∈ events := by
  simp [convertibles]

/-! ## Condensations -/

namespace Condensation

/-- The summary event derived from a condensation; its id is derived too. -/
def summaryEvent? (condensation : Condensation) : Option CondensationSummaryEvent :=
  condensation.summary.map fun summary => ⟨condensation.id ++ "-summary", summary⟩

/-- Forget the marked events, then insert the summary at its offset. As in
Python, inserting past the end appends. -/
def apply (condensation : Condensation) (events : List LLMConvertibleEvent) :
    List LLMConvertibleEvent :=
  let output := events.filter fun event => event.id ∉ condensation.forgottenEventIds
  match condensation.summaryEvent?, condensation.summaryOffset with
  | some summary, some offset =>
      output.take offset ++ [.condensationSummary summary] ++ output.drop offset
  | _, _ => output

end Condensation

/-! ## Small events, to run the definitions on -/

namespace Sample

def message (id : EventID) : LLMConvertibleEvent :=
  .message { id, source := .user, llmMessage := { role := .user } }

def thinkingBlock : ThinkingBlock := .thinking "why" none

/-- A valid call when `kind` is given, otherwise one that did not validate. -/
def action (id response : EventID) (call : ToolCallID) (kind : Option ActionKind)
    (thinkingBlocks : List ThinkingBlock) : ActionEvent :=
  { id, action := kind.map (⟨·, ""⟩), toolName := "tool", toolCallId := call, thinkingBlocks,
    toolCall := ⟨call, none, "tool", "", .completion⟩, llmResponseId := response }

def observation (id : EventID) (call : ToolCallID) (action : EventID) : ObservationBaseEvent :=
  .observation ⟨id, "tool", call, ⟨[]⟩, action⟩

def agentError (id : EventID) (call : ToolCallID) : ObservationBaseEvent :=
  .agentError ⟨id, "tool", call, ""⟩

end Sample

end ShuttleFlow
