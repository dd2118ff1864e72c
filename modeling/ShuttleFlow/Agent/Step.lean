import ShuttleFlow.Agent.ActionBatch
import ShuttleFlow.Library.PythonText
import ShuttleFlow.View.View

/-! # One step of the agent

A step executes pending actions, or condenses, or asks the model and handles
its response. What lies outside (the model, validation, policies, tools, hooks,
the condenser) is a parameter of the step.
-/

namespace ShuttleFlow

/-! ## Responses -/

inductive LLMResponseType
  | toolCalls | content | reasoningOnly | empty
  deriving DecidableEq, Repr

def classifyResponse (message : Message) : LLMResponseType :=
  let isVisible : Content → Bool
    | .text text => !PythonText.isBlank text
    | .image _ => false
  if message.calls ≠ [] then .toolCalls
  else if message.content.any isVisible then .content
  else if message.responsesReasoningItem.isSome ∨ message.reasoningContent.isSome ∨
      message.thinkingBlocks ≠ [] then .reasoningOnly
  else .empty

structure LLMResponse where
  id : EventID
  message : Message
  deriving DecidableEq, Repr

/-- How a completion ends. The last constructor is an error about the history:
the agent requests a condensation if the condenser handles requests. -/
inductive Completion
  | response (response : LLMResponse)
  | functionCallValidationError (text : String)
  | historyError (handled : Bool)
  deriving DecidableEq, Repr

/-- What parsing and validation make of a tool call. -/
inductive Validation
  | valid (toolName arguments : String) (action : Action) (securityRisk : SecurityRisk)
  | invalid (toolName error : String)
  deriving DecidableEq, Repr

/-- A condensation a condenser asks for, without its id. -/
structure CondensationPlan where
  forgottenEventIds : Finset EventID
  summary : Option String
  summaryOffset : Option Nat
  llmResponseId : EventID
  deriving DecidableEq

/-- Everything a step meets outside the agent. -/
structure Environment extends Executor where
  condense : View → Option CondensationPlan := fun _ => none
  completion : Completion
  validate : MessageToolCall → Validation
  /-- Whether the policy asks for confirmation, given the analyzed risks. -/
  shouldConfirm : List ActionEvent → Bool := fun _ => false
  returnTokenIds : Bool := false
  /-- The task is cancelled while the tools of the batch run. -/
  cancelled : Bool := false

namespace Agent

variable (ids : IdSource) (env : Environment)

/-! ## Tool calls -/

/-- The parts of a message that are attached to its first tool call only. -/
structure Header where
  thought : List Content := []
  reasoningContent : Option String := none
  thinkingBlocks : List ThinkingBlock := []
  responsesReasoningItem : Option ReasoningItemModel := none
  deriving DecidableEq, Repr

def Message.header (message : Message) : Header :=
  { thought := message.content.filter Content.isText
    reasoningContent := message.reasoningContent
    thinkingBlocks := message.thinkingBlocks
    responsesReasoningItem := message.responsesReasoningItem }

/-- Emit an action that cannot be executed, and the error that answers it. -/
def emitToolError (state : ConversationState) (toolCall : MessageToolCall)
    (llmResponseId : EventID) (header : Header) (toolName error : String) : ConversationState :=
  let (id, state) := state.drawId ids
  let state := state.onEvent ids env.hooks (.convertible (.action
    { header with
      id, action := none, toolName := toolCall.name, toolCallId := toolCall.id, toolCall,
      llmResponseId }))
  let (id, state) := state.drawId ids
  state.onEvent ids env.hooks (.convertible (.observation (.agentError
    ⟨id, toolName, toolCall.id, error⟩)))

/-- Convert a tool call into an action event and emit it. -/
def getActionEvent (state : ConversationState) (toolCall : MessageToolCall)
    (llmResponseId : EventID) (header : Header) : Option ActionEvent × ConversationState :=
  match env.validate toolCall with
  | .invalid toolName error =>
      (none, emitToolError ids env state toolCall llmResponseId header toolName error)
  | .valid toolName arguments action securityRisk =>
      let normalizedToolCall := { toolCall with name := toolName, arguments }
      let (id, state) := state.drawId ids
      let actionEvent : ActionEvent :=
        { header with
          id, action := some action, toolName, toolCallId := normalizedToolCall.id,
          toolCall := normalizedToolCall, llmResponseId, securityRisk }
      (some actionEvent, state.onEvent ids env.hooks (.convertible (.action actionEvent)))

/-- Emit the tool calls of a response, and return the executable actions. -/
def emitToolCalls (llmResponseId : EventID) (state : ConversationState) :
    Header → List MessageToolCall → List ActionEvent × ConversationState
  | _, [] => ([], state)
  | header, toolCall :: rest =>
      let (actionEvent, state) := getActionEvent ids env state toolCall llmResponseId header
      let (actionEvents, state) := emitToolCalls llmResponseId state {} rest
      (actionEvent.toList ++ actionEvents, state)

def requiresUserConfirmation (actionEvents : List ActionEvent) : Bool :=
  let exempt : Bool :=
    match actionEvents with
    | [] => true
    | [single] =>
        match single.action with
        | some action => action.kind = .finish ∨ action.kind = .think
        | none => false
    | _ => false
  !exempt && env.shouldConfirm actionEvents

/-- Execute actions. A cancelled execution emits nothing. -/
def executeActions (state : ConversationState) (actionEvents : List ActionEvent) :
    ConversationState :=
  if env.cancelled then (ActionBatch.prepare ids env.toExecutor state actionEvents).2
  else ActionBatch.executeActions ids env.toExecutor state actionEvents

def maybeEmitVllmTokens (state : ConversationState) : ConversationState :=
  if env.returnTokenIds then state.recordInternal ids .token else state

def handleToolCalls (state : ConversationState) (response : LLMResponse) : ConversationState :=
  let (actionEvents, state) := emitToolCalls ids env response.id state
    (Message.header response.message) response.message.calls
  if requiresUserConfirmation env actionEvents then
    { state with executionStatus := .waitingForConfirmation }
  else if actionEvents = [] then maybeEmitVllmTokens ids env state
  else
    let state := executeActions ids env state actionEvents
    if env.cancelled then state else maybeEmitVllmTokens ids env state

/-! ## Other responses -/

def emitMessageEvent (state : ConversationState) (response : LLMResponse) : ConversationState :=
  let (id, state) := state.drawId ids
  state.onEvent ids env.hooks (.convertible (.message
    { id, source := .agent, llmMessage := response.message, llmResponseId := some response.id }))

def emitUserText (state : ConversationState) (text : String) : ConversationState :=
  let (id, state) := state.drawId ids
  state.onEvent ids env.hooks (.convertible (.message
    { id, source := .user, llmMessage := { role := .user, content := [.text text] } }))

def handleContentResponse (state : ConversationState) (response : LLMResponse) :
    ConversationState :=
  let state := maybeEmitVllmTokens ids env (emitMessageEvent ids env state response)
  { state with executionStatus := .finished }

def correctiveNudge : String :=
  "Your last response did not include a function call or a message. Please use a tool to " ++
    "proceed with the task."

def handleNoContentResponse (state : ConversationState) (response : LLMResponse) :
    ConversationState :=
  let state := maybeEmitVllmTokens ids env (emitMessageEvent ids env state response)
  emitUserText ids env state correctiveNudge

def handleResponse (state : ConversationState) (response : LLMResponse) : ConversationState :=
  match classifyResponse response.message with
  | .toolCalls => handleToolCalls ids env state response
  | .content => handleContentResponse ids env state response
  | .reasoningOnly | .empty => handleNoContentResponse ids env state response

/-! ## The step -/

/-- Ask the model. An error that nothing handles is raised and leaves the state
as it is. -/
def sample (state : ConversationState) : ConversationState :=
  match env.completion with
  | .response response => handleResponse ids env state response
  | .functionCallValidationError text => emitUserText ids env state text
  | .historyError true =>
      let (id, state) := state.drawId ids
      state.onEvent ids env.hooks (.condensationRequest id)
  | .historyError false => state

/-- Let the condenser look at the view first. -/
def condenseOrSample (state : ConversationState) : ConversationState :=
  match env.condense (View.fromEvents state.events) with
  | some plan =>
      let (id, state) := state.drawId ids
      state.onEvent ids env.hooks (.condensation
        { id, forgottenEventIds := plan.forgottenEventIds, summary := plan.summary,
          summaryOffset := plan.summaryOffset, llmResponseId := plan.llmResponseId })
  | none => sample ids env state

/-- The reason the last user message is blocked for, taken out of the state. -/
def popBlockedUserMessage (state : ConversationState) : Option String × ConversationState :=
  match state.lastUserMessageId with
  | some messageId => state.popBlockedMessage messageId
  | none => (none, state)

def step (state : ConversationState) : ConversationState :=
  match ConversationState.getUnmatchedActions state.events with
  | pending@(_ :: _) => executeActions ids env state pending
  | [] =>
      match popBlockedUserMessage state with
      | (some _, state) => { state with executionStatus := .finished }
      | (none, state) => condenseOrSample ids env state

end Agent

end ShuttleFlow
