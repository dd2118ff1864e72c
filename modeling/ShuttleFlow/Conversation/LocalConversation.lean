import ShuttleFlow.Agent.Step

/-! # Runs of a conversation

What can happen to a conversation between and during the steps of its agent,
and runs as sequences of such operations.
-/

namespace ShuttleFlow

namespace LocalConversation

variable (ids : IdSource)

/-- The log starts with the system prompt. -/
def initState (systemPrompt : String) (dynamicContext : Option String) : ConversationState :=
  let (id, state) := ConversationState.drawId ids {}
  state.onEvent ids {} (.convertible (.systemPrompt { id, systemPrompt, dynamicContext }))

def sendMessage (hooks : HookManager) (message : Message) (extendedContent : List Content)
    (state : ConversationState) : ConversationState :=
  let executionStatus :=
    match state.executionStatus with
    | .finished | .stuck => .idle
    | status => status
  let (id, state) := { state with executionStatus }.drawId ids
  state.onEvent ids hooks (.convertible (.message
    { id, source := .user, llmMessage := message, extendedContent }))

/-- Feedback of a stop hook is a message from the environment. -/
def sendFeedback (hooks : HookManager) (feedback : String) (state : ConversationState) :
    ConversationState :=
  let (id, state) := state.drawId ids
  let text := "[Stop hook feedback] " ++ feedback
  { state.onEvent ids hooks (.convertible (.message
      { id, source := .environment, llmMessage := { role := .user, content := [.text text] } }))
    with executionStatus := .running }

/-- Answer actions one after another, each with a new event. -/
def answerAll (hooks : HookManager) (answer : EventID → ActionEvent → Event)
    (actions : List ActionEvent) (state : ConversationState) : ConversationState :=
  actions.foldl (fun state action =>
    let (id, state) := state.drawId ids
    state.onEvent ids hooks (answer id action)) state

def rejectPendingActions (hooks : HookManager) (reason : String) (state : ConversationState) :
    ConversationState :=
  let executionStatus :=
    if state.executionStatus = .waitingForConfirmation then .idle else state.executionStatus
  answerAll ids hooks (fun id action => ActionBatch.rejection id action reason .user)
    (ConversationState.getUnmatchedActions state.events) { state with executionStatus }

def orphanedError (id : EventID) (action : ActionEvent) : Event :=
  .convertible (.observation (.agentError ⟨id, action.toolName, action.toolCallId,
    "Tool call interrupted before completion. The conversation was paused."⟩))

def emitOrphanedActionErrors (hooks : HookManager) (state : ConversationState) :
    ConversationState :=
  answerAll ids hooks orphanedError (ConversationState.getUnmatchedActions state.events) state

def pause (state : ConversationState) : ConversationState :=
  match state.executionStatus with
  | .idle | .running =>
      ConversationState.recordInternal ids .pause { state with executionStatus := .paused }
  | _ => state

def requestCondensation (hooks : HookManager) (state : ConversationState) : ConversationState :=
  let (id, state) := state.drawId ids
  state.onEvent ids hooks (.condensationRequest id)

/-- One step of the agent. When it is cancelled, the actions left over are
answered with errors and the run is interrupted. -/
def runStep (env : Environment) (state : ConversationState) : ConversationState :=
  let state := Agent.step ids env state
  if env.cancelled then
    let state := emitOrphanedActionErrors ids env.hooks state
    ConversationState.recordInternal ids .interrupt { state with executionStatus := .paused }
  else state

end LocalConversation

/-- What can happen to a conversation. -/
inductive Operation
  | sendMessage (hooks : HookManager) (message : Message) (extendedContent : List Content)
  | step (env : Environment)
  | rejectPendingActions (hooks : HookManager) (reason : String)
  | sendFeedback (hooks : HookManager) (feedback : String)
  | pause
  | requestCondensation (hooks : HookManager)
  /-- An event of bookkeeping, such as a state update or a conversation error. -/
  | record (kind : InternalKind)

namespace LocalConversation

variable (ids : IdSource)

def apply (state : ConversationState) : Operation → ConversationState
  | .sendMessage hooks message extendedContent =>
      sendMessage ids hooks message extendedContent state
  | .step env => runStep ids env state
  | .rejectPendingActions hooks reason => rejectPendingActions ids hooks reason state
  | .sendFeedback hooks feedback => sendFeedback ids hooks feedback state
  | .pause => pause ids state
  | .requestCondensation hooks => requestCondensation ids hooks state
  | .record kind => ConversationState.recordInternal ids kind state

def run (state : ConversationState) (operations : List Operation) : ConversationState :=
  operations.foldl (apply ids) state

end LocalConversation

end ShuttleFlow
