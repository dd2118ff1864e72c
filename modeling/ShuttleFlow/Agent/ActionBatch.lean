import ShuttleFlow.Conversation.Callbacks

/-! # A batch of tool calls

The actions of a response, or those found pending, are cut off after a call of
the finish tool, split into blocked and executable ones, executed, and their
results emitted in the order of the actions.
-/

namespace ShuttleFlow

/-- The name of the built-in finish tool. -/
def finishToolName : String := "finish"

/-- How a tool run ends. A `ValueError` of the tool is reported by the agent,
other exceptions and cancelled calls by the executor. -/
inductive ToolOutcome
  | observation (observation : Observation)
  | valueError (error : String)
  | executorError (error : String)
  deriving DecidableEq, Repr

/-- What one execution of a batch meets outside the agent. -/
structure Executor where
  hooks : HookManager := {}
  runTool : ActionEvent → ToolOutcome
  /-- The critic's verdict on a finish action: whether to go on, and the follow-up message. -/
  checkIterativeRefinement : ActionEvent → Bool × Option String := fun _ => (false, none)

structure ActionBatch where
  actionEvents : List ActionEvent
  hasFinish : Bool
  blockedReasons : EventID → Option String
  resultsById : EventID → Option (List Event)

namespace ActionBatch

/-- Discard any calls after a call of the finish tool. -/
def truncateAtFinish (actionEvents : List ActionEvent) : List ActionEvent × Bool :=
  match actionEvents.findIdx? fun action => action.toolName = finishToolName with
  | none => (actionEvents, false)
  | some finish => (actionEvents.take (finish + 1), true)

/-- Take the blocked actions out of the state, and keep the executable ones. -/
def partitionBlocked (state : ConversationState) :
    List ActionEvent → (EventID → Option String) × List ActionEvent × ConversationState
  | [] => (fun _ => none, [], state)
  | action :: rest =>
      match state.popBlockedAction action.id with
      | (some reason, state) =>
          let (blockedReasons, executable, state) := partitionBlocked state rest
          (Function.update blockedReasons action.id (some reason), executable, state)
      | (none, state) =>
          let (blockedReasons, executable, state) := partitionBlocked state rest
          (blockedReasons, action :: executable, state)

/-- The event a tool run results in. -/
def executeActionEvent (id : EventID) (action : ActionEvent) : ToolOutcome → ObservationBaseEvent
  | .observation observation =>
      .observation ⟨id, action.toolName, action.toolCall.id, observation, action.id⟩
  | .valueError error => .agentError ⟨id, action.toolName, action.toolCall.id, error⟩
  | .executorError error => .agentError ⟨id, action.toolName, action.toolCallId, error⟩

def executeBatch (ids : IdSource) (runTool : ActionEvent → ToolOutcome)
    (state : ConversationState) :
    List ActionEvent → List (List Event) × ConversationState
  | [] => ([], state)
  | action :: rest =>
      let (id, state) := state.drawId ids
      let event := executeActionEvent id action (runTool action)
      let (results, state) := executeBatch ids runTool state rest
      ([.convertible (.observation event)] :: results, state)

/-- The results as a dictionary. -/
def zipResults (executable : List ActionEvent) (results : List (List Event)) :
    EventID → Option (List Event) :=
  (executable.zip results).foldl
    (fun dict entry => Function.update dict entry.1.id (some entry.2)) fun _ => none

def prepare (ids : IdSource) (executor : Executor) (state : ConversationState)
    (actionEvents : List ActionEvent) : ActionBatch × ConversationState :=
  let (actionEvents, hasFinish) := truncateAtFinish actionEvents
  let (blockedReasons, executable, state) := partitionBlocked state actionEvents
  let (results, state) := executeBatch ids executor.runTool state executable
  ({ actionEvents, hasFinish, blockedReasons, resultsById := zipResults executable results },
    state)

def rejection (id : EventID) (action : ActionEvent) (reason : String)
    (source : RejectionSource) : Event :=
  .convertible (.observation (.userReject
    ⟨id, action.toolName, action.toolCallId, reason, source, action.id⟩))

/-- Emit the rejection or the results of one action. -/
def emitOne (ids : IdSource) (hooks : HookManager) (batch : ActionBatch)
    (state : ConversationState) (action : ActionEvent) : ConversationState :=
  match batch.blockedReasons action.id with
  | some reason =>
      let (id, state) := state.drawId ids
      state.onEvent ids hooks (rejection id action reason .hook)
  | none => ((batch.resultsById action.id).getD []).foldl (·.onEvent ids hooks) state

/-- Emit all events in original action order. -/
def emit (ids : IdSource) (hooks : HookManager) (batch : ActionBatch)
    (state : ConversationState) : ConversationState :=
  batch.actionEvents.foldl (emitOne ids hooks batch) state

/-- Finish, or go on with the follow-up message of the critic. -/
def finalize (ids : IdSource) (executor : Executor) (batch : ActionBatch)
    (state : ConversationState) : ConversationState :=
  match batch.actionEvents.getLast? with
  | none => state
  | some last =>
      if !batch.hasFinish || (batch.blockedReasons last.id).isSome then state
      else
        match executor.checkIterativeRefinement last with
        | (true, some followup) =>
            if followup = "" then { state with executionStatus := .finished }
            else
              let (id, state) := state.drawId ids
              let llmMessage : Message := { role := .user, content := [.text followup] }
              state.onEvent ids executor.hooks (.convertible (.message
                { id, source := .user, llmMessage }))
        | _ => { state with executionStatus := .finished }

/-- Prepare, emit and finalize. -/
def executeActions (ids : IdSource) (executor : Executor) (state : ConversationState)
    (actionEvents : List ActionEvent) : ConversationState :=
  let (batch, state) := prepare ids executor state actionEvents
  finalize ids executor batch (emit ids executor.hooks batch state)

end ActionBatch

end ShuttleFlow
