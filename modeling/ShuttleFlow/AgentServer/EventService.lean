import ShuttleFlow.Conversation.RunLoop
import ShuttleFlow.Library.Transitions

/-! # The event service

Coroutines that send messages and start runs, at their await points, and the task
that runs the conversation. Between two await points nothing else happens in the
event loop, but other threads work on the conversation.
-/

namespace ShuttleFlow

/-- Who calls `run`. -/
inductive Caller
  | sendMessage (message : Message)
  | client
  /-- A run task that has ended, for a message it has not seen. -/
  | rerun
  deriving DecidableEq

/-- A coroutine, by what it does next. -/
inductive ServiceTask
  | appending (hooks : HookManager) (message : Message) (extendedContent : List Content)
      (run : Bool)
  | lockingRun (caller : Caller)
  | readingStatus (caller : Caller)
  | decidingRun (caller : Caller) (executionStatus : ConversationExecutionStatus)
  /-- A run task that the service does not refer to any more. -/
  | takingFlag
  | honoringFlag

/-- How far the run task that the service refers to has come. -/
inductive RunPhase
  | created
  | looping (iteration : Nat)
  /-- An exception has ended the loop and is not handled yet. -/
  | failing
  | wrappingUp
  deriving DecidableEq

structure EventService where
  conversation : ConversationState
  agentReady : Bool := false
  runTask : Option RunPhase := none
  rerunRequested : Bool := false
  runLocked : Bool := false
  tasks : List ServiceTask := []
  /-- The messages to be run after which no step of the agent has started. -/
  unanswered : List Message := []

inductive ServiceStep
  /-- Somebody calls `send_message`. -/
  | sendMessage (hooks : HookManager) (message : Message) (extendedContent : List Content)
      (run : Bool)
  /-- Somebody calls `run`. -/
  | run
  | append (index : Nat)
  | lockRun (index : Nat)
  | readStatus (index : Nat)
  | decideRun (index : Nat)
  /-- The agent cannot be initialised. -/
  | leaveUnready
  | enterLoop
  /-- An iteration of the loop, with what its step, if it makes one, does to the
  conversation, and the verdicts of stop hooks. -/
  | iterate (agentStep : ConversationState → ConversationState) (stopHooks : List HookResult)
  /-- An iteration in which the step raises an exception. -/
  | raise (agentStep : ConversationState → ConversationState)
  | handleException
  | clearRunTask
  | takeFlag (index : Nat)
  | honorFlag (index : Nat)
  /-- A change of the state is logged. -/
  | recordUpdate

inductive ServiceEvent
  /-- A message to be run is in the log. -/
  | appended (message : Message)
  | stepStarted
  deriving DecidableEq

namespace EventService

/-- The coroutine goes on, or ends. -/
def resume (service : EventService) (index : Nat) (next : Option ServiceTask) : EventService :=
  { service with
    tasks := service.tasks.take index ++ next.toList ++ service.tasks.drop (index + 1) }

def start (service : EventService) (task : ServiceTask) : EventService :=
  { service with tasks := service.tasks ++ [task] }

/-- The run task has moved on. -/
def afterPass (service : EventService) : Pass RunState RunState → EventService
  | .leave exit => { service with conversation := exit.state, runTask := some .wrappingUp }
  | .goOn run =>
      { service with conversation := run.state, runTask := some (.looping run.iteration) }

/-- `run` refuses while another run goes on. -/
def refuses (service : EventService) (executionStatus : ConversationExecutionStatus) : Bool :=
  executionStatus = .running || service.runTask.isSome

/-- The call ends with an error. `send_message` asks for another run then. -/
def refuse (service : EventService) (index : Nat) (caller : Caller) : EventService :=
  let service := { service with runLocked := false }.resume index none
  match caller with
  | .sendMessage _ => { service with rerunRequested := true }
  | _ => service

variable (ids : IdSource) (settings : RunSettings)

def step (service : EventService) :
    ServiceStep → Option (EventService × List ServiceEvent)
  | .sendMessage hooks message extendedContent run =>
      some (service.start (.appending hooks message extendedContent run), [])
  | .run => some (service.start (.lockingRun .client), [])
  | .append index =>
      match service.tasks[index]? with
      | some (.appending hooks message extendedContent run) =>
          let conversation := LocalConversation.sendMessage ids hooks message extendedContent
            service.conversation
          let service := { service with conversation, agentReady := true }
          if run then
            some ({ service with unanswered := service.unanswered ++ [message] }.resume index
              (some (.lockingRun (.sendMessage message))), [.appended message])
          else some (service.resume index none, [])
      | _ => none
  | .lockRun index =>
      match service.tasks[index]? with
      | some (.lockingRun caller) =>
          if service.runLocked then none
          else
            some ({ service with runLocked := true }.resume index
              (some (.readingStatus caller)), [])
      | _ => none
  | .readStatus index =>
      match service.tasks[index]? with
      | some (.readingStatus caller) =>
          some (service.resume index
            (some (.decidingRun caller service.conversation.executionStatus)), [])
      | _ => none
  | .decideRun index =>
      match service.tasks[index]? with
      | some (.decidingRun caller executionStatus) =>
          if service.refuses executionStatus then some (service.refuse index caller, [])
          else
            some ({ service with runLocked := false, runTask := some .created }.resume index none,
              [])
      | _ => none
  | .leaveUnready =>
      match service.runTask with
      | some .created =>
          if service.agentReady then none
          else some ({ service with runTask := some .wrappingUp }, [])
      | _ => none
  | .enterLoop =>
      match service.runTask with
      | some .created =>
          some ({ service with
            conversation := LocalConversation.startRun service.conversation
            agentReady := true
            runTask := some (.looping 0) }, [])
      | _ => none
  | .iterate agentStep stopHooks =>
      match service.runTask with
      | some (.looping iteration) =>
          let pass := LocalConversation.lockedPass ids settings
            ⟨fun _ => agentStep, fun _ => stopHooks, fun _ => []⟩ 0
            ⟨service.conversation, iteration⟩
          if LocalConversation.makesStep settings service.conversation then
            some ({ service with unanswered := [] }.afterPass pass, [.stepStarted])
          else some (service.afterPass pass, [])
      | _ => none
  | .raise agentStep =>
      match service.runTask with
      | some (.looping _) =>
          if LocalConversation.makesStep settings service.conversation then
            some ({ service with
              conversation := agentStep (LocalConversation.approve service.conversation)
              runTask := some .failing
              unanswered := [] }, [.stepStarted])
          else none
      | _ => none
  | .handleException =>
      match service.runTask with
      | some .failing =>
          some ({ service with
            conversation := ConversationState.recordInternal ids .conversationError
              { service.conversation with executionStatus := .error }
            runTask := some .wrappingUp }, [])
      | _ => none
  | .clearRunTask =>
      match service.runTask with
      | some .wrappingUp => some ({ service with runTask := none }.start .takingFlag, [])
      | _ => none
  | .takeFlag index =>
      match service.tasks[index]? with
      | some .takingFlag =>
          if service.rerunRequested then
            some ({ service with rerunRequested := false }.resume index (some .honoringFlag), [])
          else some (service.resume index none, [])
      | _ => none
  | .honorFlag index =>
      match service.tasks[index]? with
      | some .honoringFlag =>
          if service.conversation.executionStatus = .idle then
            some (service.resume index (some (.lockingRun .rerun)), [])
          else some (service.resume index none, [])
      | _ => none
  | .recordUpdate =>
      some ({ service with
        conversation :=
          ConversationState.recordInternal ids .conversationStateUpdate service.conversation }, [])

def system : TransitionSystem EventService ServiceStep ServiceEvent where
  step := step ids settings

/-- The service has just been started. -/
def ofConversation (conversation : ConversationState) : EventService where
  conversation

/-- No task is pending. -/
def quiescent (service : EventService) : Bool :=
  service.tasks.isEmpty && service.runTask.isNone

end EventService

end ShuttleFlow
