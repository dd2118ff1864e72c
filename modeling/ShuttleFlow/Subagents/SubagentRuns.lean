import ShuttleFlow.Conversation.LocalConversation
import ShuttleFlow.Library.Dict
import ShuttleFlow.Library.Loops

/-! # The final response of an agent

An agent ends a conversation with a call of the finish tool, or with a message. The last of these
in the log is taken to be its response, whichever prompt it belongs to.
-/

namespace ShuttleFlow

def contentToStr (contents : List Content) : List String :=
  contents.map fun
    | .text text => text
    | .image imageUrls => "[Image: " ++ toString imageUrls.length ++ " URLs]"

namespace Event

/-- What the event says to whoever waits for the agent: a call of the finish tool may be
invalid. -/
def reply (finishMessage : Action → String) : Event → Option (Option String)
  | .convertible (.action event) =>
      if event.toolName = finishToolName then
        some ((event.action.filter fun action => action.kind = .finish).map finishMessage)
      else none
  | .convertible (.message event) =>
      if event.source = .agent then
        some (some (String.join (contentToStr event.llmMessage.content)))
      else none
  | _ => none

end Event

section FinalResponse

variable (finishMessage : Action → String)

/-- The last finish action or message of the agent. -/
def lastReply (events : List Event) : Option (Option String) :=
  events.reverse.findSome? (Event.reply finishMessage)

def getAgentFinalResponse (events : List Event) : String :=
  match lastReply finishMessage events with
  | some (some message) => message
  | _ => ""

/-- Some finish action or message of the agent says the text. -/
def Says (events : List Event) (text : String) : Prop :=
  ∃ event ∈ events, event.reply finishMessage = some (some text)

variable {finishMessage} {events earlier later : List Event}

theorem lastReply_append :
    lastReply finishMessage (earlier ++ later) =
      (lastReply finishMessage later).or (lastReply finishMessage earlier) := by
  unfold lastReply
  rw [List.reverse_append, List.findSome?_append]

theorem says_of_lastReply {text : String}
    (hlast : lastReply finishMessage events = some (some text)) :
    Says finishMessage events text := by
  obtain ⟨event, hmem, hreply⟩ := List.exists_of_findSome?_eq_some hlast
  exact ⟨event, List.mem_reverse.mp hmem, hreply⟩

theorem Says.isSome_lastReply {text : String} (hsaid : Says finishMessage events text) :
    (lastReply finishMessage events).isSome := by
  obtain ⟨event, hmem, hreply⟩ := hsaid
  unfold lastReply
  rw [List.findSome?_isSome_iff]
  exact ⟨event, List.mem_reverse.mpr hmem, by rw [hreply]; rfl⟩

end FinalResponse

end ShuttleFlow

/-! ## Runs of sub-agents

A sub-agent is sent a prompt and run until it does not ask for confirmation any more. Its final
response is then reported to the parent, by the task manager or by the delegate executor.
-/

namespace ShuttleFlow

inductive TaskStatus
  | running | completed | error
  deriving DecidableEq, Repr

structure SubagentTask where
  id : String
  status : TaskStatus
  result : Option String := none
  error : Option String := none
  deriving DecidableEq, Repr

namespace SubagentTask

def setResult (task : SubagentTask) (result : String) : SubagentTask :=
  { task with result := some result, error := none, status := .completed }

def setError (task : SubagentTask) (error : String) : SubagentTask :=
  { task with error := some error, result := none, status := .error }

end SubagentTask

/-- How a run of a conversation ends: it returns, or it raises. -/
structure RunEnd where
  state : ConversationState
  raised : Option String := none

/-- What the runs of a conversation do, counted from the prompt. They only add to the log, and may
not end at all. -/
structure ConversationRuns where
  run : Nat → ConversationState → Option RunEnd
  appends : ∀ count state ended, run count state = some ended →
    state.events <+: ended.state.events

/-- A sub-agent that is given a prompt, and what its conversation meets. -/
structure PromptedSubagent where
  ids : IdSource
  hooks : HookManager := {}
  prompt : Message
  extendedContent : List Content := []
  /-- Why the prompt could not be sent. -/
  sendError : Option String := none
  runs : ConversationRuns
  /-- What the handler answers, if there is one: it may raise. -/
  confirmationHandler : Option (Nat → List ActionEvent → Except String Bool) := none
  state : ConversationState

namespace PromptedSubagent

variable (subagent : PromptedSubagent)

/-- The conversation when the prompt has been sent. -/
def sent : ConversationState :=
  match subagent.sendError with
  | some _ => subagent.state
  | none =>
      LocalConversation.sendMessage subagent.ids subagent.hooks subagent.prompt
        subagent.extendedContent subagent.state

/-- Without a handler everything is approved. -/
def confirm (count : Nat) (pending : List ActionEvent) : Except String Bool :=
  match subagent.confirmationHandler with
  | none => .ok true
  | some handler => handler count pending

/-- Run the conversation, and see whether it waits for a confirmation. -/
def runPass (count : Nat) (state : ConversationState) : Pass (Option RunEnd) ConversationState :=
  match subagent.runs.run count state with
  | none => .leave none
  | some ended =>
      if ended.raised.isSome ∨ ended.state.executionStatus ≠ .waitingForConfirmation then
        .leave (some ended)
      else
        match ConversationState.getUnmatchedActions ended.state.events with
        | [] => .leave (some ended)
        | pending =>
            match subagent.confirm count pending with
            | .error error => .leave (some { ended with raised := some error })
            | .ok true => .goOn ended.state
            | .ok false =>
                .goOn (LocalConversation.rejectPendingActions subagent.ids subagent.hooks
                  "User rejected the actions" ended.state)

def runUntilFinished (fuel : Nat) : Option RunEnd :=
  (runPasses subagent.runPass fuel 0 subagent.sent).join

/-- How sending the prompt and running the sub-agent ends. -/
def ends (fuel : Nat) : Option RunEnd :=
  match subagent.sendError with
  | some error => some { state := subagent.sent, raised := some error }
  | none => subagent.runUntilFinished fuel

variable (finishMessage : Action → String)

/-- The task manager takes the response for the result unless the run raises. -/
def runTask (fuel : Nat) (task : SubagentTask) : Option SubagentTask :=
  (subagent.ends fuel).map fun ended =>
    match ended.raised with
    | some error => task.setError error
    | none => task.setResult (getAgentFinalResponse finishMessage ended.state.events)

def noResponse : String := "No response from sub-agent"

/-- The delegate executor does so too, but does not report an empty text. -/
def runDelegated (fuel : Nat) (agentId : String) : Option (Except String String) :=
  (subagent.ends fuel).map fun ended =>
    match ended.raised with
    | some error => .error ("Sub-agent " ++ agentId ++ " failed: " ++ error)
    | none =>
        let finalResponse := getAgentFinalResponse finishMessage ended.state.events
        .ok (if finalResponse = "" then noResponse else finalResponse)

end PromptedSubagent

/-! ## What the parent is told -/

structure SubagentObservation where
  text : String
  isError : Bool := false
  deriving DecidableEq, Repr

/-- The observation of the task tool. -/
def SubagentTask.observation (task : SubagentTask) : SubagentObservation :=
  let orElse (text : Option String) (default : String) : String :=
    match text with
    | none | some "" => default
    | some text => text
  match task.status with
  | .completed => { text := orElse task.result "Task completed with no result." }
  | .error => { text := orElse task.error "Task failed.", isError := true }
  | .running =>
      { text := "Failed to execute task: Unknown task status: running", isError := true }

namespace DelegateExecutor

/-- One line of the summary. -/
def reportLine (agentId : String) : Except String String → String
  | .ok result => "Agent " ++ agentId ++ ": " ++ result
  | .error error => "Agent " ++ agentId ++ " ERROR: " ++ error

def outputText (reports : List (String × Except String String)) : String :=
  let errors := reports.countP fun report => report.2.isOk = false
  let lines := reports.zipIdx.map fun report =>
    toString (report.2 + 1) ++ ". " ++ reportLine report.1.1 report.1.2
  "Completed delegation of " ++ toString reports.length ++ " tasks" ++
    (if errors = 0 then "" else " with " ++ toString errors ++ " errors") ++
    (if reports = [] then "" else "\n\nResults:\n" ++ "\n".intercalate lines)

def runTask (finishMessage : Action → String) (fuel : Nat) (task : String × PromptedSubagent) :
    Option (String × Except String String) :=
  (task.2.runDelegated finishMessage fuel task.1).map fun report => (task.1, report)

/-- Delegate to agents that have been spawned, each with its own conversation, and wait for all of
them. -/
def delegateTasks (finishMessage : Action → String) (fuel : Nat) (spawned : List String)
    (tasks : Dict String PromptedSubagent) :
    Option (SubagentObservation × List (String × Except String String)) :=
  if tasks.entries = [] then
    some ({ text := "at least one task is required for delegate action", isError := true }, [])
  else
    match tasks.keys.filter fun agentId => agentId ∉ spawned with
    | missing@(_ :: _) =>
        some ({ text := "sub-agents not found: " ++ ", ".intercalate missing ++
          ". Available agents: " ++ ", ".intercalate spawned, isError := true }, [])
    | [] =>
        (tasks.entries.mapM (runTask finishMessage fuel)).map fun reports =>
          ({ text := outputText reports }, reports)

end DelegateExecutor

end ShuttleFlow
