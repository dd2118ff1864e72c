import ShuttleFlow.Conversation.Runs
import ShuttleFlow.Library.Transitions

/-! # Forks

A fork copies the events of a conversation and starts idle. What hooks have
blocked is not copied. A history leads through the operations on a conversation
and, before its forks, on those it was forked from.
-/

namespace ShuttleFlow

namespace ActionBatch

/-- The actions of a batch whose tools are run. -/
def executed (state : ConversationState) (actionEvents : List ActionEvent) : List ActionEvent :=
  (partitionBlocked state (truncateAtFinish actionEvents).1).2.1

end ActionBatch

namespace Agent

variable (ids : IdSource) (env : Environment)

/-- The executable actions a step logs, and the state after it has logged them. -/
def emitted (state : ConversationState) : List ActionEvent × ConversationState :=
  match ConversationState.getUnmatchedActions state.events with
  | _ :: _ => ([], state)
  | [] =>
      match popBlockedUserMessage state with
      | (some _, state) => ([], state)
      | (none, state) =>
          match env.condense (View.fromEvents state.events), env.completion with
          | none, .response response =>
              emitToolCalls ids env response.id state (Message.header response.message)
                response.message.calls
          | _, _ => ([], state)

/-- The actions whose tools a step runs: those pending, or those it logs. -/
def executed (state : ConversationState) : List ActionEvent :=
  match ConversationState.getUnmatchedActions state.events with
  | pending@(_ :: _) => ActionBatch.executed state pending
  | [] =>
      let (actionEvents, state) := emitted ids env state
      if requiresUserConfirmation env actionEvents then []
      else ActionBatch.executed state actionEvents

end Agent

namespace LocalConversation

def fork (state : ConversationState) : ConversationState :=
  { events := state.events, drawn := state.drawn }

end LocalConversation

inductive HistoryStep
  | apply (operation : Operation)
  | fork

/-- What is seen of actions: that a hook blocks one, and that its tool is run. -/
inductive HistoryEvent
  | blocked (action : ActionEvent)
  | ran (action : ActionEvent)
  deriving DecidableEq

namespace History

variable (ids : IdSource)

/-- The actions an operation logs and a hook blocks, then those it executes. -/
def seen (state : ConversationState) : Operation → List HistoryEvent
  | .step env =>
      ((Agent.emitted ids env state).1.filter fun action =>
        (env.hooks.runPreToolUse action).blockingReason.isSome).map .blocked ++
      (Agent.executed ids env state).map .ran
  | _ => []

def system : TransitionSystem ConversationState HistoryStep HistoryEvent where
  step state
    | .apply operation =>
        some (LocalConversation.apply ids state operation, seen ids state operation)
    | .fork => some (LocalConversation.fork state, [])

/-- No fork copies an action whose block it would lose. -/
def carriesBlocks (state : ConversationState) : HistoryStep → Bool
  | .apply _ => true
  | .fork => (ConversationState.getUnmatchedActions state.events).all fun action =>
      (state.blockedActions action.id).isNone

end History

/-! ## What is executed -/

namespace Agent

variable {ids : IdSource} {env : Environment}

theorem executeBatch_congr {runTool other : ActionEvent → ToolOutcome} {actions : List ActionEvent}
    (hsame : ∀ action ∈ actions, runTool action = other action) (state : ConversationState) :
    ActionBatch.executeBatch ids runTool state actions =
      ActionBatch.executeBatch ids other state actions := by
  induction actions generalizing state with
  | nil => rfl
  | cons action rest ih =>
      simp only [ActionBatch.executeBatch, hsame action List.mem_cons_self]
      rw [ih fun action haction => hsame action (.tail _ haction)]

theorem executeActions_congr {runTool : ActionEvent → ToolOutcome} {actions : List ActionEvent}
    {state : ConversationState}
    (hsame : ∀ action ∈ ActionBatch.executed state actions, env.runTool action = runTool action) :
    executeActions ids { env with runTool } state actions =
      executeActions ids env state actions := by
  have hprepare : ActionBatch.prepare ids { env.toExecutor with runTool } state actions =
      ActionBatch.prepare ids env.toExecutor state actions := by
    simp only [ActionBatch.executed] at hsame
    simp only [ActionBatch.prepare, executeBatch_congr hsame]
  simp only [executeActions, ActionBatch.executeActions, hprepare]
  rfl

theorem emitToolCalls_congr (runTool : ActionEvent → ToolOutcome) (llmResponseId : EventID)
    (state : ConversationState) (header : Header) (toolCalls : List MessageToolCall) :
    emitToolCalls ids { env with runTool } llmResponseId state header toolCalls =
      emitToolCalls ids env llmResponseId state header toolCalls := by
  induction toolCalls generalizing state header with
  | nil => rfl
  | cons toolCall rest ih =>
      simp only [emitToolCalls, ih]
      rfl

theorem handleToolCalls_congr {runTool : ActionEvent → ToolOutcome} {state : ConversationState}
    {response : LLMResponse} {actions : List ActionEvent} {logged : ConversationState}
    (hemit : emitToolCalls ids env response.id state (Message.header response.message)
      response.message.calls = (actions, logged))
    (hsame : requiresUserConfirmation env actions = false →
      ∀ action ∈ ActionBatch.executed logged actions, env.runTool action = runTool action) :
    handleToolCalls ids { env with runTool } state response =
      handleToolCalls ids env state response := by
  have hconfirm : requiresUserConfirmation { env with runTool } actions =
    requiresUserConfirmation env actions := rfl
  simp only [handleToolCalls, emitToolCalls_congr, hemit, hconfirm]
  by_cases hasks : requiresUserConfirmation env actions
  · simp only [hasks, if_true]
  · simp only [hasks, Bool.false_eq_true, if_false]
    rw [executeActions_congr (hsame (by simpa using hasks))]
    rfl

theorem handleResponse_congr {runTool : ActionEvent → ToolOutcome} {state : ConversationState}
    {response : LLMResponse} (hsame : response.message.calls ≠ [] →
      handleToolCalls ids { env with runTool } state response =
        handleToolCalls ids env state response) :
    handleResponse ids { env with runTool } state response =
      handleResponse ids env state response := by
  by_cases hcalls : response.message.calls = []
  · have hother : classifyResponse response.message ≠ .toolCalls :=
      fun htools => classifyResponse_toolCalls.mp htools hcalls
    unfold handleResponse
    split
    next htools => exact absurd htools hother
    all_goals rfl
  · rw [handleResponse_toolCalls hcalls, handleResponse_toolCalls hcalls]
    exact hsame hcalls

theorem sample_response {state : ConversationState} {response : LLMResponse}
    (hresponse : env.completion = .response response) :
    sample ids env state = handleResponse ids env state response := by
  simp only [sample, hresponse]

theorem sample_congr {runTool : ActionEvent → ToolOutcome} {state : ConversationState}
    (hsame : ∀ response, env.completion = .response response → response.message.calls ≠ [] →
      handleToolCalls ids { env with runTool } state response =
        handleToolCalls ids env state response) :
    sample ids { env with runTool } state = sample ids env state := by
  by_cases hsome : ∃ response, env.completion = .response response
  · obtain ⟨response, hresponse⟩ := hsome
    calc sample ids { env with runTool } state
        = handleResponse ids { env with runTool } state response := sample_response hresponse
      _ = handleResponse ids env state response := handleResponse_congr (hsame response hresponse)
      _ = sample ids env state := (sample_response hresponse).symm
  · unfold sample
    cases hcompletion : env.completion with
    | response response => exact absurd ⟨response, hcompletion⟩ hsome
    | functionCallValidationError text => rfl
    | historyError handled => cases handled <;> rfl

/-- A step runs no other tools: what they would result in does not matter. -/
theorem step_congr {runTool : ActionEvent → ToolOutcome} {state : ConversationState}
    (hsame : ∀ action ∈ executed ids env state, env.runTool action = runTool action) :
    step ids { env with runTool } state = step ids env state := by
  unfold executed emitted at hsame
  cases hunmatched : ConversationState.getUnmatchedActions state.events with
  | cons action rest =>
      simp only [hunmatched] at hsame
      simp only [step, hunmatched]
      exact executeActions_congr hsame
  | nil =>
      simp only [hunmatched] at hsame
      simp only [step, hunmatched]
      obtain ⟨reason, popped, hpop⟩ : ∃ reason popped,
        popBlockedUserMessage state = (reason, popped) := ⟨_, _, rfl⟩
      simp only [hpop] at hsame ⊢
      cases reason with
      | some reason => rfl
      | none =>
          simp only [condenseOrSample] at hsame ⊢
          cases hplan : env.condense (View.fromEvents popped.events) with
          | some plan => rfl
          | none =>
              refine sample_congr fun response hresponse hcalls => ?_
              refine handleToolCalls_congr rfl fun hasks => ?_
              simpa only [hplan, hresponse, hasks, Bool.false_eq_true, if_false] using hsame

open Sample in
/-- A call behind the finishing one is not executed. -/
theorem step_congr_finishing :
    let env := environment (.response
      (response "r" [toolCall "c1" finishToolName, toolCall "c2" "tool"]))
    step Sample.ids { env with runTool := fun action =>
      if action.toolCallId = "c2" then .valueError "" else .observation ⟨[]⟩ } started =
      step Sample.ids env started := by
  intro env
  exact step_congr (by decide)

end Agent

end ShuttleFlow
