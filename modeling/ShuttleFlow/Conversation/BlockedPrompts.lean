import ShuttleFlow.Conversation.Blocks
import ShuttleFlow.Conversation.HookResults

/-! # Blocked user messages

A hook that blocks a user message makes the next step end the run. The block is
recorded under the id the message is sent with, and looked up under the id it is
logged with.
-/

namespace ShuttleFlow

/-- The hooks for prompts answer with these results. -/
def HookManager.answering (hooks : HookManager) (results : List HookResult) : HookManager :=
  { hooks with
    runUserPromptSubmit := fun _ =>
      { executed := results.length, blockingReason := HookResult.blockReason results }
    additionalContext := fun _ => HookResult.joinedContext results }

/-! ## Whom a step consults -/

inductive Consulted
  | nobody | condenser | model
  deriving DecidableEq, Repr

namespace Agent

/-- Pending actions and blocked messages end a step before anybody is consulted;
a plan of the condenser ends it before the model is. -/
def consulted (env : Environment) (state : ConversationState) : Consulted :=
  match ConversationState.getUnmatchedActions state.events with
  | _ :: _ => .nobody
  | [] =>
      match popBlockedUserMessage state with
      | (some _, _) => .nobody
      | (none, state) =>
          if (env.condense (View.fromEvents state.events)).isSome then .condenser else .model

variable {ids : IdSource} {env : Environment} {state : ConversationState}

theorem popBlockedUserMessage_of_none (hnone : (popBlockedUserMessage state).1 = none) :
    popBlockedUserMessage state = (none, state) := by
  revert hnone
  unfold popBlockedUserMessage ConversationState.popBlockedMessage
  split
  · split <;> simp
  · simp

end Agent

/-! ## The block of a message -/

namespace ConversationState

variable {ids : IdSource} {hooks : HookManager}

@[simp] theorem emitHookExecutionEvents_executionStatus (count : Nat) (state : ConversationState) :
    (emitHookExecutionEvents ids count state).executionStatus = state.executionStatus := by
  induction count generalizing state with
  | zero => rfl
  | succ count ih => exact ih _

theorem onEvent_message_executionStatus (state : ConversationState) (message : MessageEvent) :
    (state.onEvent ids hooks (.convertible (.message message))).executionStatus =
      state.executionStatus := by
  by_cases huser : message.source = .user
  · cases hreason : (hooks.runUserPromptSubmit message).blockingReason <;>
      cases hcontext : hooks.additionalContext message <;>
      simp [onEvent, huser, handleUserPromptSubmit, hreason, hcontext, defaultCallback,
        blockMessage, drawId]
  · simp [onEvent, huser, defaultCallback]

/-- Without context the message keeps the id it is blocked under. -/
theorem onEvent_blocks (state : ConversationState) {message : MessageEvent} {reason : String}
    (huser : message.source = .user)
    (hreason : (hooks.runUserPromptSubmit message).blockingReason = some reason)
    (hcontext : hooks.additionalContext message = none) :
    (Agent.popBlockedUserMessage
      (state.onEvent ids hooks (.convertible (.message message)))).1 = some reason := by
  simp [onEvent, huser, handleUserPromptSubmit, hreason, hcontext, defaultCallback, blockMessage,
    Agent.popBlockedUserMessage, popBlockedMessage]

/-- With context the message is logged under an id that is drawn after the block
has been recorded. -/
theorem onEvent_bypasses {state : ConversationState} {message : MessageEvent} {context : String}
    (huser : message.source = .user) (hcontext : hooks.additionalContext message = some context)
    (hdrawn : Drawn ids state message.id)
    (hblocked : ∀ id, (state.blockedMessages id).isSome → Drawn ids state id) :
    (Agent.popBlockedUserMessage
      (state.onEvent ids hooks (.convertible (.message message)))).1 = none := by
  have hevents := @emitHookExecutionEvents_keeps ids
    (hooks.runUserPromptSubmit message).executed state
  generalize hemitted : emitHookExecutionEvents ids (hooks.runUserPromptSubmit message).executed
    state = emitted at hevents
  have hfresh : ∀ id, Drawn ids emitted id → id ≠ ids.uuid emitted.drawn := by
    rintro _ ⟨index, hlt, rfl⟩ hsame
    exact absurd (ids.injective hsame) (by omega)
  have hkept : ∀ id, Drawn ids state id → Drawn ids emitted id :=
    fun id ⟨index, hlt, hid⟩ => ⟨index, hlt.trans_le hevents.drawn, hid⟩
  have hfree : emitted.blockedMessages (ids.uuid emitted.drawn) = none := by
    refine Option.not_isSome_iff_eq_none.mp fun hsome => ?_
    rcases hevents.blockedMessages _ hsome with hold | hnew
    · exact hfresh _ (hkept _ (hblocked _ hold)) rfl
    · exact hfresh _ hnew rfl
  cases hreason : (hooks.runUserPromptSubmit message).blockingReason with
  | none =>
      simp [onEvent, huser, handleUserPromptSubmit, hreason, hcontext, hemitted, defaultCallback,
        Agent.popBlockedUserMessage, popBlockedMessage, drawId, hfree]
  | some reason =>
      have hother := hfresh _ (hkept _ hdrawn)
      simp [onEvent, huser, handleUserPromptSubmit, hreason, hcontext, hemitted, defaultCallback,
        Agent.popBlockedUserMessage, popBlockedMessage, drawId, blockMessage, hother.symm, hfree]

end ConversationState

namespace LocalConversation

variable {ids : IdSource} {hooks : HookManager} {message : Message}
variable {extendedContent : List Content} {state : ConversationState}

/-- A new message leaves no conversation finished. -/
theorem sendMessage_executionStatus :
    (sendMessage ids hooks message extendedContent state).executionStatus ≠ .finished := by
  simp only [sendMessage, ConversationState.onEvent_message_executionStatus,
    ConversationState.drawId]
  cases state.executionStatus <;> simp

theorem sendMessage_unmatched
    (hunmatched : ConversationState.getUnmatchedActions state.events = []) :
    ConversationState.getUnmatchedActions
      (sendMessage ids hooks message extendedContent state).events = [] := by
  obtain ⟨trailing, hpasses⟩ := @sendMessage_spec ids hooks message extendedContent state
  have hturn : Turn ids state (sendMessage ids hooks message extendedContent state)
    (.sendMessage hooks message extendedContent) [] [] trailing := .ofPasses hpasses
  exact List.eq_nil_of_sublist_nil (by simpa [hunmatched] using hturn.unmatched_sublist)

/-- When some hook blocks a message, the next step finishes without consulting
anybody exactly when no hook adds context to the message. Otherwise the step
asks the model, unless the condenser is first. -/
theorem step_blocked_iff (hstate : Reachable ids state)
    (hpending : ConversationState.getUnmatchedActions state.events = [])
    {results : List HookResult} (hblocks : ∃ result ∈ results, result.shouldContinue = false)
    (env : Environment) :
    let sent := sendMessage ids (hooks.answering results) message extendedContent state
    let stepped := Agent.step ids env sent
    let unchanged := ∀ result ∈ results, HookResult.text? result.additionalContext = none
    (Agent.consulted env sent = .nobody ∧ stepped.executionStatus = .finished ↔ unchanged) ∧
      (Agent.consulted env sent ≠ .model ∧ stepped.executionStatus = .finished ↔ unchanged) := by
  intro sent stepped unchanged
  have hunmatched : ConversationState.getUnmatchedActions sent.events = [] :=
    sendMessage_unmatched hpending
  obtain ⟨reason, hreason⟩ := Option.isSome_iff_exists.mp (HookResult.blockReason_isSome hblocks)
  have hunchanged : unchanged ↔ HookResult.joinedContext results = none :=
    HookResult.joinedContext_eq_none_iff.symm
  cases hcontext : HookResult.joinedContext results with
  | none =>
      have hpop : (Agent.popBlockedUserMessage sent).1 = some reason :=
        ConversationState.onEvent_blocks _ rfl hreason hcontext
      obtain ⟨popped, hpop⟩ : ∃ popped,
        Agent.popBlockedUserMessage sent = (some reason, popped) := ⟨_, Prod.ext hpop rfl⟩
      have hnobody : Agent.consulted env sent = .nobody := by
        simp only [Agent.consulted, hunmatched, hpop]
      have hfinished : stepped.executionStatus = .finished := by
        simp only [stepped, Agent.step, hunmatched, hpop]
      simp [hunchanged, hcontext, hnobody, hfinished]
  | some context =>
      have hpop : (Agent.popBlockedUserMessage sent).1 = none := by
        refine ConversationState.onEvent_bypasses rfl hcontext (ConversationState.drawId_drawn _)
          fun id hblocked => ?_
        obtain ⟨index, hlt, hid⟩ := hstate.blockedMessages_drawn id hblocked
        exact ⟨index, Nat.lt_succ_of_lt hlt, hid⟩
      replace hpop := Agent.popBlockedUserMessage_of_none hpop
      rw [hunchanged, hcontext]
      cases hplan : env.condense (View.fromEvents sent.events) with
      | some plan =>
          have hcondenser : Agent.consulted env sent = .condenser := by
            simp [Agent.consulted, hunmatched, hpop, hplan]
          have hrunning : stepped.executionStatus ≠ .finished := by
            simp only [stepped, Agent.step, hunmatched, hpop, Agent.condenseOrSample, hplan]
            exact sendMessage_executionStatus
          simp [hcondenser, hrunning]
      | none =>
          have hmodel : Agent.consulted env sent = .model := by
            simp [Agent.consulted, hunmatched, hpop, hplan]
          simp [hmodel]

end LocalConversation

section Prompts

open Sample

/-- A hook that denies the prompt finishes the run. -/
theorem LocalConversation.step_blocked_iff_denied :
    let env := environment (.historyError false)
    let sent := LocalConversation.sendMessage ids
      (HookManager.answering {} [{}, { decision := some .deny }]) { role := .user } [] started
    Agent.consulted env sent = .nobody ∧
      (Agent.step ids env sent).executionStatus = .finished := by
  intro env sent
  exact (LocalConversation.step_blocked_iff (.init "" none) (by decide)
    ⟨_, .tail _ (.head _), by decide⟩ env).1.mpr (by decide)

/-- A hook that blocks the prompt and explains itself in the context lets it pass. -/
theorem LocalConversation.step_blocked_passes :
    let result : HookResult := { blocked := true, additionalContext := some "policy" }
    let env := environment (.response ⟨"r", { role := .assistant, content := [.text "done"] }⟩)
    let sent := LocalConversation.sendMessage ids (HookManager.answering {} [result])
      { role := .user } [] started
    Reachable ids started ∧ ConversationState.getUnmatchedActions started.events = [] ∧
      result.shouldContinue = false ∧ Agent.consulted env sent = .model := by
  intro result env sent
  exact ⟨.init "" none, by decide, by decide, by decide⟩

end Prompts

end ShuttleFlow
