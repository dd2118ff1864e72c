import ShuttleFlow.Conversation.RunLoop

/-! # The log only grows

Whatever is done to a conversation from outside its agent adds to the log. So does the run loop, if
the steps of the agent do.
-/

namespace ShuttleFlow

/-- The log of the later state continues the log of the earlier one. -/
def Appends (before after : ConversationState) : Prop :=
  before.events <+: after.events

namespace Appends

variable {first middle last : ConversationState}

theorem refl (state : ConversationState) : Appends state state := List.prefix_rfl

theorem trans (hfirst : Appends first middle) (hlast : Appends middle last) : Appends first last :=
  List.IsPrefix.trans hfirst hlast

/-- Only the log matters. -/
theorem congr (happends : Appends first middle) (hevents : last.events = middle.events) :
    Appends first last := by
  unfold Appends
  rw [hevents]
  exact happends

theorem congr_left (happends : Appends middle last) (hevents : first.events = middle.events) :
    Appends first last := by
  unfold Appends
  rw [hevents]
  exact happends

end Appends

namespace ConversationState

variable {ids : IdSource}

theorem defaultCallback_appends (state : ConversationState) (event : Event) :
    Appends state (state.defaultCallback event) :=
  List.prefix_append ..

theorem recordInternal_appends (state : ConversationState) (kind : InternalKind) :
    Appends state (state.recordInternal ids kind) :=
  defaultCallback_appends ..

theorem emitHookExecutionEvents_appends (count : Nat) (state : ConversationState) :
    Appends state (emitHookExecutionEvents ids count state) := by
  induction count generalizing state with
  | zero => exact .refl state
  | succ count ih => exact (recordInternal_appends state .hookExecution).trans (ih _)

theorem handlePreToolUse_appends (hooks : HookManager) (state : ConversationState)
    (action : ActionEvent) : Appends state (handlePreToolUse ids hooks state action) := by
  unfold handlePreToolUse
  dsimp only
  split
  next => exact emitHookExecutionEvents_appends ..
  next => exact (emitHookExecutionEvents_appends _ state).congr rfl

theorem handlePostToolUse_appends (hooks : HookManager) (state : ConversationState)
    (observation : ObservationEvent) :
    Appends state (handlePostToolUse ids hooks state observation) := by
  unfold handlePostToolUse
  dsimp only
  split
  next => exact emitHookExecutionEvents_appends ..
  next => exact .refl state

theorem handleUserPromptSubmit_appends (hooks : HookManager) (state : ConversationState)
    (message : MessageEvent) :
    Appends state (handleUserPromptSubmit ids hooks state message).1 := by
  have hemitted := @emitHookExecutionEvents_appends ids
    (hooks.runUserPromptSubmit message).executed state
  unfold handleUserPromptSubmit
  dsimp only
  split
  all_goals
    split
    · exact hemitted.congr rfl
    · exact hemitted.congr rfl

theorem onEvent_appends (hooks : HookManager) (state : ConversationState) (event : Event) :
    Appends state (state.onEvent ids hooks event) := by
  unfold onEvent
  split
  next action =>
    split
    · exact (handlePreToolUse_appends hooks state action).trans (defaultCallback_appends ..)
    · exact defaultCallback_appends ..
  next observation =>
    exact (handlePostToolUse_appends hooks state observation).trans (defaultCallback_appends ..)
  next message =>
    split
    · exact (handleUserPromptSubmit_appends hooks state message).trans
        (defaultCallback_appends ..)
    · exact defaultCallback_appends ..
  next => exact defaultCallback_appends ..

end ConversationState

namespace LocalConversation

variable {ids : IdSource} {settings : RunSettings} {world : RunWorld}

theorem sendMessage_appends (hooks : HookManager) (message : Message)
    (extendedContent : List Content) (state : ConversationState) :
    Appends state (sendMessage ids hooks message extendedContent state) :=
  (ConversationState.onEvent_appends hooks _ _).congr_left rfl

theorem answerAll_appends (hooks : HookManager) (answer : EventID → ActionEvent → Event)
    (actions : List ActionEvent) (state : ConversationState) :
    Appends state (answerAll ids hooks answer actions state) := by
  induction actions generalizing state with
  | nil => exact .refl state
  | cons action rest ih =>
      have hfirst : Appends state ((state.drawId ids).2.onEvent ids hooks
          (answer (state.drawId ids).1 action)) :=
        (ConversationState.onEvent_appends hooks _ _).congr_left rfl
      exact hfirst.trans (ih _)

theorem rejectPendingActions_appends (hooks : HookManager) (reason : String)
    (state : ConversationState) : Appends state (rejectPendingActions ids hooks reason state) :=
  (answerAll_appends hooks ..).congr_left rfl

theorem interrupt_appends (state : ConversationState) (interruption : Interruption) :
    Appends state (interrupt ids state interruption) := by
  cases interruption with
  | pause =>
      change Appends state (pause ids state)
      unfold pause
      split
      · exact (ConversationState.recordInternal_appends _ _)
      · exact (ConversationState.recordInternal_appends _ _)
      · exact .refl state
  | sendMessage hooks message extendedContent =>
      exact sendMessage_appends hooks message extendedContent state

theorem interruptions_appends (interruptions : List Interruption) (state : ConversationState) :
    Appends state (interruptions.foldl (interrupt ids) state) := by
  induction interruptions generalizing state with
  | nil => exact .refl state
  | cons interruption rest ih => exact (interrupt_appends state interruption).trans (ih _)

theorem resume_appends (feedback : Option String) (state : ConversationState) :
    Appends state (resume ids feedback state) := by
  cases feedback with
  | none => exact (Appends.refl state).congr rfl
  | some feedback =>
      have hlogged : Appends state (state.drawId ids).2 := (Appends.refl state).congr rfl
      exact (hlogged.trans (ConversationState.onEvent_appends {} _ _)).congr rfl

/-- Wherever a pass gets to, the log has only grown. -/
abbrev PassAppends (state : ConversationState) : Pass RunState RunState → Prop :=
  Pass.Keeps (fun run => Appends state run.state) fun run => Appends state run.state

theorem PassAppends.trans {first middle : ConversationState} (hfirst : Appends first middle)
    {pass : Pass RunState RunState} (hpass : PassAppends middle pass) : PassAppends first pass := by
  cases pass with
  | leave exit => exact hfirst.trans hpass
  | goOn next => exact hfirst.trans hpass

theorem stepPass_appends (hagent : ∀ count state, Appends state (world.agentStep count state))
    (run : RunState) : PassAppends run.state (stepPass ids settings world run) := by
  have happrove : (approve run.state).events = run.state.events := by
    unfold approve
    split <;> rfl
  have hstep : Appends run.state (world.agentStep run.iteration (approve run.state)) := by
    have hmade := hagent run.iteration (approve run.state)
    unfold Appends at hmade
    rw [happrove] at hmade
    exact hmade
  unfold stepPass checkStep
  dsimp only
  split
  next => exact hstep
  next =>
    split
    next =>
      split
      next => exact hstep
      next => exact hstep.trans (ConversationState.recordInternal_appends _ _)
    next => exact hstep

theorem lockedPass_appends (hagent : ∀ count state, Appends state (world.agentStep count state))
    (turn : Nat) (run : RunState) :
    PassAppends run.state (lockedPass ids settings world turn run) := by
  have hhooks := @ConversationState.emitHookExecutionEvents_appends ids
    (world.stopHooks turn).length run.state
  unfold lockedPass
  split
  next => exact .refl run.state
  next => exact .refl run.state
  next =>
    dsimp only
    split
    next => exact hhooks
    next feedback _ => exact hhooks.trans (resume_appends feedback _)
  next =>
    split
    next => exact (Appends.refl run.state).congr rfl
    next => exact stepPass_appends hagent run

/-- However the loop is left, the log has only grown. -/
theorem runLoop_appends (hagent : ∀ count state, Appends state (world.agentStep count state))
    {fuel : Nat} {state : ConversationState} {exit : RunState}
    (hloop : runLoop ids settings world fuel state = some exit) : Appends state exit.state := by
  refine @runPasses_sound _ _ _ (fun run => Appends state run.state)
    (fun run => Appends state run.state) ?_ _ _ _ exit ?_ hloop
  · intro turn run hrun
    apply PassAppends.trans
      (hrun.trans (interruptions_appends (world.interruptions turn) run.state))
    exact lockedPass_appends hagent turn
      { run with state := (world.interruptions turn).foldl (interrupt ids) run.state }
  · exact (Appends.refl state).congr (startRun_events state)

end LocalConversation

end ShuttleFlow
