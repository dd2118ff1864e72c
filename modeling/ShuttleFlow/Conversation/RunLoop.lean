import ShuttleFlow.Conversation.BlockedPrompts
import ShuttleFlow.Conversation.StuckDetector
import ShuttleFlow.Library.Loops

/-! # The run loop

Each iteration holds the state lock; between two of them other threads may pause
the conversation or send messages. An iteration leaves the loop, or goes on with
or without a step of the agent.
-/

namespace ShuttleFlow

/-- The limit of a conversation is checked when its state is created. -/
structure RunSettings where
  maxIterationPerRun : Nat
  maxIterationPerRun_pos : 0 < maxIterationPerRun
  stuckDetector : Option StuckDetector

/-- What another thread may call between two iterations. -/
inductive Interruption
  | pause
  | sendMessage (hooks : HookManager) (message : Message) (extendedContent : List Content)

/-- What the loop meets outside: the agent, whose steps may do anything to the
state, the stop hooks, and other threads. -/
structure RunWorld where
  agentStep : Nat → ConversationState → ConversationState
  stopHooks : Nat → List HookResult
  interruptions : Nat → List Interruption

/-- The state between two iterations, and how many steps the agent has made. -/
structure RunState where
  state : ConversationState
  iteration : Nat := 0

namespace LocalConversation

variable (ids : IdSource) (settings : RunSettings) (world : RunWorld)

def interrupt (state : ConversationState) : Interruption → ConversationState
  | .pause => pause ids state
  | .sendMessage hooks message extendedContent =>
      sendMessage ids hooks message extendedContent state

def isStuck (state : ConversationState) : Bool :=
  settings.stuckDetector.any fun detector => detector.isStuck state.events

/-- A stop hook denied stopping. -/
def resume (feedback : Option String) (state : ConversationState) : ConversationState :=
  match feedback with
  | some feedback => sendFeedback ids {} feedback state
  | none => { state with executionStatus := .running }

/-- Clear the flag before the agent's step: the user approved. -/
def approve (state : ConversationState) : ConversationState :=
  if state.executionStatus = .waitingForConfirmation then
    { state with executionStatus := .running }
  else state

/-- The checks after a step. A status of finished is left to the next iteration,
which may find a new message. -/
def checkStep (run : RunState) : Pass RunState RunState :=
  if run.state.executionStatus = .waitingForConfirmation then .leave run
  else if settings.maxIterationPerRun ≤ run.iteration then
    if run.state.executionStatus = .finished then .leave run
    else
      .leave { run with
        state := ConversationState.recordInternal ids .conversationError
          { run.state with executionStatus := .error } }
  else .goOn run

def stepPass (run : RunState) : Pass RunState RunState :=
  checkStep ids settings
    { state := world.agentStep run.iteration (approve run.state)
      iteration := run.iteration + 1 }

/-- The part of an iteration under the lock. -/
def lockedPass (turn : Nat) (run : RunState) : Pass RunState RunState :=
  match run.state.executionStatus with
  | .paused | .stuck => .leave run
  | .finished =>
      let results := world.stopHooks turn
      let state := ConversationState.emitHookExecutionEvents ids results.length run.state
      match HookResult.runStop results with
      | (true, _) => .leave { run with state }
      | (false, feedback) => .goOn { run with state := resume ids feedback state }
  | _ =>
      if isStuck settings run.state then
        .goOn { run with state := { run.state with executionStatus := .stuck } }
      else stepPass ids settings world run

/-- The next iteration makes a step of the agent. -/
def makesStep (state : ConversationState) : Bool :=
  match state.executionStatus with
  | .paused | .stuck | .finished => false
  | _ => !isStuck settings state

/-- Other threads first, then the iteration. -/
def runPass (turn : Nat) (run : RunState) : Pass RunState RunState :=
  lockedPass ids settings world turn
    { run with state := (world.interruptions turn).foldl (interrupt ids) run.state }

def startRun (state : ConversationState) : ConversationState :=
  match state.executionStatus with
  | .idle | .paused | .error | .stuck => { state with executionStatus := .running }
  | _ => state

def runLoop (fuel : Nat) (state : ConversationState) : Option RunState :=
  runPasses (runPass ids settings world) fuel 0 { state := startRun state }

end LocalConversation

/-! ## What bounds the loop -/

namespace LocalConversation

variable {ids : IdSource} {settings : RunSettings} {world : RunWorld}

/-- The next iteration leaves the loop, or is not stuck. -/
def Settled (settings : RunSettings) (state : ConversationState) : Prop :=
  state.executionStatus = .paused ∨ state.executionStatus = .stuck ∨
    isStuck settings state = false

open Classical in
/-- How many iterations may go on without a step of the agent: one that is
denied to stop, and one that finds the agent stuck. -/
noncomputable def rank (settings : RunSettings) (state : ConversationState) : Nat :=
  if state.executionStatus = .finished then 2
  else if Settled settings state then 0 else 1

theorem rank_le_two (state : ConversationState) : rank settings state ≤ 2 := by
  unfold rank
  split_ifs <;> omega

theorem rank_of_settled {state : ConversationState}
    (hrunning : state.executionStatus ≠ .finished) (hsettled : Settled settings state) :
    rank settings state = 0 := by
  simp [rank, hrunning, hsettled]

theorem rank_le_one {state : ConversationState} (hrunning : state.executionStatus ≠ .finished) :
    rank settings state ≤ 1 := by
  unfold rank
  rw [if_neg hrunning]
  split_ifs <;> omega

theorem isStuck_of_awaitsAgent {state : ConversationState}
    (hawaits : StuckDetector.AwaitsAgent state.events) : isStuck settings state = false := by
  unfold isStuck
  cases settings.stuckDetector with
  | none => rfl
  | some detector => exact detector.isStuck_of_awaitsAgent hawaits

/-- A message from the user is the last event. -/
theorem onEvent_awaitsAgent {hooks : HookManager} (state : ConversationState)
    {message : MessageEvent} (huser : message.source = .user) :
    StuckDetector.AwaitsAgent
      (state.onEvent ids hooks (.convertible (.message message))).events := by
  obtain ⟨hookIds, logged, ⟨hevents, -⟩, hsource, -⟩ :=
    @ConversationState.onEvent_message ids hooks state message
  rw [hevents]
  exact .of_userMessage _ (by simp [StuckDetector.isUserMessage, hsource, huser])

theorem sendMessage_awaitsAgent {hooks : HookManager} {message : Message}
    {extendedContent : List Content} {state : ConversationState} :
    StuckDetector.AwaitsAgent (sendMessage ids hooks message extendedContent state).events :=
  onEvent_awaitsAgent _ rfl

theorem sendMessage_settled {hooks : HookManager} {message : Message}
    {extendedContent : List Content} {state : ConversationState} :
    Settled settings (sendMessage ids hooks message extendedContent state) :=
  .inr (.inr (isStuck_of_awaitsAgent sendMessage_awaitsAgent))

theorem startRun_events (state : ConversationState) : (startRun state).events = state.events := by
  unfold startRun
  split <;> rfl

theorem startRun_executionStatus (state : ConversationState) :
    (startRun state).executionStatus = state.executionStatus ∨
      (startRun state).executionStatus = .running := by
  unfold startRun
  split
  · exact .inr rfl
  · exact .inr rfl
  · exact .inr rfl
  · exact .inr rfl
  · exact .inl rfl

theorem startRun_not_paused (state : ConversationState) :
    (startRun state).executionStatus ≠ .paused := by
  unfold startRun
  split
  · simp
  · simp
  · simp
  · simp
  next hpaused _ _ => exact hpaused

theorem pause_executionStatus (state : ConversationState) :
    pause ids state = state ∨ (pause ids state).executionStatus = .paused := by
  unfold pause
  split
  · exact .inr rfl
  · exact .inr rfl
  · exact .inl rfl

/-- Other threads do not give the loop more to do without the agent. -/
theorem rank_interrupt_le (state : ConversationState) (interruption : Interruption) :
    rank settings (interrupt ids state interruption) ≤ rank settings state := by
  cases interruption with
  | pause =>
      change rank settings (pause ids state) ≤ rank settings state
      rcases @pause_executionStatus ids state with hsame | hpaused
      · rw [hsame]
      · rw [rank_of_settled (by simp [hpaused]) (.inl hpaused)]
        exact Nat.zero_le _
  | sendMessage hooks message extendedContent =>
      rw [interrupt, rank_of_settled sendMessage_executionStatus sendMessage_settled]
      exact Nat.zero_le _

theorem rank_interruptions_le (interruptions : List Interruption) (state : ConversationState) :
    rank settings (interruptions.foldl (interrupt ids) state) ≤ rank settings state := by
  induction interruptions generalizing state with
  | nil => exact le_rfl
  | cons interruption rest ih => exact (ih _).trans (rank_interrupt_le state interruption)

/-- The statuses in which the loop is left. -/
def leavesWith : List ConversationExecutionStatus :=
  [.paused, .stuck, .finished, .waitingForConfirmation, .error]

/-- Steps that are still possible count three each: with the two iterations
that may precede them. -/
noncomputable def remaining (settings : RunSettings) (run : RunState) : Nat :=
  3 * (settings.maxIterationPerRun - run.iteration - 1) + rank settings run.state

/-- What holds when the loop is left. -/
def Left (settings : RunSettings) (run : RunState) : Prop :=
  run.iteration ≤ settings.maxIterationPerRun ∧ run.state.executionStatus ∈ leavesWith

/-- What a pass from a state with steps left is to achieve. -/
abbrev GetsOn (settings : RunSettings) : RunState → Pass RunState RunState → Prop :=
  Progresses (fun run => run.iteration < settings.maxIterationPerRun)
    (remaining settings) (Left settings)

theorem stepPass_getsOn {run : RunState} (hlimit : run.iteration < settings.maxIterationPerRun) :
    GetsOn settings run (stepPass ids settings world run) := by
  unfold stepPass checkStep
  generalize hnext : world.agentStep run.iteration (approve run.state) = next
  by_cases hwaiting : next.executionStatus = .waitingForConfirmation
  · rw [if_pos hwaiting]
    exact ⟨hlimit, by simp [hwaiting, leavesWith]⟩
  rw [if_neg hwaiting]
  by_cases hlast : settings.maxIterationPerRun ≤ run.iteration + 1
  · rw [if_pos hlast]
    by_cases hfinished : next.executionStatus = .finished
    · rw [if_pos hfinished]
      exact ⟨hlimit, by simp [hfinished, leavesWith]⟩
    · rw [if_neg hfinished]
      have herror : ConversationExecutionStatus.error ∈ leavesWith := by decide
      exact ⟨hlimit, herror⟩
  · rw [if_neg hlast]
    have hrank := @rank_le_two settings next
    refine ⟨Nat.lt_of_not_le hlast, ?_⟩
    simp only [remaining]
    omega

/-- An iteration without a step of the agent lowers the rank. -/
theorem getsOn_of_rank_lt {run : RunState} {state : ConversationState}
    (hlimit : run.iteration < settings.maxIterationPerRun)
    (hrank : rank settings state < rank settings run.state) :
    GetsOn settings run (.goOn { run with state }) :=
  ⟨hlimit, Nat.add_lt_add_left hrank _⟩

theorem resume_executionStatus (feedback : Option String) (state : ConversationState) :
    (resume ids feedback state).executionStatus = .running := by
  cases feedback <;> rfl

theorem lockedPass_getsOn (turn : Nat) {run : RunState}
    (hlimit : run.iteration < settings.maxIterationPerRun) :
    GetsOn settings run (lockedPass ids settings world turn run) := by
  unfold lockedPass
  split
  next hpaused => exact ⟨hlimit.le, by simp [hpaused, leavesWith]⟩
  next hstuck => exact ⟨hlimit.le, by simp [hstuck, leavesWith]⟩
  next hfinished =>
    have hrank : rank settings run.state = 2 := by rw [rank, if_pos hfinished]
    simp only
    split
    next hstop =>
      refine ⟨hlimit.le, ?_⟩
      rw [ConversationState.emitHookExecutionEvents_executionStatus, hfinished]
      decide
    next feedback hdenied =>
      have hresumed := @resume_executionStatus ids feedback
        (ConversationState.emitHookExecutionEvents ids (world.stopHooks turn).length run.state)
      have hle := @rank_le_one settings _ (by rw [hresumed]; decide)
      exact getsOn_of_rank_lt hlimit (by rw [hrank]; exact Nat.lt_succ_of_le hle)
  next hpaused hstuck hfinished =>
    split
    next hloops =>
      have hstill : ¬Settled settings run.state := by
        rintro (hpaused' | hstuck' | hsettled)
        · exact hpaused hpaused'
        · exact hstuck hstuck'
        · exact absurd (hloops.symm.trans hsettled) (by decide)
      have hrank : rank settings run.state = 1 := by
        rw [rank, if_neg hfinished, if_neg hstill]
      have hmarked : rank settings { run.state with executionStatus := .stuck } = 0 :=
        rank_of_settled (by simp) (.inr (.inl rfl))
      exact getsOn_of_rank_lt hlimit (by rw [hrank, hmarked]; exact Nat.zero_lt_one)
    next => exact stepPass_getsOn hlimit

theorem runPass_getsOn (turn : Nat) {run : RunState}
    (hlimit : run.iteration < settings.maxIterationPerRun) :
    GetsOn settings run (runPass ids settings world turn run) := by
  have hrank := @rank_interruptions_le ids settings (world.interruptions turn) run.state
  have hpass := @lockedPass_getsOn ids settings world turn
    { run with state := (world.interruptions turn).foldl (interrupt ids) run.state } hlimit
  exact Progresses.of_measure_le hpass (Nat.add_le_add_left hrank _)

end LocalConversation

end ShuttleFlow
