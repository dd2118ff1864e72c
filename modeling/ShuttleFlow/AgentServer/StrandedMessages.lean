import ShuttleFlow.AgentServer.EventService
import ShuttleFlow.Library.Segments

/-! # Stranded messages

Whoever sends a message to be run and is refused a run relies on others to start
the next step.
-/

namespace ShuttleFlow

/-- What a coroutine is there for. -/
inductive Errand
  | append
  | callRun (caller : Caller)
  | takeFlag
  | honorFlag
  deriving DecidableEq

def ServiceTask.errand : ServiceTask → Errand
  | .appending _ _ _ _ => .append
  | .lockingRun caller => .callRun caller
  | .readingStatus caller => .callRun caller
  | .decidingRun caller _ => .callRun caller
  | .takingFlag => .takeFlag
  | .honoringFlag => .honorFlag

/-- After every message there is a step. -/
def ServiceEvent.Answered (trace : List ServiceEvent) : Prop :=
  ∀ before after message, trace = before ++ .appended message :: after → .stepStarted ∈ after

namespace EventService

def has (service : EventService) (errand : Errand) : Bool :=
  service.tasks.any fun task => task.errand = errand

/-- A message is unanswered, and the call of `run` for it is over. -/
def orphaned (service : EventService) : Bool :=
  service.unanswered.any fun message => !service.has (.callRun (.sendMessage message))

/-- The loop makes a step, unless nothing is unanswered. -/
def loopGoesOn (service : EventService) : Bool :=
  match service.runTask with
  | some (.looping _) => service.conversation.executionStatus ≠ .paused
  | _ => false

def rerunComing (service : EventService) : Bool :=
  service.has (.callRun .rerun) ||
    (service.conversation.executionStatus = .idle &&
      (service.has .honorFlag ||
        (service.rerunRequested &&
          (service.has .takeFlag || service.runTask = some .wrappingUp))))

/-- A step is going to start without another call from outside. -/
def woken (service : EventService) : Bool :=
  service.runTask = some .created || service.loopGoesOn ||
    (service.runTask ≠ some .failing && service.rerunComing)

/-- A refusal leaves no message behind for which no step is going to start. -/
def leavesWoken (service : EventService) : ServiceStep → Bool
  | .decideRun index =>
      match service.tasks[index]? with
      | some (.decidingRun caller executionStatus) =>
          !service.refuses executionStatus || !(service.refuse index caller).orphaned ||
            (service.refuse index caller).woken
      | _ => true
  | _ => true

variable {ids : IdSource} {settings : RunSettings} {service next : EventService}

/-! ## Coroutines -/

theorem tasks_split {index : Nat} {task : ServiceTask} (htask : service.tasks[index]? = some task) :
    service.tasks = service.tasks.take index ++ task :: service.tasks.drop (index + 1) := by
  obtain ⟨hindex, heq⟩ := List.getElem?_eq_some_iff.mp htask
  rw [← heq, List.getElem_cons_drop, List.take_append_drop]

theorem has_iff {errand : Errand} :
    service.has errand ↔ ∃ task ∈ service.tasks, task.errand = errand := by
  simp [has]

/-- What is lost is at most the errand of the coroutine that goes on. -/
theorem has_resume {index : Nat} {task : ServiceTask} (htask : service.tasks[index]? = some task)
    {errand : Errand} (hhas : service.has errand) {later : Option ServiceTask}
    (hlater : task.errand = errand → ∃ other, later = some other ∧ other.errand = errand) :
    (service.resume index later).has errand := by
  obtain ⟨found, hfound, herrand⟩ := has_iff.mp hhas
  rw [tasks_split htask] at hfound
  refine has_iff.mpr ?_
  simp only [resume, List.mem_append, Option.mem_toList]
  rcases List.mem_append.mp hfound with hbefore | hafter
  · exact ⟨found, .inl (.inl hbefore), herrand⟩
  · rcases List.mem_cons.mp hafter with rfl | hafter
    · obtain ⟨other, rfl, hother⟩ := hlater herrand
      exact ⟨other, .inl (.inr rfl), hother⟩
    · exact ⟨found, .inr hafter, herrand⟩

theorem has_resume_some (service : EventService) (index : Nat) (task : ServiceTask) :
    (service.resume index (some task)).has task.errand :=
  has_iff.mpr ⟨task, by simp [resume], rfl⟩

theorem has_start {errand : Errand} (hhas : service.has errand) (task : ServiceTask) :
    (service.start task).has errand := by
  obtain ⟨found, hfound, herrand⟩ := has_iff.mp hhas
  exact has_iff.mpr ⟨found, List.mem_append_left _ hfound, herrand⟩

theorem has_start_self (service : EventService) (task : ServiceTask) :
    (service.start task).has task.errand :=
  has_iff.mpr ⟨task, by simp [start], rfl⟩

/-! ## Orphaned messages -/

theorem orphaned_iff : service.orphaned ↔
    ∃ message ∈ service.unanswered, service.has (.callRun (.sendMessage message)) = false := by
  simp [orphaned]

theorem orphaned_of_keeps (horphaned : next.orphaned)
    (hunanswered : next.unanswered = service.unanswered)
    (hkeeps : ∀ message, service.has (.callRun (.sendMessage message)) →
      next.has (.callRun (.sendMessage message))) : service.orphaned := by
  obtain ⟨message, hmessage, hover⟩ := orphaned_iff.mp horphaned
  refine orphaned_iff.mpr ⟨message, hunanswered ▸ hmessage, ?_⟩
  by_contra hcalls
  exact absurd (hkeeps message (Bool.eq_true_of_not_eq_false hcalls)) (by simp [hover])

theorem not_orphaned_of_nil (hnil : service.unanswered = []) : ¬service.orphaned := by
  simp [orphaned, hnil]

/-! ## What starts the next step -/

theorem rerunComing_iff : service.rerunComing ↔ service.has (.callRun .rerun) ∨
    service.conversation.executionStatus = .idle ∧ (service.has .honorFlag ∨
      service.rerunRequested ∧ (service.has .takeFlag ∨ service.runTask = some .wrappingUp)) := by
  simp [rerunComing]

theorem woken_iff : service.woken ↔ service.runTask = some .created ∨ service.loopGoesOn ∨
    service.runTask ≠ some .failing ∧ service.rerunComing := by
  simp [woken, or_assoc]

/-- Nothing changes, but that coroutines may have been started, or may have appended. -/
structure Keeps (service next : EventService) : Prop where
  runTask : next.runTask = service.runTask
  rerunRequested : next.rerunRequested = service.rerunRequested
  executionStatus : next.conversation.executionStatus = service.conversation.executionStatus
  has : ∀ errand, errand ≠ .append → service.has errand → next.has errand

theorem Keeps.woken (hkeeps : Keeps service next) (hwoken : service.woken) : next.woken := by
  rw [woken_iff, rerunComing_iff] at hwoken ⊢
  rw [loopGoesOn, hkeeps.runTask, hkeeps.rerunRequested, hkeeps.executionStatus]
  refine hwoken.imp_right fun hlater => hlater.imp_right fun ⟨hrun, hcoming⟩ => ⟨hrun, ?_⟩
  refine hcoming.imp (hkeeps.has _ (by decide)) fun ⟨hidle, hflag⟩ => ⟨hidle, ?_⟩
  refine hflag.imp (hkeeps.has _ (by decide)) fun ⟨hrequested, htaken⟩ => ⟨hrequested, ?_⟩
  exact htaken.imp_left (hkeeps.has _ (by decide))

/-- The invariant of runs in which refusals leave the service woken. -/
structure Attended (service : EventService) : Prop where
  woken : service.orphaned → service.woken
  ready : service.unanswered ≠ [] → service.agentReady
  unfinished : service.unanswered ≠ [] →
    service.conversation.executionStatus ≠ .finished ∧
      service.conversation.executionStatus ≠ .stuck
  awaits : service.unanswered ≠ [] →
    StuckDetector.AwaitsAgent service.conversation.events

theorem Attended.of_nil (hnil : service.unanswered = []) : Attended service where
  woken horphaned := absurd horphaned (not_orphaned_of_nil hnil)
  ready hsome := absurd hnil hsome
  unfinished hsome := absurd hnil hsome
  awaits hsome := absurd hnil hsome

/-- Only the tasks and the lock have changed. -/
theorem Attended.congr (hattended : Attended service)
    (hconversation : next.conversation = service.conversation)
    (hready : next.agentReady = service.agentReady)
    (hunanswered : next.unanswered = service.unanswered)
    (hwoken : next.orphaned → next.woken) : Attended next where
  woken := hwoken
  ready hsome := hready ▸ hattended.ready (hunanswered ▸ hsome)
  unfinished hsome := hconversation ▸ hattended.unfinished (hunanswered ▸ hsome)
  awaits hsome := hconversation ▸ hattended.awaits (hunanswered ▸ hsome)

theorem Attended.keeps (hattended : Attended service) (hkeeps : Keeps service next)
    (hconversation : next.conversation = service.conversation)
    (hready : next.agentReady = service.agentReady)
    (hunanswered : next.unanswered = service.unanswered) : Attended next :=
  hattended.congr hconversation hready hunanswered fun horphaned => hkeeps.woken <|
    hattended.woken (orphaned_of_keeps horphaned hunanswered fun _ => hkeeps.has _ (by simp))

/-! ## One step -/

theorem Keeps.start (service : EventService) (task : ServiceTask) :
    Keeps service (service.start task) :=
  ⟨rfl, rfl, rfl, fun _ _ hhas => has_start hhas task⟩

/-- A coroutine that goes on for the same errand. -/
theorem Keeps.resume {index : Nat} {task : ServiceTask}
    (htask : service.tasks[index]? = some task) (later : ServiceTask)
    (herrand : later.errand = task.errand) (runLocked : Bool) :
    Keeps service ({ service with runLocked }.resume index (some later)) :=
  ⟨rfl, rfl, rfl, fun _ _ hhas => @has_resume { service with runLocked } _ _ htask _ hhas _
    fun hsame => ⟨later, rfl, herrand.trans hsame⟩⟩

theorem recordInternal_awaitsAgent {state : ConversationState}
    (hawaits : StuckDetector.AwaitsAgent state.events) (kind : InternalKind) :
    StuckDetector.AwaitsAgent (state.recordInternal ids kind).events :=
  hawaits.concat rfl

theorem sendMessage_executionStatus_of_ne {hooks : HookManager} {message : Message}
    {extendedContent : List Content} {state : ConversationState}
    (hfinished : state.executionStatus ≠ .finished) (hstuck : state.executionStatus ≠ .stuck) :
    (LocalConversation.sendMessage ids hooks message extendedContent state).executionStatus =
      state.executionStatus := by
  simp only [LocalConversation.sendMessage, ConversationState.onEvent_message_executionStatus,
    ConversationState.drawId]

theorem sendMessage_executionStatus_ne {hooks : HookManager} {message : Message}
    {extendedContent : List Content} {state : ConversationState} :
    (LocalConversation.sendMessage ids hooks message extendedContent state).executionStatus ≠
        .finished ∧
      (LocalConversation.sendMessage ids hooks message extendedContent state).executionStatus ≠
        .stuck := by
  simp only [LocalConversation.sendMessage, ConversationState.onEvent_message_executionStatus,
    ConversationState.drawId]
  cases state.executionStatus <;> simp

/-- A message that arrives changes nothing for those that are waiting. -/
theorem Attended.append_keeps (hattended : Attended service) (hsome : service.unanswered ≠ [])
    {index : Nat} {hooks : HookManager} {message : Message} {extendedContent : List Content}
    {run : Bool}
    (htask : service.tasks[index]? = some (.appending hooks message extendedContent run))
    (unanswered : List Message) (later : Option ServiceTask) :
    Keeps service ({ service with
      conversation :=
        LocalConversation.sendMessage ids hooks message extendedContent service.conversation
      agentReady := true
      unanswered }.resume index later) where
  runTask := rfl
  rerunRequested := rfl
  executionStatus := by
    obtain ⟨hfinished, hstuck⟩ := hattended.unfinished hsome
    exact sendMessage_executionStatus_of_ne hfinished hstuck
  has errand hother hhas :=
    @has_resume { service with
      conversation :=
        LocalConversation.sendMessage ids hooks message extendedContent service.conversation
      agentReady := true
      unanswered } _ _ htask _ hhas _ fun hsame => absurd hsame.symm hother

theorem Attended.append (hattended : Attended service) {index : Nat} {hooks : HookManager}
    {message : Message} {extendedContent : List Content} {run : Bool}
    (htask : service.tasks[index]? = some (.appending hooks message extendedContent run))
    {seen : List ServiceEvent}
    (hstep : service.step ids settings (.append index) = some (next, seen)) : Attended next := by
  simp only [step, htask] at hstep
  cases run with
  | true =>
      cases hstep
      refine ⟨fun horphaned => ?_, fun _ => rfl, fun _ => sendMessage_executionStatus_ne,
        fun _ => LocalConversation.sendMessage_awaitsAgent⟩
      obtain ⟨other, hother, hover⟩ := orphaned_iff.mp horphaned
      rcases List.mem_append.mp hother with hold | hnew
      · have hsome := List.ne_nil_of_mem hold
        have hkeeps := @append_keeps ids _ hattended hsome _ _ _ _ _ htask
          (service.unanswered ++ [message]) (some (.lockingRun (.sendMessage message)))
        refine hkeeps.woken (hattended.woken (orphaned_iff.mpr ⟨other, hold, ?_⟩))
        by_contra hcalls
        have hstill := hkeeps.has _ (by simp) (Bool.eq_true_of_not_eq_false hcalls)
        exact absurd (hover.symm.trans hstill) (by decide)
      · obtain rfl := List.mem_singleton.mp hnew
        exact absurd (hover.symm.trans (has_resume_some _ index _)) (by decide)
  | false =>
      cases hstep
      by_cases hnil : service.unanswered = []
      · exact .of_nil hnil
      · have hkeeps := @append_keeps ids _ hattended hnil _ _ _ _ _ htask
          service.unanswered none
        refine ⟨fun horphaned => ?_, fun _ => rfl, fun _ => sendMessage_executionStatus_ne,
          fun _ => LocalConversation.sendMessage_awaitsAgent⟩
        exact hkeeps.woken (hattended.woken (orphaned_of_keeps horphaned rfl fun _ =>
          hkeeps.has _ (by simp)))

/-- As long as a message is unanswered, an iteration without a step leaves the loop. -/
theorem Attended.paused (hattended : Attended service) (hsome : service.unanswered ≠ [])
    (hnone : LocalConversation.makesStep settings service.conversation = false) :
    service.conversation.executionStatus = .paused := by
  obtain ⟨hfinished, hstuck⟩ := hattended.unfinished hsome
  have hgoes := @LocalConversation.isStuck_of_awaitsAgent settings _ (hattended.awaits hsome)
  revert hnone
  unfold LocalConversation.makesStep
  rw [hgoes]
  cases hstatus : service.conversation.executionStatus <;> simp_all

/-- A call of `run` ends: it has started a run, or leaves the service woken. -/
theorem Attended.decideRun (hattended : Attended service) {index : Nat} {caller : Caller}
    {executionStatus : ConversationExecutionStatus}
    (htask : service.tasks[index]? = some (.decidingRun caller executionStatus))
    (hwoken : service.leavesWoken (.decideRun index)) {seen : List ServiceEvent}
    (hstep : service.step ids settings (.decideRun index) = some (next, seen)) :
    Attended next := by
  simp only [step, htask] at hstep
  simp only [leavesWoken, htask] at hwoken
  split at hstep
  next hrefuses =>
    cases hstep
    have hleft : (service.refuse index caller).orphaned → (service.refuse index caller).woken := by
      intro horphaned
      simpa [hrefuses, horphaned] using hwoken
    cases caller <;> exact hattended.congr rfl rfl rfl hleft
  next =>
    cases hstep
    exact hattended.congr rfl rfl rfl fun _ => woken_iff.mpr (.inl rfl)

/-- A coroutine goes on with the wrap-up of an earlier run. -/
theorem Attended.wrapUp (hattended : Attended service)
    (hconversation : next.conversation = service.conversation)
    (hready : next.agentReady = service.agentReady)
    (hunanswered : next.unanswered = service.unanswered)
    (hrun : next.runTask = service.runTask)
    (hsends : ∀ message, service.has (.callRun (.sendMessage message)) →
      next.has (.callRun (.sendMessage message)))
    (hcoming : service.rerunComing → next.rerunComing) : Attended next := by
  refine hattended.congr hconversation hready hunanswered fun horphaned => ?_
  have hwoken := hattended.woken (orphaned_of_keeps horphaned hunanswered hsends)
  rw [woken_iff] at hwoken ⊢
  rw [loopGoesOn, hrun, hconversation]
  exact hwoken.imp_right fun hlater => hlater.imp_right fun ⟨hother, hsoon⟩ =>
    ⟨hother, hcoming hsoon⟩

theorem Attended.takeFlag (hattended : Attended service) {index : Nat}
    (htask : service.tasks[index]? = some .takingFlag) {seen : List ServiceEvent}
    (hstep : service.step ids settings (.takeFlag index) = some (next, seen)) :
    Attended next := by
  simp only [step, htask] at hstep
  have hhas : ∀ {errand later}, .takeFlag ≠ errand → service.has errand →
      (service.resume index later).has errand := fun hother hhas =>
    has_resume htask hhas fun hsame => absurd hsame hother
  split at hstep
  next hrequested =>
    cases hstep
    refine hattended.wrapUp rfl rfl rfl rfl (fun _ => hhas (by simp)) fun hcoming => ?_
    rw [rerunComing_iff] at hcoming ⊢
    refine hcoming.imp (hhas (by decide)) fun ⟨hidle, _⟩ => ⟨hidle, .inl ?_⟩
    exact has_resume_some _ index .honoringFlag
  next hrequested =>
    cases hstep
    refine hattended.wrapUp rfl rfl rfl rfl (fun _ => hhas (by simp)) fun hcoming => ?_
    rw [rerunComing_iff] at hcoming ⊢
    refine hcoming.imp (hhas (by decide)) fun ⟨hidle, hflag⟩ => ⟨hidle, .inl ?_⟩
    exact hhas (by decide) (hflag.resolve_right fun ⟨hset, _⟩ => hrequested hset)

/-- Another run is called for when the conversation is idle. -/
theorem Attended.honorFlag (hattended : Attended service) {index : Nat}
    (htask : service.tasks[index]? = some .honoringFlag) {seen : List ServiceEvent}
    (hstep : service.step ids settings (.honorFlag index) = some (next, seen)) :
    Attended next := by
  simp only [step, htask] at hstep
  have hhas : ∀ {errand later}, .honorFlag ≠ errand → service.has errand →
      (service.resume index later).has errand := fun hother hhas =>
    has_resume htask hhas fun hsame => absurd hsame hother
  split at hstep
  next =>
    cases hstep
    refine hattended.wrapUp rfl rfl rfl rfl (fun _ => hhas (by simp)) fun _ => ?_
    exact rerunComing_iff.mpr (.inl (has_resume_some _ index (.lockingRun .rerun)))
  next hbusy =>
    cases hstep
    refine hattended.wrapUp rfl rfl rfl rfl (fun _ => hhas (by simp)) fun hcoming => ?_
    rw [rerunComing_iff] at hcoming ⊢
    exact hcoming.imp (hhas (by decide)) fun ⟨hidle, _⟩ => absurd hidle hbusy

/-! ### The run task -/

theorem Attended.enterLoop (hattended : Attended service) :
    Attended { service with
      conversation := LocalConversation.startRun service.conversation
      agentReady := true
      runTask := some (.looping 0) } := by
  refine ⟨fun _ => woken_iff.mpr (.inr (.inl ?_)), fun _ => rfl, fun hsome => ?_, fun hsome => ?_⟩
  · exact decide_eq_true (LocalConversation.startRun_not_paused _)
  · rcases LocalConversation.startRun_executionStatus service.conversation with hsame | hrunning
    · exact hsame ▸ hattended.unfinished hsome
    · exact hrunning ▸ ⟨by decide, by decide⟩
  · exact (LocalConversation.startRun_events _).symm ▸ hattended.awaits hsome

theorem Attended.iterate (hattended : Attended service) {iteration : Nat}
    (hrun : service.runTask = some (.looping iteration))
    {agentStep : ConversationState → ConversationState} {stopHooks : List HookResult}
    {seen : List ServiceEvent}
    (hstep : service.step ids settings (.iterate agentStep stopHooks) = some (next, seen)) :
    Attended next := by
  simp only [step, hrun] at hstep
  split at hstep
  next hmakes =>
    cases hstep
    refine .of_nil ?_
    generalize LocalConversation.lockedPass _ _ _ _ _ = pass
    cases pass <;> rfl
  next hnone =>
    cases hstep
    by_cases hnil : service.unanswered = []
    · refine .of_nil ?_
      generalize LocalConversation.lockedPass _ _ _ _ _ = pass
      cases pass <;> exact hnil
    · have hpaused := hattended.paused hnil (Bool.eq_false_of_not_eq_true hnone)
      simp only [LocalConversation.lockedPass, hpaused, afterPass]
      refine hattended.congr rfl rfl rfl fun horphaned => ?_
      have hwoken := hattended.woken (orphaned_of_keeps horphaned rfl fun _ hhas => hhas)
      rcases woken_iff.mp hwoken with hcreated | hgoes | ⟨-, hcoming⟩
      · cases hrun.symm.trans hcreated
      · simp [loopGoesOn, hrun, hpaused] at hgoes
      · refine woken_iff.mpr (.inr (.inr ⟨by simp, rerunComing_iff.mpr (.inl ?_)⟩))
        rcases rerunComing_iff.mp hcoming with hcalls | ⟨hidle, -⟩
        · exact hcalls
        · cases hpaused.symm.trans hidle

/-- Whoever is orphaned while an exception is handled has been so before, when
nothing was going to start a step. -/
theorem Attended.handleException (hattended : Attended service)
    (hrun : service.runTask = some .failing) :
    Attended { service with
      conversation := ConversationState.recordInternal ids .conversationError
        { service.conversation with executionStatus := .error }
      runTask := some .wrappingUp } := by
  refine ⟨fun horphaned => ?_, hattended.ready, fun _ => ⟨nofun, nofun⟩, fun hsome =>
    recordInternal_awaitsAgent (hattended.awaits hsome) _⟩
  have hwoken := hattended.woken (orphaned_of_keeps horphaned rfl fun _ hhas => hhas)
  rcases woken_iff.mp hwoken with hcreated | hgoes | ⟨hother, -⟩
  · cases hrun.symm.trans hcreated
  · simp [loopGoesOn, hrun] at hgoes
  · exact absurd hrun hother

theorem Attended.clearRunTask (hattended : Attended service)
    (hrun : service.runTask = some .wrappingUp) :
    Attended ({ service with runTask := none }.start .takingFlag) := by
  have hhas : ∀ {errand}, service.has errand →
      ({ service with runTask := none }.start .takingFlag).has errand :=
    fun hhas => @has_start { service with runTask := none } _ hhas _
  refine hattended.congr rfl rfl rfl fun horphaned => ?_
  have hwoken := hattended.woken (orphaned_of_keeps horphaned rfl fun _ => hhas)
  rcases woken_iff.mp hwoken with hcreated | hgoes | ⟨-, hcoming⟩
  · cases hrun.symm.trans hcreated
  · simp [loopGoesOn, hrun] at hgoes
  · refine woken_iff.mpr (.inr (.inr ⟨by simp [start], rerunComing_iff.mpr ?_⟩))
    refine (rerunComing_iff.mp hcoming).imp hhas fun ⟨hidle, hflag⟩ => ⟨hidle, ?_⟩
    refine hflag.imp hhas fun ⟨hrequested, _⟩ => ⟨hrequested, .inl ?_⟩
    exact has_start_self { service with runTask := none } .takingFlag

/-! ## Whole runs -/

theorem Attended.step (hattended : Attended service) {label : ServiceStep}
    (hwoken : service.leavesWoken label) {seen : List ServiceEvent}
    (hstep : service.step ids settings label = some (next, seen)) : Attended next := by
  cases label with
  | sendMessage hooks message extendedContent run =>
      cases hstep
      exact hattended.keeps (.start service _) rfl rfl rfl
  | run =>
      cases hstep
      exact hattended.keeps (.start service _) rfl rfl rfl
  | append index =>
      cases htask : service.tasks[index]? with
      | none => simp [EventService.step, htask] at hstep
      | some task =>
          cases task with
          | appending => exact hattended.append htask hstep
          | _ => simp [EventService.step, htask] at hstep
  | lockRun index =>
      simp only [EventService.step] at hstep
      split at hstep
      next caller htask =>
        split at hstep
        · cases hstep
        · cases hstep
          exact hattended.keeps (.resume htask (.readingStatus caller) rfl true) rfl rfl rfl
      next => cases hstep
  | readStatus index =>
      simp only [EventService.step] at hstep
      split at hstep
      next caller htask =>
        cases hstep
        exact hattended.keeps (.resume htask (.decidingRun caller _) rfl service.runLocked)
          rfl rfl rfl
      next => cases hstep
  | decideRun index =>
      cases htask : service.tasks[index]? with
      | none => simp [EventService.step, htask] at hstep
      | some task =>
          cases task with
          | decidingRun => exact hattended.decideRun htask hwoken hstep
          | _ => simp [EventService.step, htask] at hstep
  | leaveUnready =>
      simp only [EventService.step] at hstep
      split at hstep
      next =>
        split at hstep
        · cases hstep
        next hunready =>
          cases hstep
          refine .of_nil (by_contra fun hsome => hunready (hattended.ready hsome))
      next => cases hstep
  | enterLoop =>
      simp only [EventService.step] at hstep
      split at hstep
      · cases hstep
        exact hattended.enterLoop
      · cases hstep
  | iterate agentStep stopHooks =>
      cases hrun : service.runTask with
      | none => simp [EventService.step, hrun] at hstep
      | some phase =>
          cases phase with
          | looping iteration => exact hattended.iterate hrun hstep
          | _ => simp [EventService.step, hrun] at hstep
  | raise agentStep =>
      simp only [EventService.step] at hstep
      split at hstep
      next =>
        split at hstep
        · cases hstep
          exact .of_nil rfl
        · cases hstep
      next => cases hstep
  | handleException =>
      simp only [EventService.step] at hstep
      split at hstep
      next hrun =>
        cases hstep
        exact hattended.handleException hrun
      next => cases hstep
  | clearRunTask =>
      simp only [EventService.step] at hstep
      split at hstep
      next hrun =>
        cases hstep
        exact hattended.clearRunTask hrun
      next => cases hstep
  | takeFlag index =>
      cases htask : service.tasks[index]? with
      | none => simp [EventService.step, htask] at hstep
      | some task =>
          cases task with
          | takingFlag => exact hattended.takeFlag htask hstep
          | _ => simp [EventService.step, htask] at hstep
  | honorFlag index =>
      cases htask : service.tasks[index]? with
      | none => simp [EventService.step, htask] at hstep
      | some task =>
          cases task with
          | honoringFlag => exact hattended.honorFlag htask hstep
          | _ => simp [EventService.step, htask] at hstep
  | recordUpdate =>
      cases hstep
      have hkeeps : Keeps service { service with
        conversation := ConversationState.recordInternal ids .conversationStateUpdate
          service.conversation } := ⟨rfl, rfl, rfl, fun _ _ hhas => hhas⟩
      exact ⟨fun horphaned => hkeeps.woken (hattended.woken horphaned), hattended.ready,
        hattended.unfinished, fun hsome =>
          recordInternal_awaitsAgent (hattended.awaits hsome) _⟩

theorem quiescent_iff : service.quiescent ↔ service.tasks = [] ∧ service.runTask = none := by
  simp [quiescent]

/-- With nobody left, nobody is orphaned, and so nothing is unanswered. -/
theorem Attended.unanswered_eq_nil (hattended : Attended service)
    (hquiescent : service.quiescent) : service.unanswered = [] := by
  obtain ⟨htasks, hrun⟩ := quiescent_iff.mp hquiescent
  have hnobody : ∀ errand, service.has errand = false := fun errand => by simp [has, htasks]
  by_contra hsome
  obtain ⟨message, hmessage⟩ := List.exists_mem_of_ne_nil _ hsome
  have hwoken := hattended.woken (orphaned_iff.mpr ⟨message, hmessage, hnobody _⟩)
  simp [EventService.woken, loopGoesOn, rerunComing, hrun, hnobody] at hwoken

/-! ### What is seen -/

@[simp] theorem afterPass_unanswered (service : EventService) (pass : Pass RunState RunState) :
    (service.afterPass pass).unanswered = service.unanswered := by
  cases pass <;> rfl

@[simp] theorem refuse_unanswered (service : EventService) (index : Nat) (caller : Caller) :
    (service.refuse index caller).unanswered = service.unanswered := by
  cases caller <;> rfl

theorem step_seen {label : ServiceStep} {seen : List ServiceEvent}
    (hstep : service.step ids settings label = some (next, seen)) :
    (seen = [] ∧ next.unanswered = service.unanswered) ∨
      (∃ message, seen = [.appended message] ∧
        next.unanswered = service.unanswered ++ [message]) ∨
      seen = [.stepStarted] := by
  have hquiet : ∀ {other : EventService},
      some (other, ([] : List ServiceEvent)) = some (next, seen) →
      other.unanswered = service.unanswered →
      seen = [] ∧ next.unanswered = service.unanswered := by
    intro other heq hsame
    cases heq
    exact ⟨rfl, hsame⟩
  cases label with
  | sendMessage => exact .inl (hquiet hstep rfl)
  | run => exact .inl (hquiet hstep rfl)
  | recordUpdate => exact .inl (hquiet hstep rfl)
  | append index =>
      simp only [step] at hstep
      split at hstep
      next message _ run _ =>
        split at hstep
        · cases hstep
          exact .inr (.inl ⟨message, rfl, rfl⟩)
        · exact .inl (hquiet hstep rfl)
      next => cases hstep
  | iterate =>
      simp only [step] at hstep
      split at hstep
      next =>
        split at hstep
        · cases hstep
          exact .inr (.inr rfl)
        · exact .inl (hquiet hstep (by simp))
      next => cases hstep
  | raise =>
      simp only [step] at hstep
      split at hstep
      next =>
        split at hstep
        · cases hstep
          exact .inr (.inr rfl)
        · cases hstep
      next => cases hstep
  | decideRun index =>
      simp only [step] at hstep
      split at hstep
      next =>
        split at hstep
        · exact .inl (hquiet hstep (by simp))
        · exact .inl (hquiet hstep rfl)
      next => cases hstep
  | readStatus index =>
      simp only [step] at hstep
      split at hstep
      · exact .inl (hquiet hstep rfl)
      · cases hstep
  | lockRun index =>
      simp only [step] at hstep
      split at hstep
      next =>
        split at hstep
        · cases hstep
        · exact .inl (hquiet hstep rfl)
      next => cases hstep
  | leaveUnready =>
      simp only [step] at hstep
      split at hstep
      next =>
        split at hstep
        · cases hstep
        · exact .inl (hquiet hstep rfl)
      next => cases hstep
  | takeFlag index =>
      simp only [step] at hstep
      split at hstep
      next =>
        split at hstep
        · exact .inl (hquiet hstep rfl)
        · exact .inl (hquiet hstep rfl)
      next => cases hstep
  | honorFlag index =>
      simp only [step] at hstep
      split at hstep
      next =>
        split at hstep
        · exact .inl (hquiet hstep rfl)
        · exact .inl (hquiet hstep rfl)
      next => cases hstep
  | _ =>
      simp only [step] at hstep
      split at hstep
      · exact .inl (hquiet hstep rfl)
      · cases hstep

/-- What no step has followed is unanswered. -/
def Accounted (trace : List ServiceEvent) (service : EventService) : Prop :=
  ∀ before after message, trace = before ++ .appended message :: after →
    .stepStarted ∈ after ∨ message ∈ service.unanswered

theorem Accounted.step {trace seen : List ServiceEvent} (haccounted : Accounted trace service)
    {label : ServiceStep} (hstep : service.step ids settings label = some (next, seen)) :
    Accounted (trace ++ seen) next := by
  intro before after message htrace
  rcases step_seen hstep with ⟨rfl, hsame⟩ | hone
  · rw [List.append_nil] at htrace
    exact hsame ▸ haccounted before after message htrace
  obtain ⟨event, rfl⟩ : ∃ event, seen = [event] := by
    rcases hone with ⟨sent, rfl, -⟩ | rfl
    · exact ⟨_, rfl⟩
    · exact ⟨_, rfl⟩
  rcases Segments.marker_concat htrace with ⟨-, rfl, -⟩ | ⟨earlier, hbefore, rfl⟩
  · rcases hone with ⟨sent, heq, hsent⟩ | heq
    · cases heq
      exact .inr (hsent ▸ List.mem_append_right _ (List.mem_singleton_self message))
    · cases heq
  · rcases hone with ⟨sent, -, hsent⟩ | heq
    · exact (haccounted before earlier message hbefore).imp (List.mem_append_left _)
        fun hmem => hsent ▸ List.mem_append_left _ hmem
    · cases heq
      exact .inl (List.mem_append_right _ (List.mem_singleton_self _))

/-- Any callers, any interleaving and any agent: when all tasks have ended, a
step has followed each message, as long as no refusal leaves one behind for which
no step is going to start. -/
theorem answered_of_runs {conversation : ConversationState} {trace : List ServiceEvent}
    (hruns : ((system ids settings).restrict leavesWoken).Runs (ofConversation conversation)
      trace service)
    (hquiescent : service.quiescent) : ServiceEvent.Answered trace := by
  have hboth : Attended service ∧ Accounted trace service := by
    refine hruns.invariant_restrict
      (fun trace service => Attended service ∧ Accounted trace service)
      ⟨.of_nil rfl, fun before after message htrace => by simp at htrace⟩ ?_
    intro trace service label next seen ⟨hattended, haccounted⟩ hallowed hstep
    exact ⟨hattended.step hallowed hstep, haccounted.step hstep⟩
  intro before after message htrace
  have hnil := hboth.1.unanswered_eq_nil hquiescent
  exact (hboth.2 before after message htrace).resolve_right (by simp [hnil])

end EventService

section Messages

open Sample

/-- One step is all that a run may make. -/
def Sample.oneStep : RunSettings where
  maxIterationPerRun := 1
  maxIterationPerRun_pos := by decide
  stuckDetector := none

/-- The agent says something, which finishes the run. -/
def Sample.sayDone : ConversationState → ConversationState :=
  LocalConversation.runStep ids
    (environment (.response ⟨"r", { role := .assistant, content := [.text "done"] }⟩))

/-- The agent calls a tool. -/
def Sample.callTool : ConversationState → ConversationState :=
  LocalConversation.runStep ids (environment (.response (response "r" [toolCall "c" "tool"])))

/-- A message is sent, and its sender calls `run`, with nobody else around. -/
def Sample.sendAndRun (text : String) : List ServiceStep :=
  [.sendMessage {} { role := .user, content := [.text text] } [] true, .append 0, .lockRun 0,
    .readStatus 0, .decideRun 0]

/-- The second message arrives when the first run has finished but its task is
still wrapping up, which then starts another run. -/
theorem EventService.answered_of_runs_rerun :
    ServiceEvent.Answered
      [.appended { role := .user, content := [.text "first"] }, .stepStarted,
        .appended { role := .user, content := [.text "second"] }, .stepStarted] := by
  refine @EventService.answered_of_runs ids oneStep _ started _ (.of_run
    (sendAndRun "first" ++ [.enterLoop, .iterate sayDone []] ++ sendAndRun "second" ++
      [.clearRunTask, .takeFlag 0, .honorFlag 0, .lockRun 0, .readStatus 0, .decideRun 0,
        .enterLoop, .iterate sayDone [], .clearRunTask, .takeFlag 0]) rfl) ?_
  decide

/-- The second message arrives when the first run has used up its iterations
but its task is still wrapping up. -/
theorem EventService.not_answered_after_error :
    ∃ service trace, (EventService.system ids oneStep).Runs (EventService.ofConversation started)
      trace service ∧ service.quiescent ∧ ¬ServiceEvent.Answered trace := by
  refine ⟨_, _, .of_run
    (sendAndRun "first" ++ [.enterLoop, .iterate callTool []] ++ sendAndRun "second" ++
      [.clearRunTask, .takeFlag 0, .honorFlag 0]) rfl, by decide, fun hanswered => ?_⟩
  have hlater := hanswered
    [.appended { role := .user, content := [.text "first"] }, .stepStarted] []
    { role := .user, content := [.text "second"] } rfl
  cases hlater

end Messages

end ShuttleFlow
