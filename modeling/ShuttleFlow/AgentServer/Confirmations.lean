import ShuttleFlow.AgentServer.StrandedMessages
import ShuttleFlow.Conversation.BlockedActions
import ShuttleFlow.Conversation.SharedConversation
import ShuttleFlow.Library.Segments

/-! # Confirmations

An action that waits for a confirmation is executed by the next step of the agent. A client
confirms it by calling `run`; `send_message` calls `run` as well.
-/

namespace ShuttleFlow

open TransitionSystem

inductive ConfirmationStep
  | service (step : ServiceStep)
  | respondToConfirmation (accept : Bool) (hooks : HookManager) (reason : String)

inductive ConfirmationEvent
  /-- Somebody calls `run`, or accepts. -/
  | requested
  /-- A step starts. It executes what is pending, if anything is. -/
  | stepStarted (pending : List ActionEvent)
  /-- A step ends and waits for a confirmation. -/
  | endedWaiting (pending : List ActionEvent)
  deriving DecidableEq

/-- The service, with the actions of the last step that ended waiting, as long as nobody has
asked for a run since. -/
structure ConfirmedService where
  service : EventService
  unapproved : List ActionEvent := []

namespace ConfirmedService

def pending (service : EventService) : List ActionEvent :=
  ConversationState.getUnmatchedActions service.conversation.events

/-- What a step of the service shows. -/
def observe (service next : EventService) (seen : List ServiceEvent) :
    ServiceStep → List ConfirmationEvent
  | .run => [.requested]
  | .iterate _ _ =>
      if .stepStarted ∈ seen then
        if next.conversation.executionStatus = .waitingForConfirmation then
          [.stepStarted (pending service), .endedWaiting (pending next)]
        else [.stepStarted (pending service)]
      else []
  | .raise _ => [.stepStarted (pending service)]
  | _ => []

def note (_ : List ActionEvent) : ConfirmationEvent → List ActionEvent
  | .requested | .stepStarted _ => []
  | .endedWaiting pending => pending

variable (ids : IdSource) (settings : RunSettings)

def serviceStep (state : ConfirmedService) (label : ServiceStep) :
    Option (ConfirmedService × List ConfirmationEvent) :=
  (EventService.step ids settings state.service label).map fun result =>
    let events := observe state.service result.1 result.2 label
    ({ service := result.1, unapproved := events.foldl note state.unapproved }, events)

def step (state : ConfirmedService) :
    ConfirmationStep → Option (ConfirmedService × List ConfirmationEvent)
  | .service label => state.serviceStep ids settings label
  | .respondToConfirmation accept hooks reason =>
      if accept then state.serviceStep ids settings .run
      else
        let conversation := LocalConversation.rejectPendingActions ids hooks reason
          state.service.conversation
        some ({ state with service := { state.service with conversation } }, [])

def system : TransitionSystem ConfirmedService ConfirmationStep ConfirmationEvent where
  step := step ids settings

def ofConversation (conversation : ConversationState) : ConfirmedService where
  service := .ofConversation conversation

/-- An action waits, and nobody has asked for a run since. -/
def waits (state : ConfirmedService) : Bool :=
  state.unapproved.any fun action => action ∈ pending state.service

/-- While an action waits, `run` is refused: the run task that has ended with it is still
wrapping up. -/
def refusesWhileWaiting (state : ConfirmedService) : ConfirmationStep → Bool
  | .service (.decideRun index) =>
      match state.service.tasks[index]? with
      | some (.decidingRun _ executionStatus) =>
          !state.waits || state.service.refuses executionStatus
      | _ => true
  | _ => true

end ConfirmedService

/-- An action that a step has left waiting is executed by the next step only if somebody has
asked for a run in between. -/
def ConfirmationEvent.Confirmed (trace : List ConfirmationEvent) : Prop :=
  ∀ before middle after waiting executed,
    trace = before ++ .endedWaiting waiting :: (middle ++ .stepStarted executed :: after) →
    (∀ pending, .stepStarted pending ∉ middle) →
    ∀ action ∈ waiting, action ∈ executed → .requested ∈ middle

namespace ConversationState

variable {ids : IdSource}

theorem emitHookExecutionEvents_quiet (count : Nat) (state : ConversationState) :
    Quiet ids state (emitHookExecutionEvents ids count state) := by
  induction count generalizing state with
  | zero => exact .refl state
  | succ count ih => exact (LocalConversation.recordInternal_quiet state _).trans (ih _)

end ConversationState

namespace LocalConversation

variable {ids : IdSource} {settings : RunSettings} {world : RunWorld}

/-- Nothing stays pending that is rejected. -/
theorem rejectPendingActions_unmatched (hooks : HookManager) (reason : String)
    (state : ConversationState) :
    ConversationState.getUnmatchedActions
      (rejectPendingActions ids hooks reason state).events = [] := by
  let answer := fun id (action : ActionEvent) => ObservationBaseEvent.userReject
    ⟨id, action.toolName, action.toolCallId, reason, .user, action.id⟩
  have hanswer : ∀ id action, (answer id action).Answers action ∧ (answer id action).id = id :=
    fun _ _ => ⟨⟨rfl, rfl⟩, rfl⟩
  exact answerAll_unmatched hanswer rfl

theorem resume_quiet (feedback : Option String) (state : ConversationState) :
    Quiet ids state (resume ids feedback state) := by
  cases feedback with
  | none => exact (Quiet.refl state).status .running
  | some feedback =>
      exact @apply_quiet ids state (.sendFeedback {} feedback) fun env heq => by cases heq

theorem lockedPass_of_makesStep {turn : Nat} {run : RunState}
    (hmakes : makesStep settings run.state = true) :
    lockedPass ids settings world turn run = stepPass ids settings world run := by
  unfold makesStep at hmakes
  unfold lockedPass
  cases hstatus : run.state.executionStatus <;> simp_all

theorem checkStep_goOn {run next : RunState} (hpass : checkStep ids settings run = .goOn next) :
    next.state.executionStatus ≠ .waitingForConfirmation := by
  unfold checkStep at hpass
  split at hpass
  · cases hpass
  next hnot =>
    split at hpass
    · split at hpass <;> cases hpass
    · cases hpass
      exact hnot

end LocalConversation

namespace EventService

variable {ids : IdSource} {settings : RunSettings} {service : EventService}

/-- A run task is going to start the loop, or is in it. -/
def isActive (service : EventService) : Bool :=
  match service.runTask with
  | some .created | some (.looping _) | some .failing => true
  | some .wrappingUp | none => false

theorem afterPass_of_waiting {world : RunWorld} {run : RunState}
    (hmakes : LocalConversation.makesStep settings run.state = true)
    (hwaiting : (service.afterPass
      (LocalConversation.lockedPass ids settings world 0 run)).conversation.executionStatus =
        .waitingForConfirmation) :
    (service.afterPass (LocalConversation.lockedPass ids settings world 0 run)).isActive =
      false := by
  rw [LocalConversation.lockedPass_of_makesStep hmakes, LocalConversation.stepPass] at hwaiting ⊢
  cases hpass : LocalConversation.checkStep ids settings
      { state := world.agentStep run.iteration (LocalConversation.approve run.state)
        iteration := run.iteration + 1 } with
  | leave exit => rfl
  | goOn next =>
      rw [hpass] at hwaiting
      exact absurd hwaiting (LocalConversation.checkStep_goOn hpass)

/-- An iteration without a step. -/
theorem afterPass_quiet {world : RunWorld} {run : RunState}
    (hnone : LocalConversation.makesStep settings run.state = false) :
    Quiet ids run.state
      (service.afterPass (LocalConversation.lockedPass ids settings world 0 run)).conversation := by
  unfold LocalConversation.makesStep at hnone
  unfold LocalConversation.lockedPass
  cases hstatus : run.state.executionStatus with
  | paused | stuck => exact .refl _
  | finished =>
      have hhooks := @ConversationState.emitHookExecutionEvents_quiet ids
        (world.stopHooks 0).length run.state
      simp only
      split
      · exact hhooks
      next feedback _ => exact hhooks.trans (LocalConversation.resume_quiet feedback _)
  | idle | running | waitingForConfirmation | error | deleting =>
      rw [hstatus] at hnone
      have hstuck : LocalConversation.isStuck settings run.state = true := by
        simpa using hnone
      simp only [hstuck, if_true]
      exact (Quiet.refl _).status .stuck

end EventService

namespace ConfirmedService

variable {ids : IdSource} {settings : RunSettings} {service next : EventService}
  {state : ConfirmedService} {unapproved : List ActionEvent}

/-! ## What a step shows -/

/-- What one step may show. -/
inductive Shown (service : EventService) : List ConfirmationEvent → Prop
  | nothing : Shown service []
  | requested : Shown service [.requested]
  | started : service.isActive → Shown service [.stepStarted (pending service)]
  | ended (waiting : List ActionEvent) : service.isActive →
      Shown service [.stepStarted (pending service), .endedWaiting waiting]

theorem shown_observe {label : ServiceStep} {seen : List ServiceEvent}
    (hstep : EventService.step ids settings service label = some (next, seen)) :
    Shown service (observe service next seen label) := by
  cases label with
  | run => exact .requested
  | iterate agentStep stopHooks =>
      have hactive : service.isActive := by
        unfold EventService.isActive
        cases hrun : service.runTask with
        | none => simp [EventService.step, hrun] at hstep
        | some phase => cases phase <;> simp_all [EventService.step]
      simp only [observe]
      split
      · split
        · exact .ended _ hactive
        · exact .started hactive
      · exact .nothing
  | raise agentStep =>
      have hactive : service.isActive := by
        unfold EventService.isActive
        cases hrun : service.runTask with
        | none => simp [EventService.step, hrun] at hstep
        | some phase => cases phase <;> simp_all [EventService.step]
      exact .started hactive
  | _ => exact .nothing

/-- As long as no step starts, somebody asks for a run or what waits is unapproved. -/
def Noted (trace : List ConfirmationEvent) (unapproved : List ActionEvent) : Prop :=
  ∀ before waiting middle, trace = before ++ .endedWaiting waiting :: middle →
    (∀ executed, .stepStarted executed ∉ middle) →
    .requested ∈ middle ∨ waiting ⊆ unapproved

theorem Noted.append {trace events : List ConfirmationEvent} (hnoted : Noted trace unapproved)
    (hshown : Shown service events) : Noted (trace ++ events) (events.foldl note unapproved) := by
  intro before waiting middle hsplit hquiet
  obtain ⟨rest, htrace, rfl⟩ | ⟨skipped, -, hevents⟩ := Segments.marker_split hsplit
  · -- the action has waited before
    cases hshown with
    | nothing =>
        rw [List.append_nil] at hquiet ⊢
        exact hnoted before waiting rest htrace hquiet
    | requested => exact .inl (List.mem_append_right _ List.mem_cons_self)
    | started => exact absurd (List.mem_append_right _ List.mem_cons_self) (hquiet _)
    | ended => exact absurd (List.mem_append_right _ List.mem_cons_self) (hquiet _)
  · cases hshown with
    | nothing => cases List.nil_eq_append_iff.mp hevents |>.2
    | requested => cases skipped <;> simp_all
    | started => cases skipped <;> simp_all
    | ended last =>
        obtain ⟨-, hlast⟩ : skipped = [.stepStarted (pending service)] ∧ last = waiting := by
          match skipped with
          | [] => simp at hevents
          | [_] => simp_all
          | _ :: _ :: _ => simp at hevents
        exact .inr (hlast ▸ List.Subset.refl _)

/-- What waits and is unapproved is not executed. -/
theorem confirmed_append {trace events : List ConfirmationEvent}
    (hconfirmed : ConfirmationEvent.Confirmed trace) (hnoted : Noted trace unapproved)
    (hshown : Shown service events)
    (hwaits : service.isActive → ∀ action ∈ unapproved, action ∉ pending service) :
    ConfirmationEvent.Confirmed (trace ++ events) := by
  intro before middle after waiting executed hsplit hquiet action hwaiting hexecuted
  rw [← List.cons_append, ← List.append_assoc] at hsplit
  obtain ⟨rest, htrace, -⟩ | ⟨skipped, htrace, hevents⟩ := Segments.marker_split hsplit
  · rw [List.append_assoc, List.cons_append] at htrace
    exact hconfirmed before middle rest waiting executed htrace hquiet action hwaiting hexecuted
  · obtain ⟨rfl, hactive, rfl⟩ :
        skipped = [] ∧ service.isActive ∧ executed = pending service := by
      cases hshown with
      | nothing => simp at hevents
      | requested => cases skipped <;> simp_all
      | started hactive => cases skipped <;> simp_all
      | ended last hactive =>
          match skipped with
          | [] => simp_all
          | [_] => simp at hevents
          | _ :: _ :: _ => simp at hevents
    rw [List.append_nil] at htrace
    refine (hnoted before waiting middle htrace.symm hquiet).resolve_right fun hsubset => ?_
    exact hwaits hactive action (hsubset hwaiting) hexecuted

/-! ## No run while an action waits -/

/-- What waits unapproved waits for a run task that is not there yet. -/
def Guarded (unapproved : List ActionEvent) (service : EventService) : Prop :=
  service.isActive → ∀ action ∈ unapproved, action ∉ pending service

theorem Guarded.of_inactive (hinactive : service.isActive = false) :
    Guarded unapproved service := by
  intro hactive
  rw [hinactive] at hactive
  cases hactive

theorem Guarded.of_nil : Guarded [] service :=
  fun _ _ haction => absurd haction List.not_mem_nil

theorem Guarded.keeps (hguarded : Guarded unapproved service)
    (hactive : next.isActive → service.isActive)
    (hpending : pending next ⊆ pending service) : Guarded unapproved next :=
  fun hnext action haction hmem =>
    hguarded (hactive hnext) action haction (hpending hmem)

theorem pending_subset (hquiet : Quiet ids service.conversation next.conversation) :
    pending next ⊆ pending service := hquiet.unmatched

theorem Guarded.step {label : ServiceStep} {seen : List ServiceEvent}
    (hguarded : Guarded unapproved service)
    (hrefuses : refusesWhileWaiting ⟨service, unapproved⟩ (.service label) = true)
    (hstep : EventService.step ids settings service label = some (next, seen)) :
    Guarded ((observe service next seen label).foldl note unapproved) next := by
  cases label with
  | run => exact .of_nil
  | sendMessage hooks message extendedContent run =>
      cases hstep
      exact hguarded.keeps id (List.Subset.refl _)
  | append index =>
      simp only [EventService.step] at hstep
      split at hstep
      next hooks message extendedContent run _ =>
        have hquiet := @LocalConversation.apply_quiet ids service.conversation
          (.sendMessage hooks message extendedContent) fun env heq => by cases heq
        split at hstep <;> cases hstep <;> exact hguarded.keeps id (pending_subset hquiet)
      · cases hstep
  | lockRun index =>
      simp only [EventService.step] at hstep
      split at hstep
      · split at hstep
        · cases hstep
        · cases hstep
          exact hguarded.keeps id (List.Subset.refl _)
      · cases hstep
  | readStatus index =>
      simp only [EventService.step] at hstep
      split at hstep
      · cases hstep
        exact hguarded.keeps id (List.Subset.refl _)
      · cases hstep
  | decideRun index =>
      simp only [EventService.step] at hstep
      split at hstep
      next caller executionStatus htask =>
        split at hstep
        next hrefused =>
          cases hstep
          cases caller <;> exact hguarded.keeps id (List.Subset.refl _)
        next haccepted =>
          cases hstep
          intro _ action haction hpending
          simp only [refusesWhileWaiting, htask, haccepted, Bool.or_false,
            Bool.not_eq_true', waits, List.any_eq_false, decide_eq_true_eq] at hrefuses
          exact hrefuses action haction hpending
      · cases hstep
  | leaveUnready =>
      simp only [EventService.step] at hstep
      split at hstep
      · split at hstep
        · cases hstep
        · cases hstep
          exact .of_inactive rfl
      · cases hstep
  | enterLoop =>
      simp only [EventService.step] at hstep
      split at hstep
      next hcreated =>
        cases hstep
        refine hguarded.keeps (fun _ => ?_) ?_
        · simp [EventService.isActive, hcreated]
        · simp [pending, LocalConversation.startRun_events]
      · cases hstep
  | iterate agentStep stopHooks =>
      simp only [EventService.step] at hstep
      split at hstep
      next iteration hlooping =>
        split at hstep
        next hmakes =>
          cases hstep
          simp only [observe, List.mem_cons_self, if_true]
          split
          next hwaiting => exact .of_inactive (EventService.afterPass_of_waiting hmakes hwaiting)
          next => exact .of_nil
        next hnone =>
          have hquiet := @EventService.afterPass_quiet ids settings service
            ⟨fun _ => agentStep, fun _ => stopHooks, fun _ => []⟩
            ⟨service.conversation, iteration⟩ (Bool.eq_false_of_not_eq_true hnone)
          cases hstep
          refine hguarded.keeps (fun _ => ?_) (pending_subset hquiet)
          simp [EventService.isActive, hlooping]
      · cases hstep
  | raise agentStep => exact .of_nil
  | handleException =>
      simp only [EventService.step] at hstep
      split at hstep
      · cases hstep
        exact .of_inactive rfl
      · cases hstep
  | clearRunTask =>
      simp only [EventService.step] at hstep
      split at hstep
      · cases hstep
        exact .of_inactive rfl
      · cases hstep
  | takeFlag index =>
      simp only [EventService.step] at hstep
      split at hstep
      · split at hstep <;> cases hstep <;> exact hguarded.keeps id (List.Subset.refl _)
      · cases hstep
  | honorFlag index =>
      simp only [EventService.step] at hstep
      split at hstep
      · split at hstep <;> cases hstep <;> exact hguarded.keeps id (List.Subset.refl _)
      · cases hstep
  | recordUpdate =>
      cases hstep
      exact hguarded.keeps id (pending_subset (LocalConversation.recordInternal_quiet _ _))

/-! ## Whole runs -/

/-- What has been shown fits what waits. -/
structure Gate (trace : List ConfirmationEvent) (state : ConfirmedService) : Prop where
  guarded : Guarded state.unapproved state.service
  noted : Noted trace state.unapproved
  confirmed : ConfirmationEvent.Confirmed trace

theorem Gate.serviceStep {trace seen : List ConfirmationEvent} {after : ConfirmedService}
    (hgate : Gate trace state) {label : ServiceStep}
    (hrefuses : refusesWhileWaiting state (.service label) = true)
    (hstep : state.serviceStep ids settings label = some (after, seen)) :
    Gate (trace ++ seen) after := by
  obtain ⟨⟨next, events⟩, hnext, heq⟩ := Option.map_eq_some_iff.mp hstep
  cases heq
  exact ⟨hgate.guarded.step hrefuses hnext, hgate.noted.append (shown_observe hnext),
    confirmed_append hgate.confirmed hgate.noted (shown_observe hnext) hgate.guarded⟩

theorem Gate.step {trace seen : List ConfirmationEvent} {after : ConfirmedService}
    (hgate : Gate trace state) {label : ConfirmationStep}
    (hrefuses : refusesWhileWaiting state label = true)
    (hstep : state.step ids settings label = some (after, seen)) : Gate (trace ++ seen) after := by
  cases label with
  | service label => exact hgate.serviceStep hrefuses hstep
  | respondToConfirmation accept hooks reason =>
      simp only [ConfirmedService.step] at hstep
      split at hstep
      · exact hgate.serviceStep rfl hstep
      · cases hstep
        rw [List.append_nil]
        refine ⟨fun _ action _ => ?_, hgate.noted, hgate.confirmed⟩
        simp [pending, LocalConversation.rejectPendingActions_unmatched]

/-- Any callers, any interleaving and any agent: what a step has left waiting is executed only
after an explicit request, as long as no run starts while it waits without one. -/
theorem confirmed_of_refuses {ids : IdSource} {settings : RunSettings}
    {conversation : ConversationState} {trace : List ConfirmationEvent}
    {state : ConfirmedService}
    (hruns : ((system ids settings).restrict refusesWhileWaiting).Runs
      (ofConversation conversation) trace state) : ConfirmationEvent.Confirmed trace := by
  have hgate : Gate trace state := by
    refine hruns.invariant_restrict Gate ⟨.of_nil, ?_, ?_⟩ ?_
    · intro before waiting middle htrace
      simp at htrace
    · intro before middle after waiting executed htrace
      simp at htrace
    · intro trace state label next seen hgate hallowed hnext
      exact hgate.step hallowed hnext
  exact hgate.confirmed

end ConfirmedService

section Waiting

open Sample

/-- The action that the first step leaves waiting. -/
def Sample.waitingAction : ActionEvent :=
  { askedAction with id := ids.uuid 2 }

/-- A step that proposes an action, or executes what is pending. -/
def Sample.askOrExecute : ServiceStep :=
  .iterate (LocalConversation.runStep ids asking) []

/-- Somebody accepts when the run task has been cleared. -/
theorem ConfirmedService.confirmed_of_refuses_accepted :
    ConfirmationEvent.Confirmed
      [.stepStarted [], .endedWaiting [waitingAction], .requested,
        .stepStarted [waitingAction]] := by
  obtain ⟨state, hruns⟩ : ∃ state, ((ConfirmedService.system ids oneStep).restrict
      ConfirmedService.refusesWhileWaiting).Runs (ConfirmedService.ofConversation started)
      [.stepStarted [], .endedWaiting [waitingAction], .requested,
        .stepStarted [waitingAction]] state :=
    Runs.exists_of_run
      ((sendAndRun "first" ++ [.enterLoop, askOrExecute, .clearRunTask, .takeFlag 0]).map
        .service ++ [.respondToConfirmation true {} ""] ++
        [.lockRun 0, .readStatus 0, .decideRun 0, .enterLoop, askOrExecute].map .service)
      (by decide +kernel)
  exact ConfirmedService.confirmed_of_refuses hruns

/-- A message is sent during the step that ends waiting. Its call of `run` comes when the run
task has been cleared. -/
theorem ConfirmedService.not_confirmed_message :
    ∃ trace state, (ConfirmedService.system ids oneStep).Runs
      (ConfirmedService.ofConversation started) trace state ∧
        ¬ConfirmationEvent.Confirmed trace := by
  obtain ⟨state, hruns⟩ : ∃ state, (ConfirmedService.system ids oneStep).Runs
      (ConfirmedService.ofConversation started)
      [.stepStarted [], .endedWaiting [waitingAction], .stepStarted [waitingAction]] state :=
    Runs.exists_of_run
      ((sendAndRun "first" ++ [.enterLoop,
        .sendMessage {} { role := .user, content := [.text "wait"] } [] true, askOrExecute,
        .append 0, .clearRunTask, .lockRun 0, .readStatus 0, .decideRun 0, .enterLoop,
        askOrExecute]).map .service) (by decide +kernel)
  refine ⟨_, state, hruns, fun hconfirmed => ?_⟩
  have hrequested := hconfirmed [.stepStarted []] [] [] [waitingAction] [waitingAction] rfl
    (fun _ => List.not_mem_nil) waitingAction List.mem_cons_self List.mem_cons_self
  cases hrequested

end Waiting

end ShuttleFlow
