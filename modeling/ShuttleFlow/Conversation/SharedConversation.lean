import ShuttleFlow.Conversation.Answered
import ShuttleFlow.Library.Transitions

/-! # A conversation that several threads work on

Whoever holds the state lock logs events one by one, and the log can be read
without the lock. A rejection reads what is pending before it takes the lock.
-/

namespace ShuttleFlow

open scoped List

namespace LocalConversation

variable (ids : IdSource)

/-- Reject what was pending when the log was read. -/
def rejectFound (hooks : HookManager) (reason : String) (pending : List ActionEvent)
    (state : ConversationState) : ConversationState :=
  let executionStatus :=
    if state.executionStatus = .waitingForConfirmation then .idle else state.executionStatus
  answerAll ids hooks (fun id action => ActionBatch.rejection id action reason .user) pending
    { state with executionStatus }

end LocalConversation

/-- The state as the lock protects it, and the part of the work under the lock
that is in the log already. -/
structure SharedConversation (Thread : Type) where
  state : ConversationState
  /-- What the thread that holds the lock is working towards. -/
  result : Option ConversationState := none
  /-- How many events are in the log. -/
  logged : Nat
  /-- What threads have found pending, until they get the lock. -/
  found : Thread → Option (List ActionEvent) := fun _ => none

inductive SharedStep (Thread : Type)
  /-- `run` takes the lock for a step, or another method for its work. -/
  | enter (operation : Operation)
  /-- `reject_pending_actions` reads the log. -/
  | find (thread : Thread)
  /-- It gets the lock. -/
  | reject (thread : Thread) (hooks : HookManager) (reason : String)
  /-- The thread that holds the lock logs its next event. -/
  | emit
  | release

namespace SharedConversation

variable {Thread : Type} [DecidableEq Thread]

/-- What the lock holder, if there is one, leaves behind. -/
def target (shared : SharedConversation Thread) : ConversationState :=
  shared.result.getD shared.state

/-- The log as threads read it. -/
def log (shared : SharedConversation Thread) : List Event :=
  shared.target.events.take shared.logged

def ofState (state : ConversationState) : SharedConversation Thread where
  state
  logged := state.events.length

def step (ids : IdSource) (shared : SharedConversation Thread) :
    SharedStep Thread → Option (SharedConversation Thread)
  | .enter operation =>
      match shared.result with
      | some _ => none
      | none =>
          some { shared with result := some (LocalConversation.apply ids shared.state operation) }
  | .find thread =>
      match shared.found thread with
      | some _ => none
      | none =>
          let pending := ConversationState.getUnmatchedActions shared.log
          some { shared with found := Function.update shared.found thread (some pending) }
  | .reject thread hooks reason =>
      match shared.result, shared.found thread with
      | none, some pending =>
          let result := LocalConversation.rejectFound ids hooks reason pending shared.state
          some { shared with
            result := some result
            found := Function.update shared.found thread none }
      | _, _ => none
  | .emit =>
      match shared.result with
      | none => none
      | some result =>
          if shared.logged < result.events.length then
            some { shared with logged := shared.logged + 1 }
          else none
  | .release =>
      match shared.result with
      | none => none
      | some result =>
          if shared.logged = result.events.length then
            some { shared with state := result, result := none }
          else none

def system (ids : IdSource) :
    TransitionSystem (SharedConversation Thread) (SharedStep Thread) Empty where
  step shared label := (shared.step ids label).map fun next => (next, [])

/-- What was found pending is still so when the lock is taken. -/
def stillPending (shared : SharedConversation Thread) : SharedStep Thread → Bool
  | .reject thread _ _ => ((shared.found thread).getD []).all fun action =>
      (ConversationState.getUnmatchedActions shared.state.events).contains action
  | _ => true

end SharedConversation

/-! ## Answers to all actions -/

/-- No action, executable or not, has two answers after it. -/
def ReceivesAtMostOne (events : List Event) : Prop :=
  ∀ before action after, events = before ++ .convertible (.action action) :: after →
    after.countP (·.answers action) ≤ 1

theorem ReceivesAtMostOne.answeredAtMostOnce {events : List Event}
    (hmost : ReceivesAtMostOne events) : AnsweredAtMostOnce events :=
  fun before action after hsplit _ => hmost before action after hsplit

theorem ReceivesAtMostOne.of_initial {events earlier : List Event}
    (hmost : ReceivesAtMostOne events) (hpre : earlier <+: events) :
    ReceivesAtMostOne earlier := by
  obtain ⟨rest, rfl⟩ := hpre
  intro before action after hsplit
  have hall := hmost before action (after ++ rest) (by rw [hsplit]; simp)
  rw [List.countP_append] at hall
  omega

section Turn

variable {ids : IdSource} {before after : ConversationState} {operation : Operation}
variable {calls : List CallPiece} {answers : List AnswerPiece} {trailing : List Event}

/-- Only executable actions are taken up. -/
theorem Turn.answered_executable
    (hturn : Turn ids before after operation calls answers trailing) {action : ActionEvent}
    (haction : action ∈ answers.map AnswerPiece.action) : action.action.isSome := by
  rcases List.mem_append.mp (hturn.answered.subset haction) with hmem | hmem
  · obtain ⟨_, _, _, hvalid, _⟩ := ConversationState.mem_getUnmatchedActions.mp hmem
    exact hvalid
  · rw [← hturn.calls_executable] at hmem
    obtain ⟨event, -, hexecutable⟩ := List.mem_flatMap.mp hmem
    exact (mem_executable.mp hexecutable).2

/-- An action that cannot be executed is answered by the error that is logged with it. -/
theorem Turn.countP_calls_invalid
    (hturn : Turn ids before after operation calls answers trailing)
    (hdistinct : DistinctCalls after.events) {action : ActionEvent}
    (haction : action ∈ loggedActions after.events) (hinvalid : action.action.isSome = false) :
    (calls.flatMap CallPiece.events).countP (·.answers action) =
      (calls.map CallPiece.action).count action := by
  rcases hturn.called with rfl | ⟨-, env, response, -, -, hlogs⟩
  · rfl
  have heach : ∀ piece ∈ calls, piece.action ∈ loggedActions after.events →
      piece.events.countP (·.answers action) = if piece.action == action then 1 else 0 := by
    refine hlogs.forall fun piece header toolCall _ hpiece hmem => ?_
    cases piece with
    | valid hookIds other =>
        obtain ⟨_, _, _, _, _, -, hother⟩ := hpiece
        have hne : other ≠ action := by
          rintro rfl
          rw [hother] at hinvalid
          cases hinvalid
        rw [CallPiece.events, List.countP_append, List.countP_singleton,
          countP_answers_passive fun _ hevent => hookEvents_isPassive hevent]
        simp [CallPiece.action, hne, Event.answers]
    | invalid other error =>
        obtain ⟨_, _, _, _, -, hother, rfl⟩ := hpiece
        have hiff : toolCall.id = action.toolCallId ↔ other = action := by
          have hcall : other.toolCallId = toolCall.id := by rw [hother]
          exact ⟨fun hsame => hdistinct.eq_of_same_call hmem haction (hcall.trans hsame),
            fun hsame => hsame ▸ hcall.symm⟩
        simp [CallPiece.events, CallPiece.action, List.countP_cons, Event.answers, hiff]
  have hpieces : ∀ pieces ⊆ calls, (pieces.flatMap CallPiece.events).countP (·.answers action) =
      (pieces.map CallPiece.action).count action := by
    intro pieces hsub
    induction pieces with
    | nil => rfl
    | cons piece pieces ih =>
        obtain ⟨hpiece, hsub⟩ := List.cons_subset.mp hsub
        have hmem : piece.action ∈ loggedActions after.events := by
          rw [hturn.loggedActions_eq]
          exact List.mem_append_right _ (List.mem_map_of_mem hpiece)
        rw [List.flatMap_cons, List.countP_append, List.map_cons, List.count_cons, ih hsub,
          heach piece hpiece hmem, Nat.add_comm]
  exact hpieces calls (List.Subset.refl _)

theorem Turn.countP_turnEvents_invalid
    (hturn : Turn ids before after operation calls answers trailing)
    (hafter : Consistent ids after) (hdistinct : DistinctCalls after.events) {action : ActionEvent}
    (haction : action ∈ loggedActions after.events) (hinvalid : action.action.isSome = false) :
    (turnEvents calls answers trailing).countP (·.answers action) =
      (calls.map CallPiece.action).count action := by
  have hids := (List.nodup_append.mp hafter.reserved.nodup).1
  have htrailing : trailing.countP (·.answers action) = 0 := by
    rcases hturn.trails with hpassive | ⟨-, -, _, _, _, passive, -, -, -, rfl, hpassive⟩
    · exact countP_answers_passive hpassive action
    · exact @countP_answers_passive passive hpassive action
  have hanswers : (answers.flatMap AnswerPiece.events).countP (·.answers action) = 0 := by
    refine List.countP_eq_zero.mpr fun event hevent hanswered => ?_
    obtain ⟨piece, hpiece, hevent⟩ := List.mem_flatMap.mp hevent
    rcases List.mem_append.mp hevent with hevent | hevent
    · rw [not_answers_of_isPassive (hookEvents_isPassive hevent)] at hanswered
      cases hanswered
    · rw [List.mem_singleton.mp hevent] at hanswered
      have htaken : piece.action ∈ answers.map AnswerPiece.action := List.mem_map_of_mem hpiece
      obtain rfl := (answers_iff hids hdistinct haction (hturn.answered_logged.subset htaken)
        (hturn.answering piece hpiece)).mp hanswered
      rw [hturn.answered_executable htaken] at hinvalid
      cases hinvalid
  rw [turnEvents, List.countP_append, List.countP_append, htrailing, hanswers,
    hturn.countP_calls_invalid hdistinct haction hinvalid]
  rfl

/-- One turn gives no action a second answer. -/
theorem Turn.receivesAtMostOne (hturn : Turn ids before after operation calls answers trailing)
    (hafter : Consistent ids after) (hdistinct : DistinctCalls after.events)
    (hbefore : ReceivesAtMostOne before.events) : ReceivesAtMostOne after.events := by
  intro earlier action later hsplit
  cases hvalid : action.action.isSome with
  | true =>
      exact hturn.answeredAtMostOnce hafter hdistinct hbefore.answeredAtMostOnce earlier action
        later hsplit hvalid
  | false =>
      have haction : action ∈ loggedActions after.events := by
        rw [mem_loggedActions, hsplit]
        simp
      have hcount := hturn.countP_turnEvents_invalid hafter hdistinct haction hvalid
      have hlogged := List.Nodup.of_map _ hdistinct
      rw [hturn.loggedActions_eq] at hlogged
      rw [hturn.events_eq] at hsplit
      refine Segments.countP_later_le (fun prior middle hprior => ?_) ?_ hsplit
      · -- an older action is not among the calls
        have hold : action ∈ loggedActions before.events := by
          rw [mem_loggedActions, hprior]
          simp
        have hnew : action ∉ calls.map CallPiece.action := fun hmem =>
          (List.nodup_append.mp hlogged).2.2 action hold action hmem rfl
        rw [hcount, List.count_eq_zero.mpr hnew]
        exact hbefore prior action middle hprior
      · rw [hcount]
        exact List.nodup_iff_count_le_one.mp (List.nodup_append.mp hlogged).2.1 action

end Turn

theorem Reachable.receivesAtMostOne {ids : IdSource} {state : ConversationState}
    (hstate : Reachable ids state) (hdistinct : DistinctCalls state.events) :
    ReceivesAtMostOne state.events := by
  induction hstate with
  | init systemPrompt dynamicContext =>
      intro earlier action later hsplit
      have hmem : Event.convertible (.action action) ∈
          (LocalConversation.initState ids systemPrompt dynamicContext).events := by
        rw [hsplit]
        simp
      cases List.mem_singleton.mp hmem
  | apply operation hbefore ih =>
      obtain ⟨calls, answers, trailing, hturn⟩ :=
        LocalConversation.apply_turn _ hbefore.consistent operation
      exact hturn.receivesAtMostOne (hturn.consistent hbefore.consistent) hdistinct
        (ih (hturn.distinctCalls hdistinct))

/-! ## Runs of several threads -/

/-- Of two parts of a list, the one with fewer items is a part of the other. -/
theorem sublist_of_subset {α : Type} {first second whole : List α} (hfirst : first <+ whole)
    (hsecond : second <+ whole) (hnodup : whole.Nodup) (hsub : first ⊆ second) :
    first <+ second := by
  induction whole generalizing first second with
  | nil =>
      rw [List.sublist_nil.mp hfirst]
      exact List.nil_sublist _
  | cons item rest ih =>
      obtain ⟨hitem, hnodup⟩ := List.nodup_cons.mp hnodup
      have hrest : ∀ {fewer more : List α},
          fewer <+ rest → fewer ⊆ item :: more → fewer ⊆ more := by
        intro fewer more hfewer hmore other hother
        rcases List.mem_cons.mp (hmore hother) with rfl | hmem
        · exact absurd (hfewer.subset hother) hitem
        · exact hmem
      rcases List.sublist_cons_iff.mp hfirst with hfewer | ⟨fewer, rfl, hfewer⟩ <;>
        rcases List.sublist_cons_iff.mp hsecond with hmore | ⟨more, rfl, hmore⟩
      · exact ih hfewer hmore hnodup hsub
      · exact (ih hfewer hmore hnodup (hrest hfewer hsub)).cons item
      · exact absurd (hmore.subset (hsub List.mem_cons_self)) hitem
      · refine (ih hfewer hmore hnodup (hrest hfewer ?_)).cons_cons item
        exact (List.cons_subset.mp hsub).2

theorem LocalConversation.rejectFound_turn {ids : IdSource} {hooks : HookManager} {reason : String}
    {pending : List ActionEvent} {state : ConversationState}
    (hpending : pending <+ ConversationState.getUnmatchedActions state.events) :
    ∃ answers, Turn ids state (rejectFound ids hooks reason pending state)
      (.rejectPendingActions hooks reason) [] answers [] :=
  rejections_turn hpending

namespace SharedConversation

variable {ids : IdSource} {Thread : Type} [DecidableEq Thread]
variable {shared next : SharedConversation Thread}

/-- The invariant of runs whose rejections are not stale. -/
structure Sound (ids : IdSource) (shared : SharedConversation Thread) : Prop where
  consistent : Consistent ids shared.target
  answered : DistinctCalls shared.target.events → ReceivesAtMostOne shared.target.events
  logged : shared.logged ≤ shared.target.events.length
  free : shared.result = none → shared.logged = shared.target.events.length
  found : ∀ thread pending, shared.found thread = some pending →
    pending <+ loggedActions shared.target.events

omit [DecidableEq Thread] in
theorem Sound.log (hsound : Sound ids shared) (hdistinct : DistinctCalls shared.target.events) :
    ReceivesAtMostOne shared.log :=
  (hsound.answered hdistinct).of_initial (List.take_prefix _ _)

omit [DecidableEq Thread] in
/-- The thread that takes the lock begins a turn. -/
theorem Sound.turn (hsound : Sound ids shared) (hfree : shared.result = none)
    {result : ConversationState} {operation : Operation} {calls : List CallPiece}
    {answers : List AnswerPiece} {trailing : List Event}
    (hturn : Turn ids shared.state result operation calls answers trailing)
    {found : Thread → Option (List ActionEvent)}
    (hfound : ∀ thread pending, found thread = some pending → shared.found thread = some pending) :
    Sound ids { shared with result := some result, found } := by
  have htarget : shared.target = shared.state := by
    rw [target, hfree]
    rfl
  have hconsistent := htarget ▸ hsound.consistent
  refine ⟨hturn.consistent hconsistent, fun hdistinct => ?_, ?_, fun hnone => (by cases hnone),
    fun thread pending hpending => ?_⟩
  · refine hturn.receivesAtMostOne (hturn.consistent hconsistent) hdistinct ?_
    exact htarget ▸ hsound.answered (htarget ▸ hturn.distinctCalls hdistinct)
  · have hlogged := hsound.logged
    rw [htarget] at hlogged
    change shared.logged ≤ result.events.length
    rw [hturn.events_eq, List.length_append]
    omega
  · have hold := hsound.found thread pending (hfound thread pending hpending)
    rw [htarget] at hold
    change pending <+ loggedActions result.events
    rw [hturn.loggedActions_eq]
    exact hold.trans (List.sublist_append_left _ _)

theorem Sound.step (hsound : Sound ids shared) {label : SharedStep Thread}
    (hallowed : shared.stillPending label) (hstep : shared.step ids label = some next) :
    Sound ids next := by
  cases label with
  | enter operation =>
      simp only [SharedConversation.step] at hstep
      split at hstep
      next => cases hstep
      next hfree =>
        cases hstep
        have hconsistent : Consistent ids shared.state := by
          have htarget := hsound.consistent
          rwa [target, hfree] at htarget
        obtain ⟨calls, answers, trailing, hturn⟩ :=
          LocalConversation.apply_turn shared.state hconsistent operation
        exact hsound.turn hfree hturn fun _ _ hfound => hfound
  | find thread =>
      simp only [SharedConversation.step] at hstep
      split at hstep
      next => cases hstep
      next =>
        cases hstep
        refine ⟨hsound.consistent, hsound.answered, hsound.logged, hsound.free, ?_⟩
        intro other pending hpending
        dsimp only at hpending
        by_cases hsame : other = thread
        · rw [hsame, Function.update_self] at hpending
          cases hpending
          have hlog : loggedActions shared.log <+ loggedActions shared.target.events :=
            ((List.take_sublist _ _).filterMap _).filterMap _
          exact (getUnmatchedActions_sublist _).trans hlog
        · rw [Function.update_of_ne hsame] at hpending
          exact hsound.found other pending hpending
  | reject thread hooks reason =>
      simp only [SharedConversation.step] at hstep
      split at hstep
      next pending hfree hpending =>
        cases hstep
        have htarget : shared.target = shared.state := by
          rw [target, hfree]
          rfl
        have hconsistent := htarget ▸ hsound.consistent
        have hnodup := List.Nodup.of_map _
          (loggedActions_ids_nodup (List.nodup_append.mp hconsistent.reserved.nodup).1)
        have hstill : pending <+ ConversationState.getUnmatchedActions shared.state.events := by
          refine sublist_of_subset (htarget ▸ hsound.found thread pending hpending)
            (getUnmatchedActions_sublist _) hnodup fun action haction => ?_
          simp only [stillPending, hpending, Option.getD_some] at hallowed
          simpa using List.all_eq_true.mp hallowed action haction
        obtain ⟨answers, hturn⟩ := @LocalConversation.rejectFound_turn ids hooks reason _ _ hstill
        refine hsound.turn hfree hturn fun other found hfound => ?_
        by_cases hsame : other = thread
        · rw [hsame, Function.update_self] at hfound
          cases hfound
        · rwa [Function.update_of_ne hsame] at hfound
      next => cases hstep
  | emit =>
      simp only [SharedConversation.step] at hstep
      split at hstep
      next => cases hstep
      next result hresult =>
        split at hstep
        next hlt =>
          cases hstep
          refine ⟨hsound.consistent, hsound.answered, ?_, ?_, hsound.found⟩
          · change shared.logged + 1 ≤ shared.target.events.length
            rw [target, hresult]
            exact hlt
          · intro hnone
            cases hresult.symm.trans hnone
        next => cases hstep
  | release =>
      simp only [SharedConversation.step] at hstep
      split at hstep
      next => cases hstep
      next result hresult =>
        split at hstep
        next hall =>
          cases hstep
          have htarget : shared.target = result := by
            rw [target, hresult]
            rfl
          exact ⟨htarget ▸ hsound.consistent, htarget ▸ hsound.answered, hall.le, fun _ => hall,
            htarget ▸ hsound.found⟩
        next => cases hstep

omit [DecidableEq Thread] in
theorem sound_ofState {state : ConversationState} (hstate : Reachable ids state) :
    Sound ids (@ofState Thread state) where
  consistent := hstate.consistent
  answered := hstate.receivesAtMostOne
  logged := le_rfl
  free _ := rfl
  found thread pending hpending := by cases hpending

/-- Whatever the threads do, as long as what a rejection has found is still
pending when it takes the lock, no action receives two answers. -/
theorem receivesAtMostOne_of_runs {state : ConversationState} (hstate : Reachable ids state)
    {trace : List Empty}
    (hruns : ((system ids).restrict stillPending).Runs (ofState state) trace next)
    (hdistinct : DistinctCalls next.target.events) : ReceivesAtMostOne next.log := by
  have hsound : Sound ids next := by
    refine hruns.invariant_restrict (fun _ => Sound ids) (sound_ofState hstate) ?_
    intro _ shared label next _ hsound hallowed hstep
    obtain ⟨_, hnext, hsame⟩ := Option.map_eq_some_iff.mp hstep
    cases hsame
    exact hsound.step hallowed hnext
  exact hsound.log hdistinct

end SharedConversation

section Stale

open Sample

/-- Actions have to be confirmed. -/
def Sample.asking : Environment :=
  { environment (.response (response "r" [toolCall "c" "tool"])) with
    shouldConfirm := fun _ => true }

def Sample.askedAction : ActionEvent where
  id := ids.uuid 1
  action := some ⟨.other, ""⟩
  toolName := "tool"
  toolCallId := "c"
  toolCall := toolCall "c" "tool"
  llmResponseId := "r"

/-- The action is rejected before the next step. -/
theorem SharedConversation.receivesAtMostOne_of_runs_rejected :
    ∃ shared : SharedConversation Unit, .convertible (.action askedAction) ∈ shared.log ∧
      ConversationState.getUnmatchedActions shared.log = [] ∧ ReceivesAtMostOne shared.log := by
  refine ⟨_, ?_, ?_, SharedConversation.receivesAtMostOne_of_runs (@Reachable.init ids "" none)
    (.of_run [.enter (.step asking), .emit, .release, .find (), .reject () {} "no", .emit,
      .release] rfl) ?_⟩
  · decide
  · decide
  · decide

/-- A rejection has found the action pending, and a step executes it first. -/
theorem SharedConversation.not_receivesAtMostOne_when_stale :
    ∃ shared : SharedConversation Unit, ∃ trace,
      (SharedConversation.system ids).Runs (SharedConversation.ofState started) trace shared ∧
        DistinctCalls shared.target.events ∧ ¬ReceivesAtMostOne shared.log := by
  refine ⟨_, _, .of_run
    [.enter (.step asking), .emit, .release, .find (), .enter (.step asking), .emit, .release,
      .reject () {} "no", .emit, .release] rfl, by decide, fun hmost => ?_⟩
  have htwo := hmost [Event.convertible (.systemPrompt ⟨ids.uuid 0, "", none⟩)] askedAction _ rfl
  exact absurd htwo (by decide)

end Stale

end ShuttleFlow
