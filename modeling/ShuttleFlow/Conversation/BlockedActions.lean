import ShuttleFlow.Conversation.Answered
import ShuttleFlow.Conversation.Blocks
import ShuttleFlow.Conversation.Fork

/-! # Blocked actions are never executed

As long as an action is unmatched, its block is in the state. A fork does not
copy the block, so this holds of histories whose forks leave no block behind.
-/

namespace ShuttleFlow

open scoped List

/-! ## Observed actions -/

/-- The action an observation is the result of. -/
def Event.observes? : Event → Option EventID
  | .convertible (.observation (.observation observation)) => some observation.actionId
  | _ => none

/-- The ids of the actions that have results. -/
def observed (events : List Event) : List EventID :=
  events.filterMap Event.observes?

@[simp] theorem observed_append (first second : List Event) :
    observed (first ++ second) = observed first ++ observed second :=
  List.filterMap_append ..

theorem observed_eq_nil {events : List Event}
    (hnone : ∀ event ∈ events, event.observes? = none) : observed events = [] :=
  List.filterMap_eq_nil_iff.mpr hnone

theorem observes?_of_isPassive {event : Event} (hpassive : event.isPassive = true) :
    event.observes? = none := by
  cases event with
  | convertible event =>
      cases event with
      | observation observation => cases hpassive
      | _ => rfl
  | _ => rfl

@[simp] theorem observed_hookEvents (hookIds : List EventID) : observed (hookEvents hookIds) = [] :=
  observed_eq_nil fun _ hevent => observes?_of_isPassive (hookEvents_isPassive hevent)

theorem mem_observed {events : List Event} {observation : ObservationEvent}
    (hmem : .convertible (.observation (.observation observation)) ∈ events) :
    observation.actionId ∈ observed events :=
  List.mem_filterMap.mpr ⟨_, hmem, rfl⟩

/-- Logged calls have no results yet. -/
theorem CallPiece.LogsAll.observed {env : Environment} {llmResponseId : EventID}
    {header : Agent.Header} {toolCalls : List MessageToolCall} {pieces : List CallPiece}
    (hlogs : CallPiece.LogsAll env llmResponseId header toolCalls pieces) :
    ShuttleFlow.observed (pieces.flatMap CallPiece.events) = [] := by
  refine observed_eq_nil fun event hevent => ?_
  obtain ⟨piece, hpiece, hevent⟩ := List.mem_flatMap.mp hevent
  have hnone : ∀ piece ∈ pieces, ∀ event ∈ piece.events, event.observes? = none := by
    refine hlogs.forall fun piece header toolCall _ hpiece event hevent => ?_
    cases piece with
    | valid hookIds action =>
        rcases List.mem_append.mp hevent with hevent | hevent
        · exact observes?_of_isPassive (hookEvents_isPassive hevent)
        · rw [List.mem_singleton.mp hevent]
          rfl
    | invalid action error =>
        rcases List.mem_cons.mp hevent with rfl | hevent
        · rfl
        · rw [List.mem_singleton.mp hevent]
          rfl
  exact hnone piece hpiece event hevent

namespace ConversationState

variable {ids : IdSource} {hooks : HookManager}

theorem onEvent_observed (state : ConversationState) (observation : ObservationBaseEvent) :
    observed (state.onEvent ids hooks (.convertible (.observation observation))).events =
      observed state.events ++
        (Event.observes? (.convertible (.observation observation))).toList := by
  obtain ⟨hookIds, hlogged, -⟩ := @onEvent_observation ids hooks state observation
  rw [hlogged, observed_append, observed_append, observed_hookEvents, List.append_nil]
  cases observation <;> rfl

end ConversationState

namespace ActionBatch

variable {ids : IdSource} {executor : Executor}

/-- The result of an action is emitted only if it is not blocked. -/
theorem emitOne_observed {hooks : HookManager} {batch : ActionBatch} {action : ActionEvent}
    (hresolves : Resolves batch action) (state : ConversationState) :
    ∀ id ∈ observed (emitOne ids hooks batch state action).events,
      id ∈ observed state.events ∨ id = action.id ∧ batch.blockedReasons action.id = none := by
  intro id hid
  unfold emitOne at hid
  split at hid
  next reason _ =>
    refine .inl ?_
    simpa [rejection, ConversationState.onEvent_observed, Event.observes?,
      ConversationState.drawId] using hid
  next hfree =>
    rcases hresolves with hblocked | ⟨-, observation, hresult, hanswers⟩
    · rw [hfree] at hblocked
      cases hblocked
    · simp only [hresult, Option.getD_some, List.foldl_cons, List.foldl_nil,
        ConversationState.onEvent_observed, List.mem_append] at hid
      rcases hid with hid | hid
      · exact .inl hid
      · cases observation with
        | observation observation =>
            rw [show id = observation.actionId by simpa [Event.observes?] using hid]
            exact .inr ⟨hanswers.1, hfree⟩
        | userReject rejection => cases hid
        | agentError error => cases hid

theorem emit_observed {hooks : HookManager} {batch : ActionBatch} {actions : List ActionEvent}
    (hresolves : ∀ action ∈ actions, Resolves batch action) (state : ConversationState) :
    ∀ id ∈ observed (actions.foldl (emitOne ids hooks batch) state).events,
      id ∈ observed state.events ∨
        ∃ action ∈ actions, id = action.id ∧ batch.blockedReasons action.id = none := by
  induction actions generalizing state with
  | nil => exact fun id hid => .inl hid
  | cons action rest ih =>
      intro id hid
      rcases ih (fun other hother => hresolves other (.tail _ hother)) _ id hid with hid | hid
      · rcases emitOne_observed (hresolves action List.mem_cons_self) state id hid with hid | hid
        · exact .inl hid
        · exact .inr ⟨action, List.mem_cons_self, hid⟩
      · obtain ⟨other, hother, hid⟩ := hid
        exact .inr ⟨other, .tail _ hother, hid⟩

theorem mem_executed {state : ConversationState} {actions : List ActionEvent}
    (hids : (actions.map ActionEvent.id).Nodup) {action : ActionEvent} :
    action ∈ executed state actions ↔
      action ∈ (truncateAtFinish actions).1 ∧ state.blockedActions action.id = none := by
  have hkept := hids.sublist ((truncateAtFinish_initial actions).sublist.map _)
  obtain ⟨-, -, -, hreasons⟩ := partitionBlocked_blocks state hkept
  rw [executed, (partitionBlocked_spec state hkept).2.2.1, List.mem_filter]
  refine and_congr_right fun hmem => ?_
  rw [hreasons action hmem]
  simp

theorem prepare_blockedReasons (state : ConversationState) {actions : List ActionEvent}
    (hids : (actions.map ActionEvent.id).Nodup) {action : ActionEvent}
    (haction : action ∈ (truncateAtFinish actions).1) :
    (prepare ids executor state actions).1.blockedReasons action.id =
      state.blockedActions action.id := by
  have hkept := hids.sublist ((truncateAtFinish_initial actions).sublist.map _)
  obtain ⟨-, -, -, hreasons⟩ := partitionBlocked_blocks state hkept
  exact hreasons action haction

theorem executeActions_observed (state : ConversationState) {actions : List ActionEvent}
    (hids : (actions.map ActionEvent.id).Nodup)
    (hcalls : ∀ action ∈ actions, action.toolCall.id = action.toolCallId) :
    ∀ id ∈ observed (executeActions ids executor state actions).events,
      id ∈ observed state.events ∨ ∃ action ∈ executed state actions, id = action.id := by
  intro id hid
  obtain ⟨hactions, hevents, hresolves, -⟩ :=
    @prepare_spec ids executor state actions hids hcalls
  obtain ⟨rest, hpasses, -⟩ := @finalize_spec ids executor (prepare ids executor state actions).1
    (emit ids executor.hooks (prepare ids executor state actions).1
      (prepare ids executor state actions).2)
  rw [executeActions, hpasses.events, observed_append,
    observed_eq_nil fun event hevent => observes?_of_isPassive (hpasses.passive event hevent),
    List.append_nil, emit, hactions] at hid
  rcases emit_observed hresolves _ id hid with hid | ⟨action, haction, hid, hfree⟩
  · exact .inl (hevents ▸ hid)
  · refine .inr ⟨action, (mem_executed hids).mpr ⟨haction, ?_⟩, hid⟩
    rw [← prepare_blockedReasons state hids haction]
    exact hfree

end ActionBatch

/-! ## Quiet changes -/

/-- No action is logged, executed or blocked. -/
structure Quiet (ids : IdSource) (before after : ConversationState) : Prop
    extends Keeps ids before after where
  logged : loggedActions after.events = loggedActions before.events
  observed : observed after.events = observed before.events
  unmatched : ConversationState.getUnmatchedActions after.events ⊆
    ConversationState.getUnmatchedActions before.events
  reserved : Reserved ids before [] → Reserved ids after []

namespace Quiet

variable {ids : IdSource} {before middle after : ConversationState}

theorem trans (hfirst : Quiet ids before middle) (hsecond : Quiet ids middle after) :
    Quiet ids before after where
  toKeeps := hfirst.toKeeps.trans hsecond.toKeeps
  logged := hsecond.logged.trans hfirst.logged
  observed := hsecond.observed.trans hfirst.observed
  unmatched _ hmem := hfirst.unmatched (hsecond.unmatched hmem)
  reserved hbefore := hsecond.reserved (hfirst.reserved hbefore)

/-- The events that are appended log no action, and hold no result of one. -/
theorem of_append (hkeeps : Keeps ids before after) {trailing : List Event}
    (hevents : after.events = before.events ++ trailing)
    (hexecutable : loggedActions trailing = [])
    (hobserved : ShuttleFlow.observed after.events = ShuttleFlow.observed before.events)
    (hreserved : Reserved ids before [] → Reserved ids after []) : Quiet ids before after where
  toKeeps := hkeeps
  logged := by rw [hevents, loggedActions_append, hexecutable, List.append_nil]
  observed := hobserved
  unmatched := by
    have hnone : ConversationState.getUnmatchedActions trailing = [] :=
      List.eq_nil_of_sublist_nil (hexecutable ▸ getUnmatchedActions_sublist trailing)
    rw [hevents, ConversationState.getUnmatchedActions_append, hnone, List.append_nil]
    exact List.filter_sublist.subset
  reserved := hreserved

theorem ofPasses (hkeeps : Keeps ids before after) {trailing : List Event}
    (hpasses : Passes ids before after trailing) : Quiet ids before after :=
  .of_append hkeeps hpasses.events (loggedActions_passive hpasses.passive)
    (by rw [hpasses.events, observed_append, observed_eq_nil fun event hevent =>
      observes?_of_isPassive (hpasses.passive event hevent), List.append_nil])
    (hpasses.reserved [])

theorem refl (state : ConversationState) : Quiet ids state state :=
  .ofPasses (.refl state) (.refl rfl rfl)

theorem status (hquiet : Quiet ids before after)
    (executionStatus : ConversationExecutionStatus) :
    Quiet ids before { after with executionStatus } :=
  hquiet.trans (.ofPasses (.of_eq rfl rfl le_rfl) (.refl rfl rfl))

end Quiet

namespace LocalConversation

variable {ids : IdSource} {hooks : HookManager}

theorem answerAll_observed {answer : EventID → ActionEvent → ObservationBaseEvent}
    (hanswer : ∀ id action,
      Event.observes? (.convertible (.observation (answer id action))) = none)
    (actions : List ActionEvent) (state : ConversationState) :
    observed (answerAll ids hooks (fun id action => .convertible (.observation (answer id action)))
      actions state).events = observed state.events := by
  induction actions generalizing state with
  | nil => rfl
  | cons action rest ih =>
      refine (ih _).trans ?_
      rw [ConversationState.onEvent_observed, hanswer]
      exact List.append_nil _

/-- Rejections and errors are answers without results. -/
theorem answerAll_quiet {answer : EventID → ActionEvent → ObservationBaseEvent}
    (hanswers : ∀ id action, (answer id action).Answers action ∧ (answer id action).id = id)
    (hnone : ∀ id action, Event.observes? (.convertible (.observation (answer id action))) = none)
    (actions : List ActionEvent) (state : ConversationState) :
    Quiet ids state (answerAll ids hooks
      (fun id action => .convertible (.observation (answer id action))) actions state) := by
  obtain ⟨pieces, -, hevents, hreserved⟩ := @answerAll_spec ids hooks answer hanswers actions state
  have hkeeps := @answerAll_keeps ids hooks
    (fun id action => .convertible (.observation (answer id action)))
    (fun id action => ⟨(hanswers id action).2, rfl⟩) actions state
  exact .of_append hkeeps
    hevents (loggedActions_answers pieces) (answerAll_observed hnone actions state) (hreserved [])

theorem recordInternal_quiet (state : ConversationState) (kind : InternalKind) :
    Quiet ids state (state.recordInternal ids kind) := by
  obtain ⟨trailing, hpasses⟩ := @Passes.recordInternal ids state kind
  exact .ofPasses (ConversationState.recordInternal_keeps state kind) hpasses

/-- Only steps log actions or execute them. -/
theorem apply_quiet {state : ConversationState} {operation : Operation}
    (hother : ∀ env, operation ≠ .step env) : Quiet ids state (apply ids state operation) := by
  have hkeeps := @apply_keeps ids state operation hother
  cases operation with
  | sendMessage hooks message extendedContent =>
      obtain ⟨trailing, hpasses⟩ := @sendMessage_spec ids hooks message extendedContent state
      exact .ofPasses hkeeps hpasses
  | step env => exact absurd rfl (hother env)
  | rejectPendingActions hooks reason =>
      simp only [apply, rejectPendingActions]
      exact ((Quiet.refl state).status _).trans (@answerAll_quiet ids hooks
        (fun id action => .userReject
          ⟨id, action.toolName, action.toolCallId, reason, .user, action.id⟩)
        (fun _ _ => ⟨⟨rfl, rfl⟩, rfl⟩) (fun _ _ => rfl) _ _)
  | sendFeedback hooks feedback =>
      let text := "[Stop hook feedback] " ++ feedback
      obtain ⟨trailing, hpasses⟩ := @Passes.message ids state hooks
        (fun id => ⟨id, .environment, { role := .user, content := [.text text] }, none, []⟩)
        fun _ => rfl
      exact .ofPasses hkeeps (hpasses.status .running)
  | pause =>
      simp only [apply, pause] at hkeeps ⊢
      have hpaused : Quiet ids state (ConversationState.recordInternal ids .pause
          { state with executionStatus := .paused }) :=
        ((Quiet.refl state).status .paused).trans (recordInternal_quiet _ _)
      split
      · exact hpaused
      · exact hpaused
      · exact .refl state
  | requestCondensation hooks =>
      obtain ⟨trailing, hpasses⟩ := @Passes.condensationRequest ids state hooks
      exact .ofPasses hkeeps hpasses
  | record kind => exact recordInternal_quiet state kind

end LocalConversation

/-! ## Executions -/

/-- What has been answered is not unmatched. -/
theorem unmatched_of_answers {before after trailing : List Event} {actions : List ActionEvent}
    {answers : List AnswerPiece} (hanswers : AnswersAll actions answers)
    (hevents : after = before ++ answers.flatMap AnswerPiece.events ++ trailing)
    (htrailing : loggedActions trailing = []) :
    ∀ action ∈ ConversationState.getUnmatchedActions after,
      action ∈ ConversationState.getUnmatchedActions before ∧ action ∉ actions := by
  intro action haction
  have hnone : loggedActions (answers.flatMap AnswerPiece.events ++ trailing) = [] := by
    rw [loggedActions_append, loggedActions_answers, htrailing, List.append_nil]
  have hlater : ConversationState.getUnmatchedActions
      (answers.flatMap AnswerPiece.events ++ trailing) = [] :=
    List.eq_nil_of_sublist_nil (hnone ▸ getUnmatchedActions_sublist _)
  rw [hevents, List.append_assoc, ConversationState.getUnmatchedActions_append, hlater,
    List.append_nil, List.mem_filter, List.all_eq_true] at haction
  refine ⟨haction.1, fun hmem => ?_⟩
  rw [← hanswers.actions] at hmem
  obtain ⟨piece, hpiece, rfl⟩ := List.mem_map.mp hmem
  have hanswer : Event.convertible (.observation piece.observation) ∈
      answers.flatMap AnswerPiece.events ++ trailing :=
    List.mem_append_left _ (List.mem_flatMap.mpr ⟨piece, hpiece, by simp [AnswerPiece.events]⟩)
  simpa [(hanswers.answers piece hpiece).answers] using haction.2 _ hanswer

/-- Once everything unmatched is answered, nothing is unmatched. -/
theorem LocalConversation.answerAll_unmatched {ids : IdSource} {hooks : HookManager}
    {answer : EventID → ActionEvent → ObservationBaseEvent}
    (hanswer : ∀ id action, (answer id action).Answers action ∧ (answer id action).id = id)
    {before state : ConversationState} (hsame : state.events = before.events) :
    ConversationState.getUnmatchedActions (answerAll ids hooks
      (fun id action => .convertible (.observation (answer id action)))
      (ConversationState.getUnmatchedActions before.events) state).events = [] := by
  obtain ⟨pieces, hanswers, hevents, -⟩ := @answerAll_spec ids hooks answer hanswer
    (ConversationState.getUnmatchedActions before.events) state
  rw [hsame] at hevents
  apply List.eq_nil_iff_forall_not_mem.mpr
  intro action haction
  obtain ⟨hwas, hnot⟩ := unmatched_of_answers hanswers
    (hevents.trans (List.append_nil _).symm) rfl action haction
  exact hnot hwas

namespace Agent

variable {ids : IdSource} {env : Environment} {state : ConversationState}
variable {actions : List ActionEvent}

/-- An execution logs no action, and what it has answered is not unmatched. -/
theorem executeActions_logged (hids : (actions.map ActionEvent.id).Nodup)
    (hcalls : ∀ action ∈ actions, action.toolCall.id = action.toolCallId) :
    loggedActions (executeActions ids env state actions).events = loggedActions state.events ∧
      ∀ action ∈ ConversationState.getUnmatchedActions
          (executeActions ids env state actions).events,
        action ∈ ConversationState.getUnmatchedActions state.events ∧
          (env.cancelled = false → action ∉ (ActionBatch.truncateAtFinish actions).1) := by
  obtain ⟨answers, trailing, hanswers, hevents, hpassive, -, -⟩ :=
    @executeActions_spec ids env state actions hids hcalls
  have htrailing := loggedActions_passive hpassive
  refine ⟨by rw [hevents, loggedActions_append, loggedActions_append, loggedActions_answers,
    htrailing, List.append_nil, List.append_nil], fun action haction => ?_⟩
  obtain ⟨hwas, htaken⟩ := unmatched_of_answers hanswers hevents htrailing action haction
  exact ⟨hwas, fun hcancelled => by simpa [hcancelled] using htaken⟩

theorem executeActions_observed (hids : (actions.map ActionEvent.id).Nodup)
    (hcalls : ∀ action ∈ actions, action.toolCall.id = action.toolCallId) :
    ∀ id ∈ observed (executeActions ids env state actions).events,
      id ∈ observed state.events ∨
        ∃ action ∈ ActionBatch.executed state actions, id = action.id := by
  intro id hid
  unfold executeActions at hid
  split at hid
  · obtain ⟨-, hevents, -⟩ := @ActionBatch.prepare_spec ids env.toExecutor state actions hids hcalls
    exact .inl (hevents ▸ hid)
  · exact ActionBatch.executeActions_observed state hids hcalls id hid

end Agent

/-! ## Histories -/

/-- The event is an answer that refuses to execute: a rejection or an error. -/
def Event.refuses : Event → Bool
  | .convertible (.observation (.userReject _)) => true
  | .convertible (.observation (.agentError _)) => true
  | _ => false

def HistoryEvent.action : HistoryEvent → ActionEvent
  | .blocked action => action
  | .ran action => action

namespace History

/-- What blocks are for: the tool of a blocked action is never run, and every
answer to it is a refusal. -/
structure Respected (trace : List HistoryEvent) (state : ConversationState) : Prop where
  unran : ∀ action other, .blocked action ∈ trace → .ran other ∈ trace → other.id ≠ action.id
  refused : ∀ action, .blocked action ∈ trace → ∀ event ∈ state.events,
    event.answers action → event.refuses

/-- What is seen of actions, as the log has it. -/
structure Traced (ids : IdSource) (trace : List HistoryEvent) (state : ConversationState) :
    Prop where
  consistent : Consistent ids state
  logged : ∀ event ∈ trace, event.action ∈ loggedActions state.events
  unran : ∀ action other, .blocked action ∈ trace → .ran other ∈ trace → other.id ≠ action.id
  observed : ∀ id ∈ ShuttleFlow.observed state.events,
    ∃ action, .ran action ∈ trace ∧ id = action.id

/-- Blocked actions that are unmatched have their block in the state. -/
structure Kept (ids : IdSource) (trace : List HistoryEvent) (state : ConversationState) : Prop
    extends Traced ids trace state where
  pending : ∀ action, .blocked action ∈ trace →
    action ∈ ConversationState.getUnmatchedActions state.events →
      (state.blockedActions action.id).isSome

variable {ids : IdSource} {trace : List HistoryEvent} {before after : ConversationState}

theorem Traced.respected (htraced : Traced ids trace after) : Respected trace after where
  unran := htraced.unran
  refused action hblocked event hevent hanswers := by
    cases event with
    | convertible event =>
        cases event with
        | observation observation =>
            cases observation with
            | observation observation =>
                obtain ⟨other, hran, hid⟩ := htraced.observed _ (mem_observed hevent)
                exact absurd (hid.symm.trans (of_decide_eq_true hanswers))
                  (htraced.unran action other hblocked hran)
            | userReject rejection => rfl
            | agentError error => rfl
        | _ => cases hanswers
    | _ => cases hanswers

theorem Traced.quiet (htraced : Traced ids trace before) (hquiet : Quiet ids before after) :
    Traced ids trace after where
  consistent := ⟨hquiet.reserved htraced.consistent.reserved,
    hquiet.logged ▸ htraced.consistent.calls⟩
  logged := hquiet.logged ▸ htraced.logged
  unran := htraced.unran
  observed := hquiet.observed ▸ htraced.observed

theorem Kept.quiet (hkept : Kept ids trace before) (hquiet : Quiet ids before after) :
    Kept ids trace after where
  toTraced := hkept.toTraced.quiet hquiet
  pending action hblocked hunmatched :=
    hquiet.blockedActions ▸ hkept.pending action hblocked (hquiet.unmatched hunmatched)

/-- Actions whose blocks are in the state are not executed. -/
theorem Kept.execute (hkept : Kept ids trace before) (env : Environment)
    {actions : List ActionEvent} (hsub : actions <+ loggedActions before.events)
    (hblocked : ∀ action ∈ actions, .blocked action ∈ trace →
      (before.blockedActions action.id).isSome) :
    let executed := Agent.executeActions ids env before actions
    let seen := trace ++ (ActionBatch.executed before actions).map .ran
    Traced ids seen executed ∧ (env.cancelled = false → Kept ids seen executed) := by
  intro executed seen
  have hevents := (List.nodup_append.mp hkept.consistent.reserved.nodup).1
  have hids := (loggedActions_ids_nodup hevents).sublist (hsub.map _)
  have hcalls : ∀ action ∈ actions, action.toolCall.id = action.toolCallId :=
    fun action haction => hkept.consistent.calls action (hsub.subset haction)
  have htakes := @Agent.executeActions_takes ids env before actions hids hcalls
  obtain ⟨hlogged, hunmatched⟩ := @Agent.executeActions_logged ids env before actions hids hcalls
  obtain ⟨-, -, -, -, -, hreserved, -⟩ := @Agent.executeActions_spec ids env before actions hids
    hcalls
  have htaken := (ActionBatch.truncateAtFinish_initial actions).sublist.trans hsub
  have hran : ∀ action, .ran action ∈ seen → .ran action ∈ trace ∨
      action ∈ (ActionBatch.truncateAtFinish actions).1 ∧
        before.blockedActions action.id = none := by
    intro action hmem
    rcases List.mem_append.mp hmem with hmem | hmem
    · exact .inl hmem
    · obtain ⟨other, hother, hsame⟩ := List.mem_map.mp hmem
      cases hsame
      exact .inr ((ActionBatch.mem_executed hids).mp hother)
  have hold : ∀ action, .blocked action ∈ seen → .blocked action ∈ trace := by
    intro action hmem
    simpa [seen] using hmem
  have htraced : Traced ids seen executed := by
    refine ⟨⟨hreserved hkept.consistent.reserved, hlogged ▸ hkept.consistent.calls⟩, ?_, ?_, ?_⟩
    · intro event hevent
      rw [hlogged]
      rcases List.mem_append.mp hevent with hevent | hevent
      · exact hkept.logged event hevent
      · obtain ⟨action, haction, rfl⟩ := List.mem_map.mp hevent
        exact htaken.subset ((ActionBatch.mem_executed hids).mp haction).1
    · intro action other haction hother hsame
      rcases hran other hother with hother | ⟨hother, hfree⟩
      · exact hkept.unran action other (hold action haction) hother hsame
      · have hlog := hkept.logged _ (hold action haction)
        obtain rfl := eq_of_same_id hevents (htaken.subset hother) hlog hsame
        have hsome := hblocked other
          ((ActionBatch.truncateAtFinish_initial actions).subset hother) (hold other haction)
        rw [hfree] at hsome
        cases hsome
    · intro id hid
      rcases Agent.executeActions_observed hids hcalls id hid with hid | ⟨action, haction, rfl⟩
      · obtain ⟨action, haction, rfl⟩ := hkept.observed id hid
        exact ⟨action, List.mem_append_left _ haction, rfl⟩
      · exact ⟨action, List.mem_append_right _ (List.mem_map_of_mem haction), rfl⟩
  refine ⟨htraced, fun hcancelled => ⟨htraced, fun action haction hopen => ?_⟩⟩
  obtain ⟨hwas, htaken'⟩ := hunmatched action hopen
  rw [htakes.others action.id fun hmem => ?_]
  · exact hkept.pending action (hold action haction) hwas
  · -- the block was taken out for another action
    obtain ⟨other, hother, hsame⟩ := List.mem_map.mp hmem
    obtain rfl := eq_of_same_id hevents (htaken.subset hother)
      ((getUnmatchedActions_sublist before.events).subset hwas) hsame
    exact htaken' hcancelled hother

/-- The blocks of new actions are recorded. -/
theorem Kept.emit (hkept : Kept ids trace before) (env : Environment) (llmResponseId : EventID)
    (header : Agent.Header) (toolCalls : List MessageToolCall) :
    let emitted := Agent.emitToolCalls ids env llmResponseId before header toolCalls
    let seen := trace ++ (emitted.1.filter fun action =>
      (env.hooks.runPreToolUse action).blockingReason.isSome).map .blocked
    Kept ids seen emitted.2 ∧ emitted.1 <+ loggedActions emitted.2.events ∧
      ∀ action ∈ emitted.1, .blocked action ∈ seen →
        (emitted.2.blockedActions action.id).isSome := by
  intro emitted seen
  obtain ⟨calls, hlogs, hevents, hexecutable, -⟩ :=
    @Agent.emitToolCalls_spec ids env llmResponseId before header toolCalls
  obtain ⟨hconsistent, -, hnew⟩ := @Agent.emitToolCalls_consistent ids env before
    hkept.consistent llmResponseId header toolCalls
  have hrecords := @Agent.emitToolCalls_records ids env llmResponseId before header toolCalls
  have hids := (List.nodup_append.mp hconsistent.reserved.nodup).1
  have hlogged : loggedActions emitted.2.events =
      loggedActions before.events ++ calls.map CallPiece.action := by
    rw [hevents, loggedActions_append, loggedActions_calls]
  have hsub : emitted.1 <+ loggedActions emitted.2.events := by
    rw [hlogged]
    exact (hexecutable ▸ Agent.executable_sublist_action calls).trans
      (List.sublist_append_right _ _)
  have holder : ∀ event ∈ trace, event.action ∈ loggedActions emitted.2.events := by
    intro event hevent
    rw [hlogged]
    exact List.mem_append_left _ (hkept.logged event hevent)
  have hseen : ∀ action, .blocked action ∈ seen → .blocked action ∈ trace ∨
      action ∈ emitted.1 ∧ (env.hooks.runPreToolUse action).blockingReason.isSome := by
    intro action hmem
    rcases List.mem_append.mp hmem with hmem | hmem
    · exact .inl hmem
    · obtain ⟨other, hother, hsame⟩ := List.mem_map.mp hmem
      cases hsame
      exact .inr (List.mem_filter.mp hother)
  have hran : ∀ action, .ran action ∈ seen → .ran action ∈ trace := by
    intro action hmem
    simpa [seen] using hmem
  have hrecorded : ∀ action ∈ emitted.1, .blocked action ∈ seen →
      (emitted.2.blockedActions action.id).isSome := by
    intro action haction hblocked
    rcases hseen action hblocked with hold | ⟨-, hreason⟩
    · exact absurd (hkept.logged _ hold) (hnew action haction).2
    · exact hrecords.recorded action haction hreason
  refine ⟨⟨⟨hconsistent, fun event hevent => ?_, fun action other haction hother => ?_, ?_⟩,
    fun action haction hopen => ?_⟩, hsub, hrecorded⟩
  · rcases List.mem_append.mp hevent with hevent | hevent
    · exact holder event hevent
    · obtain ⟨action, haction, rfl⟩ := List.mem_map.mp hevent
      exact hsub.subset (List.mem_filter.mp haction).1
  · have hother := hran other hother
    rcases hseen action haction with hold | ⟨haction, -⟩
    · exact hkept.unran action other hold hother
    · intro hsame
      obtain rfl := eq_of_same_id hids (holder _ hother) (hsub.subset haction) hsame
      exact (hnew other haction).2 (hkept.logged _ hother)
  · rw [hevents, observed_append, hlogs.observed, List.append_nil]
    intro id hid
    obtain ⟨action, haction, rfl⟩ := hkept.observed id hid
    exact ⟨action, List.mem_append_left _ haction, rfl⟩
  · rcases hseen action haction with hold | ⟨hnew, -⟩
    · refine hrecords.stays _ (hkept.pending action hold ?_)
      rw [hevents, ConversationState.getUnmatchedActions_append, List.mem_append] at hopen
      rcases hopen with hopen | hopen
      · exact (List.mem_filter.mp hopen).1
      · -- it would have been logged twice
        have hnodup := List.Nodup.of_map _ (loggedActions_ids_nodup hids)
        rw [hlogged] at hnodup
        refine absurd rfl ((List.nodup_append.mp hnodup).2.2 _ (hkept.logged _ hold) action ?_)
        rw [← loggedActions_calls]
        exact (getUnmatchedActions_sublist _).subset hopen
    · exact hrecorded action hnew haction

/-! ## Steps -/

theorem popBlockedUserMessage_quiet (state : ConversationState) :
    Quiet ids state (Agent.popBlockedUserMessage state).2 := by
  obtain ⟨hevents, hdrawn⟩ := Agent.popBlockedUserMessage_spec state
  exact .ofPasses (Agent.popBlockedUserMessage_keeps state) (.refl hevents hdrawn)

theorem maybeEmitVllmTokens_quiet (env : Environment) (state : ConversationState) :
    Quiet ids state (Agent.maybeEmitVllmTokens ids env state) := by
  obtain ⟨trailing, hpasses, -⟩ := @Agent.maybeEmitVllmTokens_spec ids env state
  exact .ofPasses (Agent.maybeEmitVllmTokens_keeps state) hpasses

/-- A response is logged, and executed unless it has to be confirmed. -/
theorem Kept.handleToolCalls (hkept : Kept ids trace before) (env : Environment)
    (response : LLMResponse) :
    let emitted := Agent.emitToolCalls ids env response.id before
      (Agent.Message.header response.message) response.message.calls
    let executed := if Agent.requiresUserConfirmation env emitted.1 then []
      else ActionBatch.executed emitted.2 emitted.1
    let seen := trace ++ ((emitted.1.filter fun action =>
      (env.hooks.runPreToolUse action).blockingReason.isSome).map .blocked ++ executed.map .ran)
    let after := Agent.handleToolCalls ids env before response
    Traced ids seen after ∧ (env.cancelled = false → Kept ids seen after) := by
  intro emitted executed seen after
  obtain ⟨hlogged, hsub, hblocked⟩ := hkept.emit env response.id
    (Agent.Message.header response.message) response.message.calls
  have hexecute := hlogged.execute env hsub hblocked
  simp only [List.append_assoc] at hexecute
  simp only [after, seen, executed, Agent.handleToolCalls]
  split
  next =>
    rw [List.map_nil, List.append_nil]
    have hkept := hlogged.quiet ((Quiet.refl emitted.2).status .waitingForConfirmation)
    exact ⟨hkept.toTraced, fun _ => hkept⟩
  next =>
    split
    next hempty =>
      have hnone : ActionBatch.executed emitted.2 emitted.1 = [] := by
        rw [show emitted.1 = [] from hempty]
        rfl
      rw [hnone, List.map_nil, List.append_nil]
      have hkept := hlogged.quiet (maybeEmitVllmTokens_quiet env emitted.2)
      exact ⟨hkept.toTraced, fun _ => hkept⟩
    next =>
      split
      next hcancelled => exact ⟨hexecute.1, fun hother => by simp [hother] at hcancelled⟩
      next hcancelled =>
        have hkept := (hexecute.2 (by simpa using hcancelled)).quiet
          (maybeEmitVllmTokens_quiet env _)
        exact ⟨hkept.toTraced, fun _ => hkept⟩

/-- Without tool calls the model's answer is quiet. -/
theorem sample_quiet {env : Environment} (state : ConversationState)
    (hcalls : ∀ response, env.completion = .response response → response.message.calls = []) :
    Quiet ids state (Agent.sample ids env state) := by
  obtain ⟨trailing, hpasses⟩ := @Agent.sample_passes ids env state hcalls
  exact .ofPasses (Agent.sample_keeps state hcalls) hpasses

theorem condensation_quiet (hooks : HookManager) (plan : CondensationPlan)
    (state : ConversationState) :
    Quiet ids state ((state.drawId ids).2.onEvent ids hooks (.condensation
      { id := (state.drawId ids).1, forgottenEventIds := plan.forgottenEventIds
        summary := plan.summary, summaryOffset := plan.summaryOffset
        llmResponseId := plan.llmResponseId })) :=
  .of_append ((ConversationState.drawId_keeps state).trans
    (ConversationState.defaultCallback_keeps _ _)) rfl rfl (by
      change observed (state.events ++ [_]) = _
      rw [observed_append]
      exact List.append_nil _)
    fun hbefore => hbefore.drawId.defaultCallback

theorem Kept.agentStep (hkept : Kept ids trace before) (env : Environment) :
    let seen := trace ++ seen ids before (.step env)
    let after := Agent.step ids env before
    Traced ids seen after ∧ (env.cancelled = false → Kept ids seen after) := by
  intro seen after
  simp only [seen, after, History.seen]
  cases hunmatched : ConversationState.getUnmatchedActions before.events with
  | cons action rest =>
      have hpending := getUnmatchedActions_sublist before.events
      have hexecute := hkept.execute env hpending
        fun action haction hblocked => hkept.pending action hblocked haction
      rw [hunmatched] at hexecute
      simpa only [Agent.step, Agent.emitted, Agent.executed, hunmatched, List.filter_nil,
        List.map_nil, List.nil_append] using hexecute
  | nil =>
      have hquiet := @popBlockedUserMessage_quiet ids before
      obtain ⟨reason, popped, hpop⟩ : ∃ reason popped,
        Agent.popBlockedUserMessage before = (reason, popped) := ⟨_, _, rfl⟩
      rw [hpop] at hquiet
      have hstays : ∀ last, Quiet ids before last →
          Traced ids (trace ++ []) last ∧
            (env.cancelled = false → Kept ids (trace ++ []) last) := by
        intro last hlast
        rw [List.append_nil]
        exact ⟨hkept.toTraced.quiet hlast, fun _ => hkept.quiet hlast⟩
      cases reason with
      | some reason =>
          simp only [Agent.step, Agent.emitted, Agent.executed, hunmatched, hpop]
          exact hstays _ (hquiet.status .finished)
      | none =>
          simp only [Agent.step, Agent.emitted, Agent.executed, hunmatched, hpop,
            Agent.condenseOrSample]
          cases hplan : env.condense (View.fromEvents popped.events) with
          | some plan => exact hstays _ (hquiet.trans (condensation_quiet env.hooks plan popped))
          | none =>
              cases hcompletion : env.completion with
              | response response =>
                  by_cases hcalls : response.message.calls = []
                  · have hnone := hstays _ (hquiet.trans (sample_quiet popped fun other hother => by
                      cases hcompletion.symm.trans hother
                      exact hcalls))
                    simp only [hcalls]
                    exact hnone
                  · simp only [Agent.sample_response hcompletion,
                      Agent.handleResponse_toolCalls hcalls]
                    exact (hkept.quiet hquiet).handleToolCalls env response
              | functionCallValidationError text =>
                  exact hstays _ (hquiet.trans (sample_quiet popped (by simp [hcompletion])))
              | historyError handled =>
                  exact hstays _ (hquiet.trans (sample_quiet popped (by simp [hcompletion])))

/-- What is cancelled is answered with errors, so that nothing is unmatched. -/
theorem emitOrphanedActionErrors_unmatched (hooks : HookManager) (state : ConversationState) :
    Quiet ids state (LocalConversation.emitOrphanedActionErrors ids hooks state) ∧
      ConversationState.getUnmatchedActions
        (LocalConversation.emitOrphanedActionErrors ids hooks state).events = [] := by
  let answer := fun id (action : ActionEvent) => ObservationBaseEvent.agentError
    ⟨id, action.toolName, action.toolCallId,
      "Tool call interrupted before completion. The conversation was paused."⟩
  have hanswer : ∀ id action, (answer id action).Answers action ∧ (answer id action).id = id :=
    fun _ _ => ⟨rfl, rfl⟩
  exact ⟨LocalConversation.answerAll_quiet hanswer (fun _ _ => rfl) _ _,
    LocalConversation.answerAll_unmatched hanswer rfl⟩

theorem seen_of_other {operation : Operation} (hother : ∀ env, operation ≠ .step env) :
    seen ids before operation = [] := by
  cases operation with
  | step env => exact absurd rfl (hother env)
  | _ => rfl

theorem Kept.apply (hkept : Kept ids trace before) (operation : Operation) :
    Kept ids (trace ++ seen ids before operation)
      (LocalConversation.apply ids before operation) := by
  cases operation with
  | step env =>
      obtain ⟨htraced, hstep⟩ := hkept.agentStep env
      simp only [LocalConversation.apply, LocalConversation.runStep]
      split
      next =>
        obtain ⟨hquiet, hnone⟩ := @emitOrphanedActionErrors_unmatched ids env.hooks
          (Agent.step ids env before)
        have hanswered : Kept ids (trace ++ seen ids before (.step env))
            (LocalConversation.emitOrphanedActionErrors ids env.hooks
              (Agent.step ids env before)) := by
          refine ⟨htraced.quiet hquiet, fun action _ hopen => ?_⟩
          rw [hnone] at hopen
          cases hopen
        exact (hanswered.quiet ((Quiet.refl _).status .paused)).quiet
          (LocalConversation.recordInternal_quiet _ _)
      next hcancelled => exact hstep (by simpa using hcancelled)
  | _ =>
      rw [seen_of_other (by simp), List.append_nil]
      exact hkept.quiet (LocalConversation.apply_quiet (by simp))

theorem Kept.fork (hkept : Kept ids trace before) (hcarries : carriesBlocks before .fork) :
    Kept ids trace (LocalConversation.fork before) where
  consistent := ⟨hkept.consistent.reserved.congr rfl rfl, hkept.consistent.calls⟩
  logged := hkept.logged
  unran := hkept.unran
  observed := hkept.observed
  pending action hblocked hopen := by
    have hnone := List.all_eq_true.mp hcarries action hopen
    have hsome := hkept.pending action hblocked hopen
    rw [Option.isNone_iff_eq_none.mp hnone] at hsome
    cases hsome

theorem kept_init (systemPrompt : String) (dynamicContext : Option String) :
    Kept ids [] (LocalConversation.initState ids systemPrompt dynamicContext) where
  consistent := (Reachable.init systemPrompt dynamicContext).consistent
  logged := by simp
  unran := by simp
  observed := by simp [LocalConversation.initState, ConversationState.onEvent,
    ConversationState.defaultCallback, ConversationState.drawId, ShuttleFlow.observed,
    Event.observes?]
  pending := by simp

/-- In every history whose forks leave no block behind, the tool of a blocked
action is never run, and the action is only ever refused. -/
theorem respected_of_runs {systemPrompt : String} {dynamicContext : Option String}
    (hruns : ((system ids).restrict carriesBlocks).Runs
      (LocalConversation.initState ids systemPrompt dynamicContext) trace after) :
    Respected trace after := by
  have hkept : Kept ids trace after := by
    refine hruns.invariant_restrict (Kept ids) (kept_init systemPrompt dynamicContext) ?_
    intro trace state label next seen hkept hallowed hstep
    cases label with
    | apply operation =>
        cases hstep
        exact hkept.apply operation
    | fork =>
        cases hstep
        rw [List.append_nil]
        exact hkept.fork hallowed
  exact hkept.respected

end History

section Denied

open Sample

/-- A hook denies every action, and actions have to be confirmed. -/
def Sample.denying : Environment :=
  { environment (.response (response "r" [toolCall "c" "tool"])) with
    hooks := { runPreToolUse := fun _ => { blockingReason := some "denied" } }
    shouldConfirm := fun _ => true }

def Sample.deniedAction : ActionEvent where
  id := ids.uuid 1
  action := some ⟨.other, ""⟩
  toolName := "tool"
  toolCallId := "c"
  toolCall := toolCall "c" "tool"
  llmResponseId := "r"

/-- Confirmed before the fork, the denied action is refused. -/
theorem History.respected_of_runs_confirmed :
    ∃ trace state, .blocked deniedAction ∈ trace ∧ History.Respected trace state := by
  refine ⟨_, _, ?_, @History.respected_of_runs ids _ _ "" none (.of_run
    [.apply (.step denying), .apply (.step denying), .fork, .apply (.step denying)] rfl)⟩
  decide

/-- Confirmed in a fork, the denied action is executed. -/
theorem History.not_respected_after_fork :
    ∃ trace state, (History.system ids).Runs started trace state ∧
      ¬History.Respected trace state := by
  refine ⟨_, _, .of_run [.apply (.step denying), .fork, .apply (.step denying)] rfl, ?_⟩
  intro hrespected
  exact hrespected.unran deniedAction deniedAction (by decide) (by decide) rfl

end Denied

end ShuttleFlow
