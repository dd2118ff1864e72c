import ShuttleFlow.Conversation.Runs
import ShuttleFlow.Library.Segments

/-! # Every executed action is answered once

A response is executed in the step that logs it. An action is answered when an
event after it is its observation, its rejection or its error.
-/

namespace ShuttleFlow

open scoped List

/-- Every executable action has exactly one answer after it. -/
def AnsweredOnce (events : List Event) : Prop :=
  ∀ before action after, events = before ++ .convertible (.action action) :: after →
    action.action.isSome → after.countP (·.answers action) = 1

/-- No executable action has two answers after it. -/
def AnsweredAtMostOnce (events : List Event) : Prop :=
  ∀ before action after, events = before ++ .convertible (.action action) :: after →
    action.action.isSome → after.countP (·.answers action) ≤ 1

/-- The model gives every tool call its own id. -/
def DistinctCalls (events : List Event) : Prop :=
  ((loggedActions events).map ActionEvent.toolCallId).Nodup

instance (events : List Event) : Decidable (DistinctCalls events) :=
  inferInstanceAs (Decidable (List.Nodup _))

/-- The name of the tool that a call is validated for. -/
def Validation.calledTool : Validation → Option String
  | valid toolName _ _ _ => some toolName
  | invalid _ _ => none

/-- No validated tool call comes after a validated call of the finish tool. -/
def FinishesLast (env : Environment) (toolCalls : List MessageToolCall) : Prop :=
  toolCalls.Pairwise fun first later => (env.validate first).calledTool = some finishToolName →
    (env.validate later).calledTool = none

instance (env : Environment) (toolCalls : List MessageToolCall) :
    Decidable (FinishesLast env toolCalls) :=
  inferInstanceAs (Decidable (List.Pairwise _ _))

/-! ## Truncation -/

namespace ActionBatch

/-- Nothing is discarded when no action comes after a call of the finish tool. -/
theorem truncateAtFinish_eq_self_iff (actions : List ActionEvent) :
    (truncateAtFinish actions).1 = actions ↔
      actions.Pairwise fun first _ => first.toolName ≠ finishToolName := by
  induction actions with
  | nil => simp [truncateAtFinish]
  | cons action rest ih =>
      rw [List.pairwise_cons, ← ih]
      unfold truncateAtFinish
      rw [List.findIdx?_cons]
      by_cases hfinish : action.toolName = finishToolName
      · simp only [hfinish, decide_true, if_true]
        constructor
        · intro hkept
          obtain rfl : rest = [] := by simpa using hkept.symm
          simp
        · rintro ⟨hnone, -⟩
          cases rest with
          | nil => rfl
          | cons next rest => exact absurd rfl (hnone next List.mem_cons_self)
      · simp only [hfinish, decide_false]
        cases rest.findIdx? fun action => action.toolName = finishToolName <;> simp [hfinish]

end ActionBatch

/-- The tools of the executable actions are those of the validated calls. -/
theorem CallPiece.LogsAll.calledTools {env : Environment} {llmResponseId : EventID}
    {header : Agent.Header} {toolCalls : List MessageToolCall} {pieces : List CallPiece}
    (hlogs : CallPiece.LogsAll env llmResponseId header toolCalls pieces) :
    (pieces.flatMap CallPiece.executable).map ActionEvent.toolName =
      toolCalls.filterMap fun toolCall => (env.validate toolCall).calledTool := by
  induction hlogs with
  | nil header => rfl
  | @cons header toolCall rest piece pieces hpiece _ ih =>
      rw [List.flatMap_cons, List.map_append, ih, List.filterMap_cons]
      cases piece with
      | valid hookIds action =>
          obtain ⟨_, _, _, _, _, hvalidate, rfl⟩ := hpiece
          rw [hvalidate]
          rfl
      | invalid action error =>
          obtain ⟨_, _, _, _, hvalidate, -, -⟩ := hpiece
          rw [hvalidate]
          rfl

/-- A batch is executed whole exactly when the finish tool is called last. -/
theorem CallPiece.LogsAll.truncateAtFinish_eq_self_iff {env : Environment}
    {llmResponseId : EventID} {header : Agent.Header} {toolCalls : List MessageToolCall}
    {pieces : List CallPiece}
    (hlogs : CallPiece.LogsAll env llmResponseId header toolCalls pieces) :
    (ActionBatch.truncateAtFinish (pieces.flatMap CallPiece.executable)).1 =
      pieces.flatMap CallPiece.executable ↔ FinishesLast env toolCalls := by
  have hnames : (pieces.flatMap CallPiece.executable).Pairwise
      (fun first _ => first.toolName ≠ finishToolName) ↔
      ((pieces.flatMap CallPiece.executable).map ActionEvent.toolName).Pairwise
        fun first _ => first ≠ finishToolName := by
    rw [List.pairwise_map]
  rw [ActionBatch.truncateAtFinish_eq_self_iff, hnames, hlogs.calledTools, List.pairwise_filterMap,
    FinishesLast]
  refine List.Pairwise.iff fun first later => ?_
  cases (env.validate first).calledTool <;> cases (env.validate later).calledTool <;> simp

/-! ## Answers in a turn -/

theorem not_answers_of_isPassive {event : Event} (hpassive : event.isPassive = true)
    (action : ActionEvent) : event.answers action = false := by
  cases event with
  | convertible event =>
      cases event with
      | observation observation => cases hpassive
      | _ => rfl
  | _ => rfl

theorem countP_answers_passive {events : List Event}
    (hpassive : ∀ event ∈ events, event.isPassive = true) (action : ActionEvent) :
    events.countP (·.answers action) = 0 :=
  List.countP_eq_zero.mpr fun event hevent => by
    rw [not_answers_of_isPassive (hpassive event hevent) action]
    simp

theorem ObservationBaseEvent.Answers.answers {action : ActionEvent}
    {observation : ObservationBaseEvent} (hanswers : observation.Answers action) :
    (Event.convertible (.observation observation)).answers action = true := by
  cases observation with
  | observation event => exact decide_eq_true hanswers.1
  | userReject event => exact decide_eq_true hanswers.1
  | agentError event => exact decide_eq_true hanswers

/-- Two logged actions are the same when one of their ids is. -/
theorem eq_of_same_id {events : List Event} (hids : (events.map Event.id).Nodup)
    {first second : ActionEvent} (hfirst : first ∈ loggedActions events)
    (hsecond : second ∈ loggedActions events) (hsame : first.id = second.id) : first = second :=
  List.inj_on_of_nodup_map (loggedActions_ids_nodup hids) hfirst hsecond hsame

theorem DistinctCalls.eq_of_same_call {events : List Event} (hdistinct : DistinctCalls events)
    {first second : ActionEvent} (hfirst : first ∈ loggedActions events)
    (hsecond : second ∈ loggedActions events) (hsame : first.toolCallId = second.toolCallId) :
    first = second :=
  List.inj_on_of_nodup_map hdistinct hfirst hsecond hsame

/-- An answer to one logged action is no answer to another. -/
theorem answers_iff {events : List Event} (hids : (events.map Event.id).Nodup)
    (hdistinct : DistinctCalls events) {action other : ActionEvent}
    (haction : action ∈ loggedActions events) (hother : other ∈ loggedActions events)
    {observation : ObservationBaseEvent} (hanswers : observation.Answers other) :
    (Event.convertible (.observation observation)).answers action = true ↔ other = action := by
  refine ⟨fun hanswered => ?_, fun hsame => hsame ▸ hanswers.answers⟩
  cases observation with
  | observation event =>
      exact eq_of_same_id hids hother haction
        (hanswers.1.symm.trans (of_decide_eq_true hanswered))
  | userReject event =>
      exact eq_of_same_id hids hother haction
        (hanswers.1.symm.trans (of_decide_eq_true hanswered))
  | agentError event =>
      exact hdistinct.eq_of_same_call hother haction
        (Eq.trans (Eq.symm hanswers) (of_decide_eq_true hanswered))

section Turn

variable {ids : IdSource} {before after : ConversationState} {operation : Operation}
variable {calls : List CallPiece} {answers : List AnswerPiece} {trailing : List Event}

/-- What a turn appends. -/
def turnEvents (calls : List CallPiece) (answers : List AnswerPiece) (trailing : List Event) :
    List Event :=
  calls.flatMap CallPiece.events ++ answers.flatMap AnswerPiece.events ++ trailing

theorem Turn.events_eq (hturn : Turn ids before after operation calls answers trailing) :
    after.events = before.events ++ turnEvents calls answers trailing := by
  rw [hturn.events, turnEvents]
  simp only [List.append_assoc]

theorem Turn.answered_logged (hturn : Turn ids before after operation calls answers trailing) :
    answers.map AnswerPiece.action <+ loggedActions after.events := by
  rw [hturn.loggedActions_eq]
  exact hturn.answered.trans
    ((getUnmatchedActions_sublist _).append (Agent.executable_sublist_action calls))

theorem Turn.distinctCalls (hturn : Turn ids before after operation calls answers trailing)
    (hdistinct : DistinctCalls after.events) : DistinctCalls before.events := by
  unfold DistinctCalls at hdistinct
  rw [hturn.loggedActions_eq, List.map_append] at hdistinct
  exact (List.nodup_append.mp hdistinct).1

theorem Turn.answered_nodup (hturn : Turn ids before after operation calls answers trailing)
    (hdistinct : DistinctCalls after.events) : (answers.map AnswerPiece.action).Nodup :=
  (List.Nodup.of_map _ hdistinct).sublist hturn.answered_logged

/-- The errors of invalid calls answer no executable action. -/
theorem Turn.countP_calls (hturn : Turn ids before after operation calls answers trailing)
    (hdistinct : DistinctCalls after.events) {action : ActionEvent}
    (haction : action ∈ loggedActions after.events) (hvalid : action.action.isSome) :
    (calls.flatMap CallPiece.events).countP (·.answers action) = 0 := by
  rcases hturn.called with rfl | ⟨-, env, response, -, -, hlogs⟩
  · rfl
  have heach : ∀ piece ∈ calls, piece.action ∈ loggedActions after.events →
      ∀ event ∈ piece.events, event.answers action = false := by
    refine hlogs.forall fun piece header toolCall _ hpiece hmem event hevent => ?_
    cases piece with
    | valid hookIds other =>
        rcases List.mem_append.mp hevent with hevent | hevent
        · exact not_answers_of_isPassive (hookEvents_isPassive hevent) action
        · rw [List.mem_singleton.mp hevent]
          rfl
    | invalid other error =>
        obtain ⟨_, _, _, _, -, hother, rfl⟩ := hpiece
        rcases List.mem_cons.mp hevent with rfl | hevent
        · rfl
        · rw [List.mem_singleton.mp hevent]
          refine decide_eq_false fun hsame => ?_
          -- the error is that of an action which cannot be executed
          have heq : other = action :=
            hdistinct.eq_of_same_call hmem haction (Eq.trans (by rw [hother]) hsame)
          rw [← heq, hother] at hvalid
          cases hvalid
  refine List.countP_eq_zero.mpr fun event hevent => ?_
  obtain ⟨piece, hpiece, hevent⟩ := List.mem_flatMap.mp hevent
  have hmem : piece.action ∈ loggedActions after.events := by
    rw [hturn.loggedActions_eq]
    exact List.mem_append_right _ (List.mem_map_of_mem hpiece)
  simp [heach piece hpiece hmem event hevent]

/-- A turn answers an executable action as often as it takes it up. -/
theorem Turn.countP_turnEvents (hturn : Turn ids before after operation calls answers trailing)
    (hafter : Consistent ids after) (hdistinct : DistinctCalls after.events) {action : ActionEvent}
    (haction : action ∈ loggedActions after.events) (hvalid : action.action.isSome) :
    (turnEvents calls answers trailing).countP (·.answers action) =
      (answers.map AnswerPiece.action).count action := by
  have hids := (List.nodup_append.mp hafter.reserved.nodup).1
  have htrailing : trailing.countP (·.answers action) = 0 := by
    rcases hturn.trails with hpassive | ⟨-, -, _, _, _, passive, -, -, -, rfl, hpassive⟩
    · exact countP_answers_passive hpassive action
    · exact @countP_answers_passive passive hpassive action
  have hpieces : ∀ pieces ⊆ answers,
      (pieces.flatMap AnswerPiece.events).countP (·.answers action) =
        (pieces.map AnswerPiece.action).count action := by
    intro pieces hsub
    induction pieces with
    | nil => rfl
    | cons piece pieces ih =>
        obtain ⟨hpiece, hsub⟩ := List.cons_subset.mp hsub
        have hlogged := hturn.answered_logged.subset (List.mem_map_of_mem hpiece)
        have hiff := answers_iff hids hdistinct haction hlogged (hturn.answering piece hpiece)
        have hone : piece.events.countP (·.answers action) =
            if piece.action == action then 1 else 0 := by
          rw [AnswerPiece.events, List.countP_append, List.countP_singleton,
            countP_answers_passive (fun _ hevent => hookEvents_isPassive hevent), Nat.zero_add]
          simp only [hiff, beq_iff_eq]
        rw [List.flatMap_cons, List.countP_append, List.map_cons, List.count_cons, ih hsub, hone,
          Nat.add_comm]
  rw [turnEvents, List.countP_append, List.countP_append,
    hturn.countP_calls hdistinct haction hvalid, htrailing, hpieces answers (List.Subset.refl _)]
  omega

/-- One turn gives no action a second answer. -/
theorem Turn.answeredAtMostOnce (hturn : Turn ids before after operation calls answers trailing)
    (hafter : Consistent ids after) (hdistinct : DistinctCalls after.events)
    (hbefore : AnsweredAtMostOnce before.events) : AnsweredAtMostOnce after.events := by
  intro earlier action later hsplit hvalid
  have haction : action ∈ loggedActions after.events := by
    rw [mem_loggedActions, hsplit]
    simp
  have hcount := hturn.countP_turnEvents hafter hdistinct haction hvalid
  have hone := List.nodup_iff_count_le_one.mp (hturn.answered_nodup hdistinct) action
  have hnodup := List.Nodup.of_map _ (List.nodup_append.mp hafter.reserved.nodup).1
  have hevents := hturn.events_eq
  rw [hevents] at hsplit hnodup
  refine Segments.countP_later_le (fun prior middle hold => ?_) (hcount ▸ hone) hsplit
  rw [hcount]
  by_cases hanswered : action ∈ answers.map AnswerPiece.action
  · -- it is answered now, so it was unmatched before
    have hunmatched : action ∈ ConversationState.getUnmatchedActions before.events := by
      rcases List.mem_append.mp (hturn.answered.subset hanswered) with hmem | hmem
      · exact hmem
      · have hlogged := hturn.loggedActions_eq ▸ List.Nodup.of_map _ hdistinct
        refine absurd rfl ((List.nodup_append.mp hlogged).2.2 action ?_ action
          ((Agent.executable_sublist_action calls).subset hmem))
        rw [mem_loggedActions, hold]
        simp
    obtain ⟨older, rest, holder, -, hnone⟩ :=
      ConversationState.mem_getUnmatchedActions.mp hunmatched
    have hsame : middle = rest := by
      have hlog := (List.nodup_append.mp hnodup).1
      rw [hold, List.nodup_middle, List.nodup_cons, List.mem_append, not_or] at hlog
      exact ((List.append_cons_inj_of_notMem hlog.1.1 hlog.1.2).mp (hold ▸ holder)).2.2
    have hzero : middle.countP (·.answers action) = 0 := by
      rw [hsame]
      exact List.countP_eq_zero.mpr fun event hevent => by simp [hnone event hevent]
    omega
  · rw [List.count_eq_zero.mpr hanswered, Nat.add_zero]
    exact hbefore prior action middle hold hvalid

end Turn

theorem Reachable.answeredAtMostOnce {ids : IdSource} {state : ConversationState}
    (hstate : Reachable ids state) (hdistinct : DistinctCalls state.events) :
    AnsweredAtMostOnce state.events := by
  induction hstate with
  | init systemPrompt dynamicContext =>
      intro earlier action later hsplit _
      have hmem : Event.convertible (.action action) ∈
          (LocalConversation.initState ids systemPrompt dynamicContext).events := by
        rw [hsplit]
        simp
      cases List.mem_singleton.mp hmem
  | apply operation hbefore ih =>
      obtain ⟨calls, answers, trailing, hturn⟩ :=
        LocalConversation.apply_turn _ hbefore.consistent operation
      exact hturn.answeredAtMostOnce (hturn.consistent hbefore.consistent) hdistinct
        (ih (hturn.distinctCalls hdistinct))

/-- With nothing unmatched, at most one answer is exactly one. -/
theorem AnsweredAtMostOnce.answeredOnce {events : List Event}
    (hmost : AnsweredAtMostOnce events)
    (hunmatched : ConversationState.getUnmatchedActions events = []) : AnsweredOnce events := by
  intro before action after hsplit hvalid
  refine Nat.le_antisymm (hmost before action after hsplit hvalid) (Nat.one_le_iff_ne_zero.mpr ?_)
  intro hzero
  have hmem : action ∈ ConversationState.getUnmatchedActions events :=
    ConversationState.mem_getUnmatchedActions.mpr ⟨before, after, hsplit, hvalid,
      fun event hevent => by simpa using List.countP_eq_zero.mp hzero event hevent⟩
  rw [hunmatched] at hmem
  cases hmem

/-! ## Responses -/

namespace Agent

variable {ids : IdSource} {env : Environment} {state : ConversationState} {response : LLMResponse}

/-- A step that executes a response is a turn: it logs its calls and answers
those up to a call of the finish tool. -/
theorem step_executes (hstate : Consistent ids state) (htakes : TakesUp env state response)
    (hexecutes : Executes ids env (popBlockedUserMessage state).2 response) :
    ∃ calls answers trailing,
      Turn ids state (step ids env state) (.step env) calls answers trailing ∧
      CallPiece.LogsAll env response.id (Message.header response.message)
        response.message.calls calls ∧
      answers.map AnswerPiece.action =
        (ActionBatch.truncateAtFinish (calls.flatMap CallPiece.executable)).1 ∧
      (response.message.calls ≠ [] →
        (ActionBatch.truncateAtFinish (calls.flatMap CallPiece.executable)).2 = false →
        convertibles trailing = []) := by
  obtain ⟨hevents, hdrawn⟩ := popBlockedUserMessage_spec state
  have hpopped : Passes ids state (popBlockedUserMessage state).2 [] := .refl hevents hdrawn
  rw [step_of_takesUp htakes]
  by_cases hcalls : response.message.calls = []
  · obtain ⟨trailing, hpasses⟩ := @handleResponse_passes ids env
      (popBlockedUserMessage state).2 _ hcalls
    exact ⟨[], [], trailing, .ofPasses (hpopped.trans hpasses), hcalls ▸ .nil _, rfl,
      fun hsome => absurd hcalls hsome⟩
  · rw [handleResponse_toolCalls hcalls]
    have hconsistent : Consistent ids (popBlockedUserMessage state).2 :=
      ⟨hpopped.reserved [] hstate.reserved, hevents ▸ hstate.calls⟩
    obtain ⟨calls, answers, trailing, hlogs, hlogged, hanswered, hanswers, hpassive, hreserved,
      -, hexecuted, hhidden⟩ := @handleToolCalls_spec ids env _ hconsistent response
    exact ⟨calls, answers, trailing,
      { events := hevents ▸ hlogged
        called := .inr ⟨htakes.unmatched, env, response, rfl, htakes.completion, hlogs⟩
        answered := by simpa [htakes.unmatched] using hanswered.sublist
        answering := hanswers
        trails := .inl hpassive
        reserved := fun hreserve => hreserved (hpopped.reserved [] hreserve) },
      hlogs, hexecuted hexecutes, fun _ => hhidden⟩

end Agent

/-! ## A discarded call -/

section Discarded

open Sample

end Discarded

end ShuttleFlow
