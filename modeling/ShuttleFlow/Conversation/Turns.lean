import ShuttleFlow.Agent.Pieces
import ShuttleFlow.Conversation.LocalConversation

/-! # What one operation appends to the log

An operation appends calls, then answers, then events that do neither. Runs are
followed turn by turn.
-/

namespace ShuttleFlow

open scoped List

/-- The actions of a log, executable or not. -/
def loggedActions (events : List Event) : List ActionEvent :=
  (convertibles events).filterMap LLMConvertibleEvent.asAction

@[simp] theorem loggedActions_append (first second : List Event) :
    loggedActions (first ++ second) = loggedActions first ++ loggedActions second := by
  simp [loggedActions]

@[simp] theorem loggedActions_hookEvents (hookIds : List EventID) :
    loggedActions (hookEvents hookIds) = [] := by
  induction hookIds with
  | nil => rfl
  | cons hookId hookIds ih => exact ih

theorem mem_loggedActions {action : ActionEvent} {events : List Event} :
    action ∈ loggedActions events ↔ .convertible (.action action) ∈ events := by
  rw [loggedActions, List.mem_filterMap]
  constructor
  · rintro ⟨event, hevent, haction⟩
    cases event with
    | action found => exact Option.some.inj haction ▸ mem_convertibles.mp hevent
    | _ => cases haction
  · exact fun hmem => ⟨_, mem_convertibles.mpr hmem, rfl⟩

theorem loggedActions_eq_nil {events : List Event}
    (hnone : ∀ action, Event.convertible (.action action) ∉ events) : loggedActions events = [] :=
  List.eq_nil_iff_forall_not_mem.mpr fun action hmem => hnone action (mem_loggedActions.mp hmem)

theorem loggedActions_passive {events : List Event}
    (hpassive : ∀ event ∈ events, event.isPassive = true) : loggedActions events = [] :=
  loggedActions_eq_nil fun _ hmem => Bool.noConfusion (hpassive _ hmem)

@[simp] theorem loggedActions_answers (pieces : List AnswerPiece) :
    loggedActions (pieces.flatMap AnswerPiece.events) = [] := by
  refine loggedActions_eq_nil fun action hmem => ?_
  obtain ⟨piece, -, hevent⟩ := List.mem_flatMap.mp hmem
  rcases List.mem_append.mp hevent with hevent | hevent
  · exact Bool.noConfusion (hookEvents_isPassive hevent)
  · cases List.mem_singleton.mp hevent

@[simp] theorem loggedActions_calls (pieces : List CallPiece) :
    loggedActions (pieces.flatMap CallPiece.events) = pieces.map CallPiece.action := by
  induction pieces with
  | nil => rfl
  | cons piece pieces ih =>
      rw [List.flatMap_cons, loggedActions_append, ih, List.map_cons]
      cases piece with
      | valid hookIds action =>
          rw [CallPiece.events, loggedActions_append, loggedActions_hookEvents]
          rfl
      | invalid action error => rfl

/-! ## Turns -/

/-- The condenser asked for a condensation, and only passive events follow. -/
def Condensed (before : ConversationState) (operation : Operation) (trailing : List Event) : Prop :=
  ∃ env plan id passive, operation = .step env ∧
    ConversationState.getUnmatchedActions before.events = [] ∧
    env.condense (View.fromEvents before.events) = some plan ∧
    trailing = .condensation
      { id, forgottenEventIds := plan.forgottenEventIds, summary := plan.summary
        summaryOffset := plan.summaryOffset, llmResponseId := plan.llmResponseId } :: passive ∧
    ∀ event ∈ passive, event.isPassive = true

/-- One operation, as what it appends: the calls of a response, answers for
actions that wait for one, and a trail. -/
structure Turn (ids : IdSource) (before after : ConversationState) (operation : Operation)
    (calls : List CallPiece) (answers : List AnswerPiece) (trailing : List Event) : Prop where
  events : after.events = before.events ++ calls.flatMap CallPiece.events ++
    answers.flatMap AnswerPiece.events ++ trailing
  called : calls = [] ∨ ConversationState.getUnmatchedActions before.events = [] ∧
    ∃ env response, operation = .step env ∧ env.completion = .response response ∧
      CallPiece.LogsAll env response.id (Agent.Message.header response.message)
        response.message.calls calls
  answered : answers.map AnswerPiece.action <+
    ConversationState.getUnmatchedActions before.events ++ calls.flatMap CallPiece.executable
  answering : ∀ piece ∈ answers, piece.observation.Answers piece.action
  trails : (∀ event ∈ trailing, event.isPassive = true) ∨
    calls = [] ∧ answers = [] ∧ Condensed before operation trailing
  reserved : Reserved ids before [] → Reserved ids after []

namespace Turn

variable {ids : IdSource} {before after : ConversationState} {operation : Operation}

/-- Only passive events are added. -/
theorem ofPasses {trailing : List Event} (hpasses : Passes ids before after trailing) :
    Turn ids before after operation [] [] trailing where
  events := by simp [hpasses.events]
  called := .inl rfl
  answered := List.nil_sublist _
  answering := by simp
  trails := .inl hpasses.passive
  reserved := hpasses.reserved []

/-- Pending actions are answered. -/
theorem ofAnswers {actions : List ActionEvent} {answers : List AnswerPiece} {trailing : List Event}
    (hactions : actions <+ ConversationState.getUnmatchedActions before.events)
    (hanswers : AnswersAll actions answers)
    (hevents : after.events =
      before.events ++ answers.flatMap AnswerPiece.events ++ trailing)
    (hpassive : ∀ event ∈ trailing, event.isPassive = true)
    (hreserved : Reserved ids before [] → Reserved ids after []) :
    Turn ids before after operation [] answers trailing where
  events := by simpa using hevents
  called := .inl rfl
  answered := by simpa [hanswers.actions] using hactions
  answering := hanswers.answers
  trails := .inl hpassive
  reserved := hreserved

/-- The calls of the turn. -/
theorem loggedActions_eq {calls : List CallPiece} {answers : List AnswerPiece}
    {trailing : List Event} (hturn : Turn ids before after operation calls answers trailing) :
    loggedActions after.events = loggedActions before.events ++ calls.map CallPiece.action := by
  have htrailing : loggedActions trailing = [] := by
    rcases hturn.trails with hpassive | ⟨-, -, _, _, _, passive, -, -, -, rfl, hpassive⟩
    · exact loggedActions_passive hpassive
    · exact @loggedActions_passive passive hpassive
  rw [hturn.events, loggedActions_append, loggedActions_append, loggedActions_append, htrailing,
    loggedActions_answers, loggedActions_calls, List.append_nil, List.append_nil]

end Turn

/-! ## Consistency -/

/-- Events have distinct ids, and actions carry the id of their tool call. -/
structure Consistent (ids : IdSource) (state : ConversationState) : Prop where
  reserved : Reserved ids state []
  calls : ∀ action ∈ loggedActions state.events, action.toolCall.id = action.toolCallId

theorem CallPiece.Logs.toolCall_id {env : Environment} {llmResponseId : EventID}
    {header : Agent.Header} {toolCall : MessageToolCall} {piece : CallPiece}
    (hlogs : piece.Logs env llmResponseId header toolCall) :
    piece.action.toolCall.id = piece.action.toolCallId := by
  cases piece with
  | valid hookIds action =>
      obtain ⟨_, _, _, _, _, -, rfl⟩ := hlogs
      rfl
  | invalid action error =>
      obtain ⟨_, _, _, _, -, rfl, -⟩ := hlogs
      rfl

/-- A property of the action of each call, whatever its header, holds of all. -/
theorem CallPiece.LogsAll.forall {env : Environment} {llmResponseId : EventID}
    {header : Agent.Header} {toolCalls : List MessageToolCall} {pieces : List CallPiece}
    (hlogs : CallPiece.LogsAll env llmResponseId header toolCalls pieces)
    {holds : CallPiece → Prop}
    (heach : ∀ piece header, ∀ toolCall ∈ toolCalls,
      piece.Logs env llmResponseId header toolCall → holds piece) :
    ∀ piece ∈ pieces, holds piece := by
  induction hlogs with
  | nil header => simp
  | @cons header toolCall rest piece pieces hpiece _ ih =>
      intro other hother
      rcases List.mem_cons.mp hother with rfl | hother
      · exact heach _ header toolCall List.mem_cons_self hpiece
      · exact ih (fun piece header call hcall => heach piece header call (.tail _ hcall))
          other hother

theorem CallPiece.LogsAll.toolCall_id {env : Environment} {llmResponseId : EventID}
    {header : Agent.Header} {toolCalls : List MessageToolCall} {pieces : List CallPiece}
    (hlogs : CallPiece.LogsAll env llmResponseId header toolCalls pieces) :
    ∀ piece ∈ pieces, piece.action.toolCall.id = piece.action.toolCallId :=
  hlogs.forall fun _ _ _ _ hpiece => hpiece.toolCall_id

theorem Turn.consistent {ids : IdSource} {before after : ConversationState}
    {operation : Operation} {calls : List CallPiece} {answers : List AnswerPiece}
    {trailing : List Event} (hturn : Turn ids before after operation calls answers trailing)
    (hbefore : Consistent ids before) : Consistent ids after := by
  refine ⟨hturn.reserved hbefore.reserved, fun action hmem => ?_⟩
  rw [hturn.loggedActions_eq, List.mem_append, List.mem_map] at hmem
  rcases hmem with hmem | ⟨piece, hpiece, rfl⟩
  · exact hbefore.calls action hmem
  · rcases hturn.called with rfl | ⟨-, env, response, -, -, hlogs⟩
    · cases hpiece
    · exact hlogs.toolCall_id piece hpiece

theorem Event.eq_of_mem_allIds {event : Event} {id : EventID} (hid : id ∈ event.allIds) :
    id = event.id ∨ id = event.id ++ "-summary" := by
  cases event with
  | condensation condensation =>
      rcases List.mem_cons.mp hid with rfl | hid
      · exact .inl rfl
      · obtain ⟨summary, hsummary, rfl⟩ := Option.map_eq_some_iff.mp (Option.mem_toList.mp hid)
        obtain ⟨text, -, rfl⟩ := Option.map_eq_some_iff.mp hsummary
        exact .inr rfl
  | _ => exact .inl (List.mem_singleton.mp hid)

/-- Ids derived for summaries differ from all others. -/
theorem Reserved.distinctIds {ids : IdSource} {state : ConversationState}
    {reserved : List EventID} (hreserved : Reserved ids state reserved) :
    DistinctIds state.events := by
  have hdrawn : ∀ event ∈ state.events, ∃ index, event.id = ids.uuid index := by
    intro event hevent
    obtain ⟨index, -, hid⟩ := hreserved.drawn event.id
      (List.mem_append_left _ (List.mem_map_of_mem hevent))
    exact ⟨index, hid⟩
  have hother : ∀ first ∈ state.events, ∀ second ∈ state.events,
      first.id ≠ second.id ++ "-summary" := by
    intro first hfirst second hsecond hsame
    obtain ⟨left, hleft⟩ := hdrawn first hfirst
    obtain ⟨right, hright⟩ := hdrawn second hsecond
    exact ids.noSummary right left (hright ▸ hleft ▸ hsame.symm)
  refine List.nodup_flatMap.mpr ⟨fun event hevent => ?_, ?_⟩
  · cases event with
    | condensation condensation =>
        cases hsummary : condensation.summaryEvent? with
        | none => simp [Event.allIds, hsummary]
        | some summary =>
            obtain ⟨text, -, rfl⟩ := Option.map_eq_some_iff.mp hsummary
            have hne := hother _ hevent _ hevent
            simpa [Event.allIds, hsummary, Event.id] using hne
    | _ => exact List.nodup_singleton _
  · have hnodup := List.pairwise_map.mp (List.nodup_append.mp hreserved.nodup).1
    refine hnodup.imp_of_mem fun hfirst hsecond hne id hid hid' => ?_
    rcases Event.eq_of_mem_allIds hid with rfl | rfl <;>
      rcases Event.eq_of_mem_allIds hid' with hsame | hsame
    · exact hne hsame
    · exact hother _ hfirst _ hsecond hsame
    · exact hother _ hsecond _ hfirst hsame.symm
    · refine hne (String.toList_inj.mp (@List.append_cancel_right _ _ "-summary".toList _ ?_))
      rw [← String.toList_append, ← String.toList_append, hsame]

/-- The actions have distinct ids because their events have. -/
theorem loggedActions_ids_nodup {events : List Event} (hids : (events.map Event.id).Nodup) :
    ((loggedActions events).map ActionEvent.id).Nodup := by
  induction events with
  | nil => exact List.nodup_nil
  | cons event events ih =>
      rw [List.map_cons, List.nodup_cons] at hids
      cases event with
      | convertible event =>
          cases event with
          | action action =>
              refine List.nodup_cons.mpr ⟨fun hmem => hids.1 ?_, ih hids.2⟩
              obtain ⟨other, hother, heq⟩ := List.mem_map.mp hmem
              exact List.mem_map.mpr ⟨_, mem_loggedActions.mp hother, heq⟩
          | _ => exact ih hids.2
      | _ => exact ih hids.2

theorem getUnmatchedActions_sublist_executable (events : List Event) :
    ConversationState.getUnmatchedActions events <+ events.flatMap Event.executable := by
  induction events with
  | nil => exact List.nil_sublist _
  | cons event events ih =>
      rw [ConversationState.getUnmatchedActions_cons, List.flatMap_cons]
      exact List.filter_sublist.append ih

theorem executable_sublist_loggedActions (events : List Event) :
    events.flatMap Event.executable <+ loggedActions events := by
  induction events with
  | nil => exact List.nil_sublist _
  | cons event events ih =>
      change _ <+ loggedActions ([event] ++ events)
      rw [List.flatMap_cons, loggedActions_append]
      refine List.Sublist.append ?_ ih
      cases event with
      | convertible event =>
          cases event with
          | action action =>
              change (if action.action.isSome then [action] else []) <+ [action]
              split
              · exact List.Sublist.refl _
              · exact List.nil_sublist _
          | _ => exact List.nil_sublist _
      | _ => exact List.nil_sublist _

theorem getUnmatchedActions_sublist (events : List Event) :
    ConversationState.getUnmatchedActions events <+ loggedActions events :=
  (getUnmatchedActions_sublist_executable events).trans (executable_sublist_loggedActions events)

theorem mem_executable {event : Event} {action : ActionEvent} :
    action ∈ event.executable ↔
      event = .convertible (.action action) ∧ action.action.isSome := by
  cases event with
  | convertible event =>
      cases event with
      | action found =>
          change action ∈ (if found.action.isSome then [found] else []) ↔ _
          split
          next hvalid =>
            rw [List.mem_singleton]
            refine ⟨fun hsame => ?_, fun ⟨hsame, _⟩ => by cases hsame; rfl⟩
            subst hsame
            exact ⟨rfl, hvalid⟩
          next hinvalid =>
            refine iff_of_false List.not_mem_nil fun ⟨hsame, hvalid⟩ => hinvalid ?_
            cases hsame
            exact hvalid
      | _ => simp [Event.executable]
  | _ => simp [Event.executable]

theorem executable_of_isPassive {event : Event} (hpassive : event.isPassive = true) :
    event.executable = [] := by
  cases event with
  | convertible event =>
      cases event with
      | action action => cases hpassive
      | _ => rfl
  | _ => rfl

theorem executable_passive {events : List Event}
    (hpassive : ∀ event ∈ events, event.isPassive = true) :
    events.flatMap Event.executable = [] :=
  List.flatMap_eq_nil_iff.mpr fun event hevent => executable_of_isPassive (hpassive event hevent)

theorem CallPiece.LogsAll.executable {env : Environment} {llmResponseId : EventID}
    {header : Agent.Header} {toolCalls : List MessageToolCall} {pieces : List CallPiece}
    (hlogs : CallPiece.LogsAll env llmResponseId header toolCalls pieces) :
    (pieces.flatMap CallPiece.events).flatMap Event.executable =
      pieces.flatMap CallPiece.executable := by
  induction hlogs with
  | nil header => rfl
  | @cons header toolCall rest piece pieces hpiece _ ih =>
      rw [List.flatMap_cons, List.flatMap_append, ih, List.flatMap_cons]
      congr 1
      cases piece with
      | valid hookIds action =>
          obtain ⟨_, _, _, _, _, -, rfl⟩ := hpiece
          rw [CallPiece.events, List.flatMap_append,
            executable_passive fun _ hevent => hookEvents_isPassive hevent]
          rfl
      | invalid action error =>
          obtain ⟨_, _, _, _, -, rfl, -⟩ := hpiece
          rfl

namespace Turn

variable {ids : IdSource} {before after : ConversationState} {operation : Operation}
variable {calls : List CallPiece} {answers : List AnswerPiece} {trailing : List Event}

theorem trailing_executable (hturn : Turn ids before after operation calls answers trailing) :
    trailing.flatMap Event.executable = [] := by
  rcases hturn.trails with hpassive | ⟨-, -, _, _, _, passive, -, -, -, rfl, hpassive⟩
  · exact executable_passive hpassive
  · exact @executable_passive passive hpassive

theorem calls_executable (hturn : Turn ids before after operation calls answers trailing) :
    (calls.flatMap CallPiece.events).flatMap Event.executable =
      calls.flatMap CallPiece.executable := by
  rcases hturn.called with rfl | ⟨-, env, response, -, -, hlogs⟩
  · rfl
  · exact hlogs.executable

/-- Answers and trail only take away from the unmatched actions. -/
theorem unmatched_eq (hturn : Turn ids before after operation calls answers trailing) :
    ConversationState.getUnmatchedActions after.events =
      (ConversationState.getUnmatchedActions
        (before.events ++ calls.flatMap CallPiece.events)).filter fun action =>
          (answers.flatMap AnswerPiece.events ++ trailing).all fun later =>
            !later.answers action := by
  have hnone : ConversationState.getUnmatchedActions
      (answers.flatMap AnswerPiece.events ++ trailing) = [] := by
    refine List.eq_nil_of_sublist_nil ((getUnmatchedActions_sublist_executable _).trans ?_)
    rw [List.flatMap_append, hturn.trailing_executable, List.append_nil]
    exact loggedActions_answers answers ▸ executable_sublist_loggedActions _
  rw [hturn.events, List.append_assoc, ConversationState.getUnmatchedActions_append, hnone,
    List.append_nil]

/-- A turn leaves no action unmatched that was not so before, or called by it. -/
theorem unmatched_sublist (hturn : Turn ids before after operation calls answers trailing) :
    ConversationState.getUnmatchedActions after.events <+
      ConversationState.getUnmatchedActions before.events ++
        calls.flatMap CallPiece.executable := by
  have hcalls : ConversationState.getUnmatchedActions (calls.flatMap CallPiece.events) <+
      calls.flatMap CallPiece.executable :=
    hturn.calls_executable ▸ getUnmatchedActions_sublist_executable _
  rw [hturn.unmatched_eq, ConversationState.getUnmatchedActions_append]
  exact List.filter_sublist.trans (List.filter_sublist.append hcalls)

end Turn

end ShuttleFlow
