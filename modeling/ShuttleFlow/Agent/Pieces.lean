import ShuttleFlow.Agent.Step
import ShuttleFlow.Conversation.CallbackLaws

/-! # What emission appends to the log

A response is logged call by call, an execution answer by answer. Everything
that is proved about runs rests on these two shapes.
-/

namespace ShuttleFlow

open scoped List

/-! ## Calls -/

/-- A tool call as it is logged: an action, or one that did not validate
followed by its error. -/
inductive CallPiece
  | valid (hookIds : List EventID) (action : ActionEvent)
  | invalid (action : ActionEvent) (error : AgentErrorEvent)

namespace CallPiece

def action : CallPiece → ActionEvent
  | valid _ action => action
  | invalid action _ => action

/-- The action of the call, if it can be executed. -/
def executable : CallPiece → List ActionEvent
  | valid _ action => [action]
  | invalid _ _ => []

def events : CallPiece → List Event
  | valid hookIds action => hookEvents hookIds ++ [.convertible (.action action)]
  | invalid action error =>
      [.convertible (.action action), .convertible (.observation (.agentError error))]

/-- The piece is the logged form of a tool call. -/
def Logs (env : Environment) (llmResponseId : EventID) (header : Agent.Header)
    (toolCall : MessageToolCall) : CallPiece → Prop
  | valid _ action => ∃ id toolName arguments validated securityRisk,
      env.validate toolCall = .valid toolName arguments validated securityRisk ∧
      action = { header with
        id, action := some validated, toolName, toolCallId := toolCall.id,
        toolCall := { toolCall with name := toolName, arguments }, llmResponseId, securityRisk }
  | invalid action error => ∃ id errorId toolName text,
      env.validate toolCall = .invalid toolName text ∧
      action = { header with
        id, action := none, toolName := toolCall.name, toolCallId := toolCall.id, toolCall,
        llmResponseId } ∧
      error = ⟨errorId, toolName, toolCall.id, text⟩

/-- The calls of a response in order; only the first has the header. -/
inductive LogsAll (env : Environment) (llmResponseId : EventID) :
    Agent.Header → List MessageToolCall → List CallPiece → Prop
  | nil (header) : LogsAll env llmResponseId header [] []
  | cons {header toolCall rest piece pieces} :
      piece.Logs env llmResponseId header toolCall → LogsAll env llmResponseId {} rest pieces →
      LogsAll env llmResponseId header (toolCall :: rest) (piece :: pieces)

end CallPiece

namespace Agent

variable {ids : IdSource} {env : Environment}

theorem getActionEvent_spec (state : ConversationState) (toolCall : MessageToolCall)
    (llmResponseId : EventID) (header : Header) :
    ∃ piece, CallPiece.Logs env llmResponseId header toolCall piece ∧
      (getActionEvent ids env state toolCall llmResponseId header).2.events =
        state.events ++ piece.events ∧
      (getActionEvent ids env state toolCall llmResponseId header).1.toList = piece.executable ∧
      ∀ reserved, Reserved ids state reserved →
        Reserved ids (getActionEvent ids env state toolCall llmResponseId header).2 reserved := by
  cases hvalidate : env.validate toolCall with
  | valid toolName arguments validated securityRisk =>
      simp only [getActionEvent, hvalidate]
      obtain ⟨hookIds, ⟨hevents, hreserved⟩, -⟩ := @ConversationState.onEvent_action ids env.hooks
        (state.drawId ids).2
        { header with
          id := (state.drawId ids).1, action := some validated, toolName
          toolCallId := toolCall.id, toolCall := { toolCall with name := toolName, arguments }
          llmResponseId, securityRisk }
      refine ⟨.valid hookIds _, ⟨_, toolName, arguments, validated, securityRisk, hvalidate, rfl⟩,
        ?_, rfl, fun reserved hbefore => hreserved reserved hbefore.drawId⟩
      rw [hevents, List.append_assoc]
      rfl
  | invalid toolName text =>
      simp only [getActionEvent, hvalidate, emitToolError]
      obtain ⟨hookIds, ⟨hevents, hreserved⟩, hnone⟩ := @ConversationState.onEvent_action ids
        env.hooks (state.drawId ids).2
        { header with
          id := (state.drawId ids).1, action := none, toolName := toolCall.name
          toolCallId := toolCall.id, toolCall, llmResponseId }
      obtain rfl := hnone rfl
      generalize ConversationState.onEvent ids env.hooks (state.drawId ids).2 _ = logged
        at hevents hreserved ⊢
      refine ⟨.invalid _ ⟨(logged.drawId ids).1, toolName, toolCall.id, text⟩,
        ⟨(state.drawId ids).1, _, toolName, text, hvalidate, rfl, rfl⟩, ?_, rfl,
        fun reserved hbefore => ?_⟩
      · simp only [ConversationState.onEvent, ConversationState.defaultCallback_events,
          ConversationState.drawId_events, hevents, CallPiece.events, hookEvents, List.map_nil,
          List.append_nil, List.append_assoc]
        rfl
      · exact (hreserved reserved hbefore.drawId).drawId.defaultCallback

theorem emitToolCalls_spec (llmResponseId : EventID) (state : ConversationState)
    (header : Header) (toolCalls : List MessageToolCall) :
    ∃ pieces, CallPiece.LogsAll env llmResponseId header toolCalls pieces ∧
      (emitToolCalls ids env llmResponseId state header toolCalls).2.events =
        state.events ++ pieces.flatMap CallPiece.events ∧
      (emitToolCalls ids env llmResponseId state header toolCalls).1 =
        pieces.flatMap CallPiece.executable ∧
      ∀ reserved, Reserved ids state reserved →
        Reserved ids (emitToolCalls ids env llmResponseId state header toolCalls).2 reserved := by
  induction toolCalls generalizing state header with
  | nil => exact ⟨[], .nil header, by simp [emitToolCalls], rfl, fun _ => id⟩
  | cons toolCall rest ih =>
      obtain ⟨piece, hpiece, hevents, hexecutable, hreserved⟩ :=
        @getActionEvent_spec ids env state toolCall llmResponseId header
      obtain ⟨pieces, hpieces, hrest, hmore, hkept⟩ :=
        ih (getActionEvent ids env state toolCall llmResponseId header).2 {}
      refine ⟨piece :: pieces, .cons hpiece hpieces, ?_, ?_, fun reserved hbefore =>
        hkept reserved (hreserved reserved hbefore)⟩
      · rw [emitToolCalls, hrest, hevents, List.flatMap_cons, List.append_assoc]
      · rw [List.flatMap_cons, ← hexecutable, ← hmore]
        rfl

end Agent

/-! ## Answers -/

/-- The observation is for this action and its tool call. -/
def ObservationBaseEvent.Answers (action : ActionEvent) : ObservationBaseEvent → Prop
  | observation event => event.actionId = action.id ∧ event.toolCallId = action.toolCallId
  | userReject event => event.actionId = action.id ∧ event.toolCallId = action.toolCallId
  | agentError event => event.toolCallId = action.toolCallId

structure AnswerPiece where
  hookIds : List EventID
  action : ActionEvent
  observation : ObservationBaseEvent

namespace AnswerPiece

def events (piece : AnswerPiece) : List Event :=
  hookEvents piece.hookIds ++ [.convertible (.observation piece.observation)]

end AnswerPiece

/-- The pieces answer the actions, one after another. -/
structure AnswersAll (actions : List ActionEvent) (pieces : List AnswerPiece) : Prop where
  actions : pieces.map AnswerPiece.action = actions
  answers : ∀ piece ∈ pieces, piece.observation.Answers piece.action

/-- Events that neither call nor answer, nor change the view but at its end. -/
def Event.isPassive : Event → Bool
  | convertible (.message _) => true
  | condensationRequest _ => true
  | internal _ _ => true
  | _ => false

/-! ## Batches -/

theorem Reserved.perm {ids : IdSource} {state : ConversationState} {reserved other : List EventID}
    (hreserved : Reserved ids state reserved) (hperm : reserved.Perm other) :
    Reserved ids state other :=
  ⟨((List.Perm.refl _).append hperm).nodup_iff.mp hreserved.nodup,
    fun id hid => hreserved.drawn id (((List.Perm.refl _).append hperm).mem_iff.mpr hid)⟩

namespace ActionBatch

variable {ids : IdSource} {executor : Executor}

theorem truncateAtFinish_initial (actions : List ActionEvent) :
    (truncateAtFinish actions).1 <+: actions := by
  unfold truncateAtFinish
  split
  · exact List.prefix_rfl
  · exact List.take_prefix _ _

theorem partitionBlocked_spec (state : ConversationState) {actions : List ActionEvent}
    (hids : (actions.map ActionEvent.id).Nodup) :
    (partitionBlocked state actions).2.2.events = state.events ∧
      (partitionBlocked state actions).2.2.drawn = state.drawn ∧
      (partitionBlocked state actions).2.1 =
        actions.filter (fun action => ((partitionBlocked state actions).1 action.id).isNone) ∧
      ∀ id, id ∉ actions.map ActionEvent.id → (partitionBlocked state actions).1 id = none := by
  induction actions generalizing state with
  | nil => exact ⟨rfl, rfl, rfl, fun _ _ => rfl⟩
  | cons action rest ih =>
      rw [List.map_cons, List.nodup_cons] at hids
      obtain ⟨hevents, hdrawn, hexecutable, hother⟩ :=
        ih (state.popBlockedAction action.id).2 hids.2
      have hne : ∀ other ∈ rest, other.id ≠ action.id := fun other hmem heq =>
        hids.1 (heq ▸ List.mem_map_of_mem hmem)
      rw [ConversationState.popBlockedAction_events] at hevents
      rw [ConversationState.popBlockedAction_drawn] at hdrawn
      obtain ⟨reason, popped, hpop⟩ : ∃ reason popped,
        state.popBlockedAction action.id = (reason, popped) := ⟨_, _, rfl⟩
      simp only [hpop] at hevents hdrawn hexecutable hother
      cases reason with
      | none =>
          simp only [partitionBlocked, hpop]
          refine ⟨hevents, hdrawn, ?_, fun id hid => hother id fun hmem => hid (.tail _ hmem)⟩
          rw [List.filter_cons, hother _ hids.1]
          simpa using hexecutable
      | some reason =>
          simp only [partitionBlocked, hpop]
          refine ⟨hevents, hdrawn, ?_, fun id hid => ?_⟩
          · rw [List.filter_cons, Function.update_self]
            simp only [Option.isNone_some, Bool.false_eq_true, if_false]
            refine hexecutable.trans (List.filter_congr fun other hmem => ?_)
            rw [Function.update_of_ne (hne other hmem)]
          · rw [List.map_cons, List.mem_cons, not_or] at hid
            rw [Function.update_of_ne hid.1, hother id hid.2]

theorem exists_of_map_eq {α β γ : Type} {relates : α → β → Prop} {first : List α}
    {second : List β} (hrelated : List.Forall₂ relates first second) {f : α → γ} {g : β → γ}
    (hmap : first.map f = second.map g) {item : α} (hitem : item ∈ first) :
    ∃ other, relates item other ∧ f item = g other := by
  induction hrelated with
  | nil => cases hitem
  | cons hhead _ ih =>
      rw [List.map_cons, List.map_cons, List.cons.injEq] at hmap
      rcases List.mem_cons.mp hitem with rfl | hitem
      · exact ⟨_, hhead, hmap.1⟩
      · exact ih hmap.2 hitem

/-- What one execution of an executable action results in. -/
def Executes (runTool : ActionEvent → ToolOutcome) (action : ActionEvent)
    (observation : ObservationBaseEvent) : Prop :=
  ∃ id, observation = executeActionEvent id action (runTool action)

theorem executeBatch_spec (runTool : ActionEvent → ToolOutcome) (state : ConversationState)
    (actions : List ActionEvent) :
    ∃ observations : List ObservationBaseEvent,
      (executeBatch ids runTool state actions).1 =
        observations.map (fun observation => [.convertible (.observation observation)]) ∧
      List.Forall₂ (Executes runTool) actions observations ∧
      (executeBatch ids runTool state actions).2.events = state.events ∧
      ∀ reserved, Reserved ids state reserved →
        Reserved ids (executeBatch ids runTool state actions).2
          (observations.map ObservationBaseEvent.id ++ reserved) := by
  induction actions generalizing state with
  | nil => exact ⟨[], rfl, .nil, rfl, fun _ => id⟩
  | cons action rest ih =>
      obtain ⟨observations, hresults, hruns, hevents, hreserved⟩ := ih (state.drawId ids).2
      refine ⟨executeActionEvent (state.drawId ids).1 action (runTool action) :: observations,
        ?_, .cons ⟨_, rfl⟩ hruns, hevents, fun reserved hbefore => ?_⟩
      · rw [List.map_cons, ← hresults]
        rfl
      · have hid : (executeActionEvent (state.drawId ids).1 action (runTool action)).id =
            (state.drawId ids).1 := by
          cases runTool action <;> rfl
        rw [List.map_cons, hid]
        exact (hreserved _ hbefore.drawId).perm List.perm_middle

/-- Looking a result up by id finds the one at the position of the action. -/
theorem zipResults_map {actions : List ActionEvent} {results : List (List Event)}
    (hids : (actions.map ActionEvent.id).Nodup) (hlength : actions.length = results.length) :
    actions.map (fun action => zipResults actions results action.id) = results.map some := by
  have hfold : ∀ (entries : List (ActionEvent × List Event)) (dict : EventID → Option (List Event))
      (id : EventID), id ∉ entries.map (fun entry => entry.1.id) →
      entries.foldl (fun (dict : EventID → Option (List Event)) entry =>
        Function.update dict entry.1.id (some entry.2)) dict id = dict id := by
    intro entries
    induction entries with
    | nil => exact fun _ _ _ => rfl
    | cons entry rest ih =>
        intro dict id hid
        rw [List.map_cons, List.mem_cons, not_or] at hid
        rw [List.foldl_cons, ih _ _ hid.2, Function.update_of_ne hid.1]
  unfold zipResults
  generalize (fun _ => none : EventID → Option (List Event)) = dict
  induction actions generalizing results dict with
  | nil =>
      obtain rfl := List.length_eq_zero_iff.mp hlength.symm
      rfl
  | cons action rest ih =>
      cases results with
      | nil => cases hlength
      | cons result results =>
          rw [List.map_cons, List.nodup_cons] at hids
          simp only [List.zip_cons_cons, List.foldl_cons, List.map_cons]
          refine List.cons_eq_cons.mpr ⟨?_, ih hids.2 (by simpa using hlength) _⟩
          rw [hfold _ _ action.id, Function.update_self]
          intro hmem
          obtain ⟨entry, hentry, heq⟩ := List.mem_map.mp hmem
          exact hids.1 (heq ▸ List.mem_map_of_mem (List.of_mem_zip hentry).1)

/-- The ids of the results that are emitted for an action. -/
def resultIds (batch : ActionBatch) (action : ActionEvent) : List EventID :=
  match batch.blockedReasons action.id with
  | some _ => []
  | none => ((batch.resultsById action.id).getD []).map Event.id

/-- The batch has an answer to the action. -/
def Resolves (batch : ActionBatch) (action : ActionEvent) : Prop :=
  (batch.blockedReasons action.id).isSome ∨
    batch.blockedReasons action.id = none ∧ ∃ observation : ObservationBaseEvent,
      batch.resultsById action.id = some [.convertible (.observation observation)] ∧
      observation.Answers action

theorem executes_answers {runTool : ActionEvent → ToolOutcome} {action : ActionEvent}
    (hcall : action.toolCall.id = action.toolCallId) {observation : ObservationBaseEvent}
    (hexecutes : Executes runTool action observation) : observation.Answers action := by
  obtain ⟨id, rfl⟩ := hexecutes
  cases runTool action with
  | observation observation => exact ⟨rfl, hcall⟩
  | valueError error => exact hcall
  | executorError error => exact rfl

theorem prepare_spec (state : ConversationState) {actions : List ActionEvent}
    (hids : (actions.map ActionEvent.id).Nodup)
    (hcalls : ∀ action ∈ actions, action.toolCall.id = action.toolCallId) :
    (prepare ids executor state actions).1.actionEvents = (truncateAtFinish actions).1 ∧
      (prepare ids executor state actions).2.events = state.events ∧
      (∀ action ∈ (truncateAtFinish actions).1,
        Resolves (prepare ids executor state actions).1 action) ∧
      ∀ reserved, Reserved ids state reserved →
        Reserved ids (prepare ids executor state actions).2
          ((truncateAtFinish actions).1.flatMap
            (resultIds (prepare ids executor state actions).1) ++ reserved) := by
  have hpre := truncateAtFinish_initial actions
  obtain ⟨kept, hasFinish, htruncate⟩ : ∃ kept hasFinish,
    truncateAtFinish actions = (kept, hasFinish) := ⟨_, _, rfl⟩
  rw [htruncate] at hpre ⊢
  have hkept : (kept.map ActionEvent.id).Nodup := hids.sublist (hpre.sublist.map _)
  obtain ⟨hevents, hdrawn, hexecutable, -⟩ := partitionBlocked_spec state hkept
  obtain ⟨blocked, executable, popped, hpartition⟩ : ∃ blocked executable popped,
    partitionBlocked state kept = (blocked, executable, popped) := ⟨_, _, _, rfl⟩
  rw [hpartition] at hevents hdrawn hexecutable
  dsimp only at hevents hdrawn hexecutable
  obtain ⟨observations, hresults, hruns, hsame, hreserved⟩ :=
    @executeBatch_spec ids executor.runTool popped executable
  have hsub : executable <+ kept := by
    rw [hexecutable]
    exact List.filter_sublist
  have hlookup := zipResults_map (hkept.sublist (hsub.map _)) (show executable.length =
      (executeBatch ids executor.runTool popped executable).1.length by
    rw [hresults, List.length_map]
    exact hruns.length_eq)
  rw [hresults, List.map_map] at hlookup
  simp only [prepare, htruncate, hpartition, hresults]
  refine ⟨trivial, hsame.trans hevents, fun action haction => ?_, fun reserved hbefore => ?_⟩
  · by_cases hblocked : (blocked action.id).isSome
    · exact .inl hblocked
    · rw [Option.not_isSome_iff_eq_none] at hblocked
      have hmem : action ∈ executable := by
        rw [hexecutable]
        exact List.mem_filter.mpr ⟨haction, by simp [hblocked]⟩
      obtain ⟨observation, hexecutes, hresult⟩ := exists_of_map_eq hruns hlookup hmem
      exact .inr ⟨hblocked, observation, hresult,
        executes_answers (hcalls action (hpre.subset haction)) hexecutes⟩
  · -- exactly the ids of the results have been drawn
    let dict := zipResults executable
      (observations.map fun observation => [.convertible (.observation observation)])
    have hskip : ∀ items : List ActionEvent,
        items.flatMap (resultIds ⟨kept, hasFinish, blocked, dict⟩) =
          ((items.filter fun action => (blocked action.id).isNone).map
            fun action => dict action.id).flatMap
              fun result => (result.getD []).map Event.id := by
      intro items
      induction items with
      | nil => rfl
      | cons item items ih =>
          rw [List.flatMap_cons, ih, List.filter_cons]
          cases hitem : blocked item.id <;> simp [resultIds, hitem]
    have hids : kept.flatMap (resultIds ⟨kept, hasFinish, blocked, dict⟩) =
        observations.map ObservationBaseEvent.id := by
      rw [hskip, ← hexecutable, hlookup, List.flatMap_map]
      exact List.flatMap_pure_eq_map ..
    rw [hids]
    exact hreserved reserved (hbefore.congr hevents hdrawn)

/-- Every action of the list is answered, under the ids that were reserved. -/
theorem emit_spec {hooks : HookManager} (batch : ActionBatch) (state : ConversationState)
    {actions : List ActionEvent} (hresolves : ∀ action ∈ actions, Resolves batch action) :
    ∃ pieces, AnswersAll actions pieces ∧
      (actions.foldl (emitOne ids hooks batch) state).events =
        state.events ++ pieces.flatMap AnswerPiece.events ∧
      ∀ reserved, Reserved ids state (actions.flatMap (resultIds batch) ++ reserved) →
        Reserved ids (actions.foldl (emitOne ids hooks batch) state) reserved := by
  induction actions generalizing state with
  | nil => exact ⟨[], ⟨rfl, by simp⟩, by simp, fun _ => id⟩
  | cons action rest ih =>
      obtain ⟨pieces, ⟨hactions, hanswers⟩, hevents, hreserved⟩ :=
        ih (emitOne ids hooks batch state action) fun other hother =>
          hresolves other (.tail _ hother)
      -- one answer for the first action
      obtain ⟨hookIds, observation, hanswer, hlogged, htaken⟩ : ∃ hookIds observation,
          ObservationBaseEvent.Answers action observation ∧
          (emitOne ids hooks batch state action).events = state.events ++ hookEvents hookIds ++
            [.convertible (.observation observation)] ∧
          ∀ reserved, Reserved ids state (resultIds batch action ++ reserved) →
            Reserved ids (emitOne ids hooks batch state action) reserved := by
        rcases hresolves action List.mem_cons_self with
          hblocked | ⟨hfree, observation, hresult, hanswer⟩
        · obtain ⟨reason, hreason⟩ := Option.isSome_iff_exists.mp hblocked
          let rejected : ObservationBaseEvent := .userReject ⟨(state.drawId ids).1,
            action.toolName, action.toolCallId, reason, .hook, action.id⟩
          have hanswer : rejected.Answers action := ⟨rfl, rfl⟩
          obtain ⟨hookIds, hlogged, htaken⟩ := @ConversationState.onEvent_observation ids hooks
            (state.drawId ids).2 rejected
          refine ⟨hookIds, rejected, hanswer, ?_, fun reserved hbefore => ?_⟩
          · simp only [emitOne, hreason]
            exact hlogged
          · simp only [emitOne, hreason]
            simp only [resultIds, hreason] at hbefore
            exact htaken reserved (Reserved.drawId hbefore)
        · obtain ⟨hookIds, hlogged, htaken⟩ := @ConversationState.onEvent_observation ids hooks
            state observation
          refine ⟨hookIds, observation, hanswer, ?_, fun reserved hbefore => ?_⟩
          · simpa only [emitOne, hfree, hresult, Option.getD_some, List.foldl_cons,
              List.foldl_nil] using hlogged
          · simp only [emitOne, hfree, hresult]
            simp only [resultIds, hfree, hresult] at hbefore
            exact htaken reserved hbefore
      refine ⟨⟨hookIds, action, observation⟩ :: pieces, ⟨?_, ?_⟩, ?_, fun reserved hbefore => ?_⟩
      · rw [List.map_cons, hactions]
      · intro piece hpiece
        rcases List.mem_cons.mp hpiece with rfl | hpiece
        · exact hanswer
        · exact hanswers piece hpiece
      · rw [List.foldl_cons, hevents, hlogged, List.flatMap_cons, AnswerPiece.events]
        simp
      · rw [List.flatMap_cons, List.append_assoc] at hbefore
        exact hreserved reserved (htaken _ hbefore)

end ActionBatch

/-! ## Passive events -/

theorem hookEvents_isPassive {hookIds : List EventID} {event : Event}
    (hevent : event ∈ hookEvents hookIds) : event.isPassive = true := by
  obtain ⟨id, -, rfl⟩ := List.mem_map.mp hevent
  rfl

/-- Only passive events are appended, under fresh ids. -/
structure Passes (ids : IdSource) (before after : ConversationState) (rest : List Event) :
    Prop where
  events : after.events = before.events ++ rest
  passive : ∀ event ∈ rest, event.isPassive = true
  reserved : ∀ reserved, Reserved ids before reserved → Reserved ids after reserved

namespace Passes

variable {ids : IdSource} {before middle after : ConversationState}

theorem refl (hevents : after.events = before.events) (hdrawn : after.drawn = before.drawn) :
    Passes ids before after [] :=
  ⟨by simp [hevents], by simp, fun _ hbefore => hbefore.congr hevents hdrawn⟩

theorem trans {first second : List Event} (hfirst : Passes ids before middle first)
    (hsecond : Passes ids middle after second) : Passes ids before after (first ++ second) := by
  refine ⟨by rw [hsecond.events, hfirst.events, List.append_assoc], fun event hevent => ?_,
    fun reserved hbefore => hsecond.reserved reserved (hfirst.reserved reserved hbefore)⟩
  rcases List.mem_append.mp hevent with hevent | hevent
  · exact hfirst.passive event hevent
  · exact hsecond.passive event hevent

theorem status {rest : List Event} (hpasses : Passes ids before after rest)
    (executionStatus : ConversationExecutionStatus) :
    Passes ids before { after with executionStatus } rest :=
  ⟨hpasses.events, hpasses.passive, fun reserved hbefore =>
    (hpasses.reserved reserved hbefore).congr rfl rfl⟩

theorem ofStatus {rest : List Event} {executionStatus : ConversationExecutionStatus}
    (hpasses : Passes ids { before with executionStatus } after rest) :
    Passes ids before after rest :=
  ⟨hpasses.events, hpasses.passive, fun reserved hbefore =>
    hpasses.reserved reserved (hbefore.congr rfl rfl)⟩

/-- A message under a fresh id. -/
theorem message {hooks : HookManager} (message : EventID → MessageEvent)
    (hid : ∀ id, (message id).id = id) :
    ∃ rest, Passes ids before ((before.drawId ids).2.onEvent ids hooks
      (.convertible (.message (message (before.drawId ids).1)))) rest := by
  obtain ⟨hookIds, logged, ⟨hevents, hreserved⟩, -⟩ := @ConversationState.onEvent_message ids hooks
    (before.drawId ids).2 (message (before.drawId ids).1)
  refine ⟨hookEvents hookIds ++ [.convertible (.message logged)],
    ⟨by rw [hevents, List.append_assoc]; rfl, fun event hevent => ?_, fun reserved hbefore => ?_⟩⟩
  · rcases List.mem_append.mp hevent with hevent | hevent
    · exact hookEvents_isPassive hevent
    · rw [List.mem_singleton.mp hevent]
      rfl
  · rw [hid] at hreserved
    exact hreserved reserved hbefore.drawId

theorem recordInternal (kind : InternalKind) :
    ∃ rest, Passes ids before (before.recordInternal ids kind) rest :=
  ⟨_, rfl, by simp [Event.isPassive], fun _ hbefore => hbefore.recordInternal kind⟩

theorem condensationRequest {hooks : HookManager} :
    ∃ rest, Passes ids before ((before.drawId ids).2.onEvent ids hooks
      (.condensationRequest (before.drawId ids).1)) rest :=
  ⟨[.condensationRequest (before.drawId ids).1], rfl, by simp [Event.isPassive],
    fun _ hbefore => hbefore.drawId.defaultCallback⟩

end Passes

namespace ActionBatch

variable {ids : IdSource} {executor : Executor}

/-- Only a batch with a call of the finish tool is followed by a message. -/
theorem finalize_spec (batch : ActionBatch) (state : ConversationState) :
    ∃ rest, Passes ids state (finalize ids executor batch state) rest ∧
      (batch.hasFinish = false → rest = []) := by
  unfold finalize
  split
  · exact ⟨[], .refl rfl rfl, fun _ => rfl⟩
  · split
    · exact ⟨[], .refl rfl rfl, fun _ => rfl⟩
    next hfinal =>
      split
      · split
        · exact ⟨[], (Passes.refl rfl rfl).status .finished, fun _ => rfl⟩
        next followup _ _ =>
          let llmMessage : Message := { role := .user, content := [.text followup] }
          obtain ⟨rest, hpasses⟩ := @Passes.message ids state executor.hooks
            (fun id => { id, source := .user, llmMessage }) fun _ => rfl
          exact ⟨rest, hpasses, fun hnone => absurd (by simp [hnone]) hfinal⟩
      · exact ⟨[], (Passes.refl rfl rfl).status .finished, fun _ => rfl⟩

/-- An execution answers the actions up to a call of the finish tool. -/
theorem executeActions_spec (state : ConversationState) {actions : List ActionEvent}
    (hids : (actions.map ActionEvent.id).Nodup)
    (hcalls : ∀ action ∈ actions, action.toolCall.id = action.toolCallId) :
    ∃ pieces rest, AnswersAll (truncateAtFinish actions).1 pieces ∧
      (executeActions ids executor state actions).events =
        state.events ++ pieces.flatMap AnswerPiece.events ++ rest ∧
      (∀ event ∈ rest, event.isPassive = true) ∧
      (∀ reserved, Reserved ids state reserved →
        Reserved ids (executeActions ids executor state actions) reserved) ∧
      ((truncateAtFinish actions).2 = false → rest = []) := by
  obtain ⟨hactions, hsame, hresolves, hprepared⟩ :=
    @prepare_spec ids executor state actions hids hcalls
  obtain ⟨pieces, hanswers, hevents, hemitted⟩ := @emit_spec ids executor.hooks
    (prepare ids executor state actions).1 (prepare ids executor state actions).2 _ hresolves
  obtain ⟨rest, ⟨hrest, hpassive, hreserved⟩, hnone⟩ := @finalize_spec ids executor
    (prepare ids executor state actions).1
    (emit ids executor.hooks (prepare ids executor state actions).1
      (prepare ids executor state actions).2)
  rw [← hactions] at hevents hemitted
  refine ⟨pieces, rest, hanswers, ?_, hpassive, fun reserved hbefore => ?_, hnone⟩
  · rw [executeActions, hrest, emit, hevents, hsame]
  · refine hreserved reserved (hemitted reserved ?_)
    rw [hactions]
    exact hprepared reserved hbefore

end ActionBatch

end ShuttleFlow
