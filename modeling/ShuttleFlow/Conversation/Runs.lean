import ShuttleFlow.Conversation.Turns

/-! # Every operation is a turn

One lemma for each operation, and from them the induction over runs.
-/

namespace ShuttleFlow

open scoped List

namespace Agent

variable {ids : IdSource} {env : Environment}

/-- The passive events a message leaves. -/
theorem maybeEmitVllmTokens_spec (state : ConversationState) :
    ∃ trailing, Passes ids state (maybeEmitVllmTokens ids env state) trailing ∧
      convertibles trailing = [] := by
  unfold maybeEmitVllmTokens
  split
  · exact ⟨_, ⟨rfl, by simp [Event.isPassive], fun _ hbefore => hbefore.recordInternal .token⟩,
      rfl⟩
  · exact ⟨[], .refl rfl rfl, rfl⟩

theorem emitMessageEvent_spec (state : ConversationState) (response : LLMResponse) :
    ∃ trailing, Passes ids state (emitMessageEvent ids env state response) trailing :=
  @Passes.message ids state env.hooks (fun id =>
    { id, source := .agent, llmMessage := response.message, llmResponseId := some response.id })
    fun _ => rfl

theorem emitUserText_spec (state : ConversationState) (text : String) :
    ∃ trailing, Passes ids state (emitUserText ids env state text) trailing :=
  let llmMessage : Message := { role := .user, content := [.text text] }
  @Passes.message ids state env.hooks (fun id => { id, source := .user, llmMessage }) fun _ => rfl

theorem handleContentResponse_spec (state : ConversationState) (response : LLMResponse) :
    ∃ trailing, Passes ids state (handleContentResponse ids env state response) trailing := by
  obtain ⟨first, hfirst⟩ := @emitMessageEvent_spec ids env state response
  obtain ⟨second, hsecond, -⟩ := @maybeEmitVllmTokens_spec ids env
    (emitMessageEvent ids env state response)
  exact ⟨_, (hfirst.trans hsecond).status .finished⟩

theorem handleNoContentResponse_spec (state : ConversationState) (response : LLMResponse) :
    ∃ trailing, Passes ids state (handleNoContentResponse ids env state response) trailing := by
  obtain ⟨first, hfirst⟩ := @emitMessageEvent_spec ids env state response
  obtain ⟨second, hsecond, -⟩ := @maybeEmitVllmTokens_spec ids env
    (emitMessageEvent ids env state response)
  obtain ⟨third, hthird⟩ := @emitUserText_spec ids env
    (maybeEmitVllmTokens ids env (emitMessageEvent ids env state response)) correctiveNudge
  exact ⟨_, (hfirst.trans hsecond).trans hthird⟩

/-- Executed actions are answered up to a call of the finish tool, unless the
execution is cancelled. -/
theorem executeActions_spec (state : ConversationState) {actions : List ActionEvent}
    (hids : (actions.map ActionEvent.id).Nodup)
    (hcalls : ∀ action ∈ actions, action.toolCall.id = action.toolCallId) :
    ∃ answers trailing,
      AnswersAll (if env.cancelled then [] else (ActionBatch.truncateAtFinish actions).1) answers ∧
      (executeActions ids env state actions).events =
        state.events ++ answers.flatMap AnswerPiece.events ++ trailing ∧
      (∀ event ∈ trailing, event.isPassive = true) ∧
      (Reserved ids state [] → Reserved ids (executeActions ids env state actions) []) ∧
      (env.cancelled ∨ (ActionBatch.truncateAtFinish actions).2 = false → trailing = []) := by
  unfold executeActions
  split
  next hcancelled =>
    obtain ⟨-, hevents, -, hreserved⟩ :=
      @ActionBatch.prepare_spec ids env.toExecutor state actions hids hcalls
    exact ⟨[], [], ⟨rfl, by simp⟩, by simp [hevents], by simp,
      fun hbefore => (hreserved [] hbefore).sublist (List.nil_sublist _), fun _ => rfl⟩
  next hcancelled =>
    obtain ⟨answers, trailing, hanswers, hevents, hpassive, hreserved, hnone⟩ :=
      @ActionBatch.executeActions_spec ids env.toExecutor state actions hids hcalls
    exact ⟨answers, trailing, hanswers, hevents, hpassive, hreserved [],
      fun hother => hnone (hother.resolve_left hcancelled)⟩

theorem executable_sublist_action (calls : List CallPiece) :
    calls.flatMap CallPiece.executable <+ calls.map CallPiece.action := by
  induction calls with
  | nil => exact List.nil_sublist _
  | cons piece calls ih =>
      rw [List.flatMap_cons, List.map_cons]
      cases piece with
      | valid hookIds action => exact ih.cons_cons action
      | invalid action error => exact ih.cons action

/-- The response to `state` is executed: it calls tools and needs no confirmation. -/
def Executes (ids : IdSource) (env : Environment) (state : ConversationState)
    (response : LLMResponse) : Prop :=
  requiresUserConfirmation env (emitToolCalls ids env response.id state
    (Message.header response.message) response.message.calls).1 = false ∧ env.cancelled = false

/-- A response with tool calls is logged, and answered if it is executed. -/
theorem handleToolCalls_spec (state : ConversationState) (hstate : Consistent ids state)
    (response : LLMResponse) :
    ∃ calls answers trailing,
      CallPiece.LogsAll env response.id (Message.header response.message)
        response.message.calls calls ∧
      (handleToolCalls ids env state response).events = state.events ++
        calls.flatMap CallPiece.events ++ answers.flatMap AnswerPiece.events ++ trailing ∧
      answers.map AnswerPiece.action <+: calls.flatMap CallPiece.executable ∧
      (∀ piece ∈ answers, piece.observation.Answers piece.action) ∧
      (∀ event ∈ trailing, event.isPassive = true) ∧
      (Reserved ids state [] → Reserved ids (handleToolCalls ids env state response) []) ∧
      (env.cancelled → answers = [] ∧
        (trailing = [] ∨ calls.flatMap CallPiece.executable = [])) ∧
      (Executes ids env state response → answers.map AnswerPiece.action =
        (ActionBatch.truncateAtFinish (calls.flatMap CallPiece.executable)).1) ∧
      ((ActionBatch.truncateAtFinish (calls.flatMap CallPiece.executable)).2 = false →
        convertibles trailing = []) := by
  obtain ⟨calls, hlogs, hevents, hexecutable, hreserved⟩ := @emitToolCalls_spec ids env
    response.id state (Message.header response.message) response.message.calls
  unfold Executes
  obtain ⟨actions, emitted, hemit⟩ : ∃ actions emitted, emitToolCalls ids env response.id state
    (Message.header response.message) response.message.calls = (actions, emitted) := ⟨_, _, rfl⟩
  simp only [handleToolCalls, hemit] at hevents hexecutable hreserved ⊢
  -- the actions have just been logged, under fresh ids
  have hsub : actions <+ calls.map CallPiece.action := hexecutable ▸ executable_sublist_action calls
  have hids : (actions.map ActionEvent.id).Nodup := by
    have hlogged := loggedActions_ids_nodup
      (List.nodup_append.mp (hreserved [] hstate.reserved).nodup).1
    rw [hevents, loggedActions_append, loggedActions_calls, List.map_append] at hlogged
    exact (List.nodup_append.mp hlogged).2.1.sublist (hsub.map _)
  have hcalls : ∀ action ∈ actions, action.toolCall.id = action.toolCallId := by
    intro action haction
    obtain ⟨piece, hpiece, rfl⟩ := List.mem_map.mp (hsub.subset haction)
    exact hlogs.toolCall_id piece hpiece
  split
  next hconfirm =>
    exact ⟨calls, [], [], hlogs, by simpa using hevents, List.nil_prefix, by simp, by simp,
      fun hbefore => (hreserved [] hbefore).congr rfl rfl, fun _ => ⟨rfl, .inl rfl⟩,
      fun hexecutes => absurd hconfirm (by simp [hexecutes.1]), fun _ => rfl⟩
  next hconfirm =>
    split
    next hempty =>
      obtain ⟨trailing, htokens, hhidden⟩ := @maybeEmitVllmTokens_spec ids env emitted
      refine ⟨calls, [], trailing, hlogs, by simp [htokens.events, hevents], List.nil_prefix,
        by simp, htokens.passive, fun hbefore => htokens.reserved [] (hreserved [] hbefore),
        fun _ => ⟨rfl, .inr (hexecutable ▸ hempty)⟩, fun _ => ?_, fun _ => hhidden⟩
      rw [← hexecutable, hempty]
      rfl
    next hsome =>
      obtain ⟨answers, executed, hanswers, hlogged, hpassive, hkept, htrail⟩ :=
        @executeActions_spec ids env emitted actions hids hcalls
      split
      next hcancelled =>
        rw [if_pos hcancelled] at hanswers
        obtain rfl := List.map_eq_nil_iff.mp hanswers.actions
        obtain rfl := htrail (.inl hcancelled)
        exact ⟨calls, [], [], hlogs, by simpa [hevents] using hlogged, List.nil_prefix, by simp,
          by simp, fun hbefore => hkept (hreserved [] hbefore), fun _ => ⟨rfl, .inl rfl⟩,
          fun hexecutes => absurd hcancelled (by simp [hexecutes.2]), fun _ => rfl⟩
      next hcancelled =>
        obtain ⟨tokens, htokens, hhidden⟩ := @maybeEmitVllmTokens_spec ids env
          (executeActions ids env emitted actions)
        rw [if_neg hcancelled] at hanswers
        refine ⟨calls, answers, executed ++ tokens, hlogs, ?_, ?_, hanswers.answers, ?_,
          fun hbefore => htokens.reserved [] (hkept (hreserved [] hbefore)),
          fun hother => absurd hother hcancelled, fun _ => ?_, fun hfinish => ?_⟩
        · rw [htokens.events, hlogged, hevents]
          simp
        · rw [hanswers.actions, ← hexecutable]
          exact ActionBatch.truncateAtFinish_initial actions
        · intro event hevent
          rcases List.mem_append.mp hevent with hevent | hevent
          · exact hpassive event hevent
          · exact htokens.passive event hevent
        · rw [hanswers.actions, hexecutable]
        · rw [htrail (.inr (hexecutable ▸ hfinish)), List.nil_append, hhidden]

/-- The step takes up a response: nothing is pending, blocked or condensed. -/
structure TakesUp (env : Environment) (state : ConversationState) (response : LLMResponse) :
    Prop where
  unmatched : ConversationState.getUnmatchedActions state.events = []
  unblocked : (popBlockedUserMessage state).1 = none
  uncondensed : env.condense (View.fromEvents state.events) = none
  completion : env.completion = .response response

theorem popBlockedUserMessage_spec (state : ConversationState) :
    (popBlockedUserMessage state).2.events = state.events ∧
      (popBlockedUserMessage state).2.drawn = state.drawn := by
  unfold popBlockedUserMessage
  split <;> simp

theorem step_of_takesUp {state : ConversationState} {response : LLMResponse}
    (htakes : TakesUp env state response) :
    step ids env state = handleResponse ids env (popBlockedUserMessage state).2 response := by
  obtain ⟨hunmatched, hunblocked, huncondensed, hcompletion⟩ := htakes
  obtain ⟨hevents, -⟩ := popBlockedUserMessage_spec state
  obtain ⟨reason, popped, hpop⟩ : ∃ reason popped,
    popBlockedUserMessage state = (reason, popped) := ⟨_, _, rfl⟩
  rw [hpop] at hunblocked hevents
  dsimp only at hunblocked hevents
  subst hunblocked
  simp only [step, hunmatched, hpop, condenseOrSample, hevents, huncondensed, sample, hcompletion]

theorem classifyResponse_toolCalls {message : Message} :
    classifyResponse message = .toolCalls ↔ message.calls ≠ [] := by
  unfold classifyResponse
  by_cases hcalls : message.calls = []
  · simp only [hcalls, ne_eq, not_true_eq_false, if_false, iff_false]
    split_ifs <;> simp
  · simp [hcalls]

/-- A response without tool calls leaves passive events only. -/
theorem handleResponse_passes (state : ConversationState) {response : LLMResponse}
    (hcalls : response.message.calls = []) :
    ∃ trailing, Passes ids state (handleResponse ids env state response) trailing := by
  have hother : classifyResponse response.message ≠ .toolCalls :=
    fun htools => classifyResponse_toolCalls.mp htools hcalls
  unfold handleResponse
  split
  next htools => exact absurd htools hother
  next => exact handleContentResponse_spec state response
  next => exact handleNoContentResponse_spec state response
  next => exact handleNoContentResponse_spec state response

theorem handleResponse_toolCalls {state : ConversationState} {response : LLMResponse}
    (hcalls : response.message.calls ≠ []) :
    handleResponse ids env state response = handleToolCalls ids env state response := by
  simp only [handleResponse, classifyResponse_toolCalls.mpr hcalls]

/-- Sampling without tool calls leaves passive events only. -/
theorem sample_passes (state : ConversationState)
    (hcalls : ∀ response, env.completion = .response response → response.message.calls = []) :
    ∃ trailing, Passes ids state (sample ids env state) trailing := by
  unfold sample
  split
  next response hresponse => exact handleResponse_passes state (hcalls response hresponse)
  next text _ => exact emitUserText_spec state text
  next => exact Passes.condensationRequest
  next => exact ⟨[], .refl rfl rfl⟩

/-- The step is a turn, which leaves its actions unanswered if it is cancelled. -/
def StepTurn (ids : IdSource) (env : Environment) (before after : ConversationState) : Prop :=
  ∃ calls answers trailing, Turn ids before after (.step env) calls answers trailing ∧
    (env.cancelled → answers = [] ∧
      (trailing = [] ∨ ConversationState.getUnmatchedActions before.events ++
        calls.flatMap CallPiece.executable = []))

theorem StepTurn.ofPasses {before after : ConversationState}
    (hunmatched : ConversationState.getUnmatchedActions before.events = [])
    {trailing : List Event} (hpasses : Passes ids before after trailing) :
    StepTurn ids env before after :=
  ⟨[], [], trailing, .ofPasses hpasses, fun _ => ⟨rfl, .inr (by simp [hunmatched])⟩⟩

/-- Pending actions are executed. -/
theorem StepTurn.ofPending {before : ConversationState} (hbefore : Consistent ids before) :
    StepTurn ids env before
      (executeActions ids env before (ConversationState.getUnmatchedActions before.events)) := by
  have hids := loggedActions_ids_nodup (List.nodup_append.mp hbefore.reserved.nodup).1
  have hpending := getUnmatchedActions_sublist before.events
  obtain ⟨answers, trailing, hanswers, hevents, hpassive, hreserved, htrail⟩ :=
    @executeActions_spec ids env before _ (hids.sublist (hpending.map _))
      fun other hother => hbefore.calls other (hpending.subset hother)
  refine ⟨[], answers, trailing, .ofAnswers ?_ hanswers hevents hpassive hreserved,
    fun hcancelled => ⟨?_, .inl (htrail (.inl hcancelled))⟩⟩
  · split
    · exact List.nil_sublist _
    · exact (ActionBatch.truncateAtFinish_initial _).sublist
  · rw [if_pos hcancelled] at hanswers
    exact List.map_eq_nil_iff.mp hanswers.actions

theorem StepTurn.ofToolCalls {before : ConversationState} (hbefore : Consistent ids before)
    (hunmatched : ConversationState.getUnmatchedActions before.events = [])
    {response : LLMResponse} (hresponse : env.completion = .response response)
    {popped : ConversationState} (hpopped : Passes ids before popped [])
    (hevents : popped.events = before.events) :
    StepTurn ids env before (handleToolCalls ids env popped response) := by
  have hconsistent : Consistent ids popped :=
    ⟨hpopped.reserved [] hbefore.reserved, hevents ▸ hbefore.calls⟩
  obtain ⟨calls, answers, trailing, hlogs, hlogged, hanswered, hanswers, hpassive, hreserved,
    hcancelled, -⟩ := @handleToolCalls_spec ids env popped hconsistent response
  refine ⟨calls, answers, trailing,
    { events := hevents ▸ hlogged
      called := .inr ⟨hunmatched, env, response, rfl, hresponse, hlogs⟩
      answered := by simpa [hunmatched] using hanswered.sublist
      answering := hanswers
      trails := .inl hpassive
      reserved := fun hreserve => hreserved (hpopped.reserved [] hreserve) }, ?_⟩
  simpa [hunmatched] using hcancelled

/-- The condenser is asked first, then the model. -/
theorem StepTurn.ofCondenseOrSample {before : ConversationState} (hbefore : Consistent ids before)
    (hunmatched : ConversationState.getUnmatchedActions before.events = [])
    {popped : ConversationState} (hpopped : Passes ids before popped [])
    (hevents : popped.events = before.events) :
    StepTurn ids env before (condenseOrSample ids env popped) := by
  unfold condenseOrSample
  split
  next plan hplan =>
    refine ⟨[], [], [_],
      { events := by
          simp [ConversationState.onEvent, hevents]
          rfl
        called := .inl rfl
        answered := List.nil_sublist _
        answering := by simp
        trails := .inr ⟨rfl, rfl, env, plan, _, [], rfl, hunmatched, hevents ▸ hplan, rfl, by simp⟩
        reserved := fun hreserve => (hpopped.reserved [] hreserve).drawId.defaultCallback },
      fun _ => ⟨rfl, .inr (by simp [hunmatched])⟩⟩
  next huncondensed =>
    by_cases hcalls : ∀ response, env.completion = .response response → response.message.calls = []
    · obtain ⟨trailing, hpasses⟩ := @sample_passes ids env popped hcalls
      exact .ofPasses hunmatched (hpopped.trans hpasses)
    · push Not at hcalls
      obtain ⟨response, hresponse, hcalls⟩ := hcalls
      simp only [sample, hresponse, handleResponse_toolCalls hcalls]
      exact .ofToolCalls hbefore hunmatched hresponse hpopped hevents

theorem step_turn (state : ConversationState) (hstate : Consistent ids state) :
    StepTurn ids env state (step ids env state) := by
  cases hunmatched : ConversationState.getUnmatchedActions state.events with
  | cons action rest =>
      have hpending : step ids env state = executeActions ids env state
          (ConversationState.getUnmatchedActions state.events) := by
        simp only [step, hunmatched]
      exact hpending ▸ .ofPending hstate
  | nil =>
      obtain ⟨hevents, hdrawn⟩ := popBlockedUserMessage_spec state
      obtain ⟨reason, popped, hpop⟩ : ∃ reason popped,
        popBlockedUserMessage state = (reason, popped) := ⟨_, _, rfl⟩
      rw [hpop] at hevents hdrawn
      have hpopped : Passes ids state popped [] := .refl hevents hdrawn
      cases reason with
      | some reason =>
          simp only [step, hunmatched, hpop]
          exact .ofPasses hunmatched (hpopped.status .finished)
      | none =>
          simp only [step, hunmatched, hpop]
          exact .ofCondenseOrSample hstate hunmatched hpopped hevents

end Agent

namespace LocalConversation

variable {ids : IdSource}

/-- Every action is answered with an event under a new id. -/
theorem answerAll_spec {hooks : HookManager} {answer : EventID → ActionEvent → ObservationBaseEvent}
    (hanswer : ∀ id action, (answer id action).Answers action ∧ (answer id action).id = id)
    (actions : List ActionEvent) (state : ConversationState) :
    ∃ pieces, AnswersAll actions pieces ∧
      (answerAll ids hooks (fun id action => .convertible (.observation (answer id action)))
        actions state).events = state.events ++ pieces.flatMap AnswerPiece.events ∧
      ∀ reserved, Reserved ids state reserved → Reserved ids (answerAll ids hooks
        (fun id action => .convertible (.observation (answer id action))) actions state)
          reserved := by
  induction actions generalizing state with
  | nil => exact ⟨[], ⟨rfl, by simp⟩, by simp [answerAll], fun _ => id⟩
  | cons action rest ih =>
      obtain ⟨hookIds, hlogged, htaken⟩ := @ConversationState.onEvent_observation ids hooks
        (state.drawId ids).2 (answer (state.drawId ids).1 action)
      rw [(hanswer _ action).2] at htaken
      obtain ⟨pieces, hanswers, hevents, hreserved⟩ := ih ((state.drawId ids).2.onEvent ids hooks
        (.convertible (.observation (answer (state.drawId ids).1 action))))
      refine ⟨⟨hookIds, action, answer (state.drawId ids).1 action⟩ :: pieces,
        ⟨by rw [List.map_cons, hanswers.actions], ?_⟩, hevents.trans ?_,
        fun reserved hbefore => hreserved reserved (htaken reserved hbefore.drawId)⟩
      · intro piece hpiece
        rcases List.mem_cons.mp hpiece with rfl | hpiece
        · exact (hanswer _ action).1
        · exact hanswers.answers piece hpiece
      · rw [hlogged, List.flatMap_cons, AnswerPiece.events]
        simp

theorem sendMessage_spec {hooks : HookManager} {message : Message} {extendedContent : List Content}
    (state : ConversationState) :
    ∃ trailing, Passes ids state (sendMessage ids hooks message extendedContent state)
      trailing := by
  simp only [sendMessage]
  obtain ⟨trailing, hpasses⟩ := Passes.message
    (fun id => { id, source := .user, llmMessage := message, extendedContent }) fun _ => rfl
  exact ⟨trailing, hpasses.ofStatus⟩

/-- Rejections answer what they are about, and nothing else. -/
theorem rejections_turn {hooks : HookManager} {reason : String} {pending : List ActionEvent}
    {state : ConversationState}
    (hpending : pending <+ ConversationState.getUnmatchedActions state.events)
    {executionStatus : ConversationExecutionStatus} :
    ∃ answers, Turn ids state
      (answerAll ids hooks (fun id action => ActionBatch.rejection id action reason .user) pending
        { state with executionStatus })
      (.rejectPendingActions hooks reason) [] answers [] := by
  obtain ⟨answers, hanswers, hevents, hreserved⟩ := @answerAll_spec ids hooks
    (fun id action => .userReject
      ⟨id, action.toolName, action.toolCallId, reason, .user, action.id⟩)
    (fun _ _ => ⟨⟨rfl, rfl⟩, rfl⟩) pending { state with executionStatus }
  exact ⟨answers, .ofAnswers hpending hanswers (by rw [List.append_nil]; exact hevents) (by simp)
    fun hbefore => hreserved [] (hbefore.congr rfl rfl)⟩

theorem rejectPendingActions_turn {hooks : HookManager} {reason : String}
    (state : ConversationState) :
    ∃ answers, Turn ids state (rejectPendingActions ids hooks reason state)
      (.rejectPendingActions hooks reason) [] answers [] :=
  rejections_turn (List.Sublist.refl _)

/-- What a cancelled step leaves open is answered with errors. -/
theorem interrupt_turn {env : Environment} {hooks : HookManager}
    {before middle : ConversationState} {calls : List CallPiece} {trailing : List Event}
    (hturn : Turn ids before middle (.step env) calls [] trailing)
    (htrail : trailing = [] ∨ ConversationState.getUnmatchedActions before.events ++
      calls.flatMap CallPiece.executable = []) :
    ∃ answers after, Turn ids before (ConversationState.recordInternal ids .interrupt
      { emitOrphanedActionErrors ids hooks middle with executionStatus := .paused })
      (.step env) calls answers after := by
  obtain ⟨answers, hanswers, hevents, hreserved⟩ := @answerAll_spec ids hooks
    (fun id action => .agentError ⟨id, action.toolName, action.toolCallId,
      "Tool call interrupted before completion. The conversation was paused."⟩)
    (fun _ _ => ⟨rfl, rfl⟩) (ConversationState.getUnmatchedActions middle.events) middle
  obtain ⟨interrupt, hinterrupt⟩ := @Passes.recordInternal ids
    { emitOrphanedActionErrors ids hooks middle with executionStatus := .paused } .interrupt
  have hlogged : (emitOrphanedActionErrors ids hooks middle).events =
    middle.events ++ answers.flatMap AnswerPiece.events := hevents
  have hkept : Reserved ids before [] → Reserved ids (ConversationState.recordInternal ids
      .interrupt { emitOrphanedActionErrors ids hooks middle with executionStatus := .paused })
      [] :=
    fun hbefore => hinterrupt.reserved [] ((hreserved [] (hturn.reserved hbefore)).congr rfl rfl)
  rcases htrail with rfl | hnone
  · refine ⟨answers, interrupt,
      { events := ?_
        called := hturn.called
        answered := hanswers.actions ▸ hturn.unmatched_sublist
        answering := hanswers.answers
        trails := .inl hinterrupt.passive
        reserved := hkept }⟩
    rw [hinterrupt.events]
    simp only [hlogged, hturn.events]
    simp
  · -- nothing was open
    have hclosed : ConversationState.getUnmatchedActions middle.events = [] :=
      List.eq_nil_of_sublist_nil (hnone ▸ hturn.unmatched_sublist)
    obtain rfl : answers = [] := by
      have hactions := hanswers.actions
      rw [hclosed] at hactions
      exact List.map_eq_nil_iff.mp hactions
    refine ⟨[], trailing ++ interrupt,
      { events := ?_
        called := hturn.called
        answered := List.nil_sublist _
        answering := by simp
        trails := ?_
        reserved := hkept }⟩
    · rw [hinterrupt.events]
      simp only [hlogged, hturn.events]
      simp
    · have happend : ∀ passive : List Event, (∀ event ∈ passive, event.isPassive = true) →
          ∀ event ∈ passive ++ interrupt, event.isPassive = true := by
        intro passive hpassive event hevent
        rcases List.mem_append.mp hevent with hevent | hevent
        · exact hpassive event hevent
        · exact hinterrupt.passive event hevent
      rcases hturn.trails with hpassive |
        ⟨hcalls, hempty, env, plan, id, passive, hstep, hunmatched,
        hplan, rfl, hpassive⟩
      · exact .inl (happend trailing hpassive)
      · exact .inr ⟨hcalls, hempty, env, plan, id, passive ++ interrupt, hstep, hunmatched, hplan,
          rfl, happend passive hpassive⟩

theorem runStep_turn {env : Environment} (state : ConversationState)
    (hstate : Consistent ids state) :
    ∃ calls answers trailing,
      Turn ids state (runStep ids env state) (.step env) calls answers trailing := by
  obtain ⟨calls, answers, trailing, hturn, hcancelled⟩ := @Agent.step_turn ids env state hstate
  simp only [runStep]
  split
  next hcancel =>
    obtain ⟨rfl, htrail⟩ := hcancelled hcancel
    obtain ⟨answers, after, hafter⟩ := @interrupt_turn ids env env.hooks _ _ _ _ hturn htrail
    exact ⟨calls, answers, after, hafter⟩
  next => exact ⟨calls, answers, trailing, hturn⟩

/-- Every operation is a turn. -/
theorem apply_turn (state : ConversationState) (hstate : Consistent ids state)
    (operation : Operation) :
    ∃ calls answers trailing,
      Turn ids state (apply ids state operation) operation calls answers trailing := by
  cases operation with
  | sendMessage hooks message extendedContent =>
      obtain ⟨trailing, hpasses⟩ := @sendMessage_spec ids hooks message extendedContent state
      exact ⟨[], [], trailing, .ofPasses hpasses⟩
  | step env => exact runStep_turn state hstate
  | rejectPendingActions hooks reason =>
      obtain ⟨answers, hturn⟩ := @rejectPendingActions_turn ids hooks reason state
      exact ⟨[], answers, [], hturn⟩
  | sendFeedback hooks feedback =>
      let text := "[Stop hook feedback] " ++ feedback
      obtain ⟨trailing, hpasses⟩ := @Passes.message ids state hooks
        (fun id => ⟨id, .environment, { role := .user, content := [.text text] }, none, []⟩)
        fun _ => rfl
      exact ⟨[], [], _, .ofPasses (hpasses.status .running)⟩
  | pause =>
      by_cases hpauses : state.executionStatus = .idle ∨ state.executionStatus = .running
      · obtain ⟨trailing, hpasses⟩ := @Passes.recordInternal ids
          { state with executionStatus := .paused } .pause
        have hpaused : apply ids state .pause = ConversationState.recordInternal ids .pause
            { state with executionStatus := .paused } := by
          rcases hpauses with hstatus | hstatus <;> simp only [apply, pause, hstatus]
        rw [hpaused]
        exact ⟨[], [], trailing, .ofPasses hpasses.ofStatus⟩
      · rw [not_or] at hpauses
        have hsame : apply ids state .pause = state := by
          simp only [apply, pause]
          split
          next hstatus => exact absurd hstatus hpauses.1
          next hstatus => exact absurd hstatus hpauses.2
          next => rfl
        exact ⟨[], [], [], .ofPasses (.refl (by rw [hsame]) (by rw [hsame]))⟩
  | requestCondensation hooks =>
      obtain ⟨trailing, hpasses⟩ := @Passes.condensationRequest ids state hooks
      exact ⟨[], [], trailing, .ofPasses hpasses⟩
  | record kind =>
      obtain ⟨trailing, hpasses⟩ := @Passes.recordInternal ids state kind
      exact ⟨[], [], trailing, .ofPasses hpasses⟩

end LocalConversation

/-! ## Reachable states -/

/-- The states of the runs of a conversation. -/
inductive Reachable (ids : IdSource) : ConversationState → Prop
  | init (systemPrompt : String) (dynamicContext : Option String) :
      Reachable ids (LocalConversation.initState ids systemPrompt dynamicContext)
  | apply {state : ConversationState} (operation : Operation) :
      Reachable ids state → Reachable ids (LocalConversation.apply ids state operation)

namespace Reachable

variable {ids : IdSource}

theorem consistent {state : ConversationState} (hstate : Reachable ids state) :
    Consistent ids state := by
  induction hstate with
  | init systemPrompt dynamicContext =>
      refine ⟨?_, by simp [LocalConversation.initState, ConversationState.onEvent, loggedActions,
        ConversationState.defaultCallback, ConversationState.drawId, convertibles,
        Event.asConvertible, LLMConvertibleEvent.asAction]⟩
      have hempty : Reserved ids {} [] := ⟨List.nodup_nil, by simp⟩
      exact hempty.drawId.defaultCallback
  | apply operation _ ih =>
      obtain ⟨calls, answers, trailing, hturn⟩ := LocalConversation.apply_turn _ ih operation
      exact hturn.consistent ih

end Reachable

/-! ## A small conversation, to run the definitions on -/

namespace Sample

/-- Ids that differ in length. -/
def ids : IdSource where
  uuid count := String.ofList (List.replicate count 'u')
  injective first second hsame := by
    have hlength := congrArg List.length (String.ofList_inj.mp hsame)
    simpa using hlength
  noSummary first second hsame := by
    have hlist := congrArg String.toList hsame
    simp only [String.toList_append, String.toList_ofList] at hlist
    have hdash : '-' ∈ List.replicate second 'u' := by
      rw [← hlist]
      exact List.mem_append_right _ (by decide)
    exact absurd (List.eq_of_mem_replicate hdash) (by decide)

def toolCall (id : ToolCallID) (name : String) : MessageToolCall :=
  ⟨id, none, name, "", .completion⟩

/-- A response that calls the given tools. -/
def response (id : EventID) (toolCalls : List MessageToolCall) : LLMResponse :=
  ⟨id, { role := .assistant, toolCalls := some toolCalls }⟩

/-- Every call validates and every tool runs. -/
def environment (completion : Completion) : Environment where
  runTool _ := .observation ⟨[]⟩
  completion
  validate toolCall :=
    if toolCall.name = finishToolName then .valid finishToolName "" ⟨.finish, ""⟩ .unknown
    else .valid toolCall.name "" ⟨.other, ""⟩ .unknown

def started : ConversationState := LocalConversation.initState ids "" none

end Sample

end ShuttleFlow
