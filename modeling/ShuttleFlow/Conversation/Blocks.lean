import ShuttleFlow.Conversation.Runs

/-! # Recorded blocks

Which functions record, take out or keep the blocks of actions and messages.
Only an action that is logged records a block for an action, and only an
execution takes one out.
-/

namespace ShuttleFlow

/-- The id is one of those drawn so far. -/
def Drawn (ids : IdSource) (state : ConversationState) (id : EventID) : Prop :=
  ∃ index < state.drawn, id = ids.uuid index

/-- Messages are blocked under ids that have been drawn. -/
structure Tracks (ids : IdSource) (before after : ConversationState) : Prop where
  drawn : before.drawn ≤ after.drawn
  blockedMessages : ∀ id, (after.blockedMessages id).isSome →
    (before.blockedMessages id).isSome ∨ Drawn ids after id

/-- The blocks of actions are not touched, either. -/
structure Keeps (ids : IdSource) (before after : ConversationState) : Prop
    extends Tracks ids before after where
  blockedActions : after.blockedActions = before.blockedActions

section

variable {ids : IdSource} {before middle after : ConversationState}

theorem Tracks.trans (hfirst : Tracks ids before middle) (hsecond : Tracks ids middle after) :
    Tracks ids before after := by
  refine ⟨hfirst.drawn.trans hsecond.drawn, fun id hblocked => ?_⟩
  rcases hsecond.blockedMessages id hblocked with hblocked | hdrawn
  · rcases hfirst.blockedMessages id hblocked with hblocked | ⟨index, hlt, hid⟩
    · exact .inl hblocked
    · exact .inr ⟨index, hlt.trans_le hsecond.drawn, hid⟩
  · exact .inr hdrawn

namespace Keeps

/-- Other fields may change. -/
theorem of_eq (hactions : after.blockedActions = before.blockedActions)
    (hmessages : after.blockedMessages = before.blockedMessages)
    (hdrawn : before.drawn ≤ after.drawn) : Keeps ids before after where
  drawn := hdrawn
  blockedMessages _ hblocked := .inl (hmessages ▸ hblocked)
  blockedActions := hactions

theorem refl (state : ConversationState) : Keeps ids state state :=
  .of_eq rfl rfl le_rfl

theorem trans (hfirst : Keeps ids before middle) (hsecond : Keeps ids middle after) :
    Keeps ids before after where
  toTracks := hfirst.toTracks.trans hsecond.toTracks
  blockedActions := hsecond.blockedActions.trans hfirst.blockedActions

theorem status (hkeeps : Keeps ids before after)
    (executionStatus : ConversationExecutionStatus) :
    Keeps ids before { after with executionStatus } :=
  hkeeps.trans (.of_eq rfl rfl le_rfl)

/-- One item after another. -/
theorem foldl {α : Type} {f : ConversationState → α → ConversationState} {items : List α}
    (hkeeps : ∀ item ∈ items, ∀ state, Keeps ids state (f state item))
    (state : ConversationState) : Keeps ids state (items.foldl f state) := by
  induction items generalizing state with
  | nil => exact .refl state
  | cons item items ih =>
      have hrest := ih (fun other hother => hkeeps other (.tail _ hother)) (f state item)
      exact (hkeeps item List.mem_cons_self state).trans hrest

end Keeps

end

/-! ## Callbacks -/

namespace ConversationState

variable {ids : IdSource} {hooks : HookManager}

theorem drawId_keeps (state : ConversationState) : Keeps ids state (state.drawId ids).2 :=
  .of_eq rfl rfl (Nat.le_succ _)

theorem drawId_drawn (state : ConversationState) :
    Drawn ids (state.drawId ids).2 (state.drawId ids).1 :=
  ⟨state.drawn, Nat.lt_succ_self _, rfl⟩

theorem defaultCallback_keeps (state : ConversationState) (event : Event) :
    Keeps ids state (state.defaultCallback event) :=
  .of_eq rfl rfl le_rfl

theorem recordInternal_keeps (state : ConversationState) (kind : InternalKind) :
    Keeps ids state (state.recordInternal ids kind) :=
  (drawId_keeps state).trans (defaultCallback_keeps _ _)

theorem emitHookExecutionEvents_keeps (count : Nat) (state : ConversationState) :
    Keeps ids state (emitHookExecutionEvents ids count state) := by
  induction count generalizing state with
  | zero => exact .refl state
  | succ count ih => exact (recordInternal_keeps state _).trans (ih _)

theorem handlePostToolUse_keeps (state : ConversationState) (observation : ObservationEvent) :
    Keeps ids state (handlePostToolUse ids hooks state observation) := by
  simp only [handlePostToolUse]
  split
  · exact emitHookExecutionEvents_keeps _ state
  · exact .refl state

/-- The message is blocked under the id it comes with. -/
theorem handleUserPromptSubmit_keeps {state : ConversationState} {message : MessageEvent}
    (hdrawn : Drawn ids state message.id) :
    Keeps ids state (handleUserPromptSubmit ids hooks state message).1 := by
  have hevents := @emitHookExecutionEvents_keeps ids
    (hooks.runUserPromptSubmit message).executed state
  obtain ⟨index, hlt, hid⟩ := hdrawn
  have hblocks : ∀ reason, Keeps ids state ((emitHookExecutionEvents ids
      (hooks.runUserPromptSubmit message).executed state).blockMessage message.id reason) := by
    refine fun reason => ⟨⟨hevents.drawn, fun id hblocked => ?_⟩, hevents.blockedActions⟩
    by_cases hsame : id = message.id
    · exact .inr ⟨index, hlt.trans_le hevents.drawn, hsame.trans hid⟩
    · simp only [blockMessage, Function.update_of_ne hsame] at hblocked
      exact hevents.blockedMessages id hblocked
  cases hreason : (hooks.runUserPromptSubmit message).blockingReason <;>
    cases hcontext : hooks.additionalContext message <;>
    simp only [handleUserPromptSubmit, hreason, hcontext]
  · exact hevents
  · exact hevents.trans (drawId_keeps _)
  · exact hblocks _
  · exact (hblocks _).trans (drawId_keeps _)

/-- Only actions record blocks of actions. -/
theorem onEvent_keeps {state : ConversationState} {event : Event}
    (haction : event.executable = [])
    (hdrawn : ∀ message, event = .convertible (.message message) → Drawn ids state message.id) :
    Keeps ids state (state.onEvent ids hooks event) := by
  cases event with
  | convertible event =>
      cases event with
      | action action =>
          have hinvalid : action.action.isSome = false := by
            by_contra hvalid
            simp [Event.executable, hvalid] at haction
          simp only [onEvent, hinvalid, Bool.false_eq_true, if_false]
          exact defaultCallback_keeps state _
      | observation observation =>
          cases observation with
          | observation observation =>
              exact (handlePostToolUse_keeps state observation).trans (defaultCallback_keeps _ _)
          | userReject rejection => exact defaultCallback_keeps state _
          | agentError error => exact defaultCallback_keeps state _
      | message message =>
          by_cases huser : message.source = .user
          · simpa only [onEvent, huser, if_true] using
              (handleUserPromptSubmit_keeps (hdrawn message rfl)).trans (defaultCallback_keeps _ _)
          · simpa only [onEvent, huser, if_false] using defaultCallback_keeps state _
      | systemPrompt prompt => exact defaultCallback_keeps state _
      | condensationSummary summary => exact defaultCallback_keeps state _
  | condensation condensation => exact defaultCallback_keeps state _
  | condensationRequest id => exact defaultCallback_keeps state _
  | internal id kind => exact defaultCallback_keeps state _

/-- An event under a new id. -/
theorem onEvent_drawId_keeps {state : ConversationState} (event : EventID → Event)
    (hid : ∀ id, (event id).id = id) (haction : ∀ id, (event id).executable = []) :
    Keeps ids state
      ((state.drawId ids).2.onEvent ids hooks (event (state.drawId ids).1)) :=
  (drawId_keeps state).trans
    (onEvent_keeps (haction _) fun message hmessage => by
      have hsame := hid (state.drawId ids).1
      rw [hmessage] at hsame
      exact (show message.id = _ from hsame) ▸ drawId_drawn state)

/-- The block is recorded before the action is logged. -/
theorem onEvent_action_blockedActions {state : ConversationState} {action : ActionEvent}
    (hvalid : action.action.isSome) :
    Tracks ids state (state.onEvent ids hooks (.convertible (.action action))) ∧
      (state.onEvent ids hooks (.convertible (.action action))).blockedActions =
        match (hooks.runPreToolUse action).blockingReason with
        | none => state.blockedActions
        | some reason => Function.update state.blockedActions action.id (some reason) := by
  have hevents := @emitHookExecutionEvents_keeps ids (hooks.runPreToolUse action).executed state
  cases hreason : (hooks.runPreToolUse action).blockingReason <;>
    simp only [onEvent, hvalid, if_true, handlePreToolUse, hreason]
  · exact ⟨⟨hevents.drawn, hevents.blockedMessages⟩, hevents.blockedActions⟩
  · refine ⟨⟨hevents.drawn, hevents.blockedMessages⟩, ?_⟩
    simp only [defaultCallback, blockAction, hevents.blockedActions]

end ConversationState

/-! ## Batches -/

/-- The blocks of some actions are taken out, and no others. -/
structure TakesBlocks (ids : IdSource) (before after : ConversationState)
    (actions : List ActionEvent) : Prop extends Tracks ids before after where
  taken : ∀ action ∈ actions, after.blockedActions action.id = none
  others : ∀ id, id ∉ actions.map ActionEvent.id →
    after.blockedActions id = before.blockedActions id

theorem TakesBlocks.trans {ids : IdSource} {before middle after : ConversationState}
    {actions : List ActionEvent} (htakes : TakesBlocks ids before middle actions)
    (hkeeps : Keeps ids middle after) : TakesBlocks ids before after actions where
  toTracks := htakes.toTracks.trans hkeeps.toTracks
  taken := hkeeps.blockedActions ▸ htakes.taken
  others := hkeeps.blockedActions ▸ htakes.others

namespace ActionBatch

variable {ids : IdSource} {executor : Executor}

/-- The reasons are those recorded, and are no longer recorded. -/
theorem partitionBlocked_blocks (state : ConversationState) {actions : List ActionEvent}
    (hids : (actions.map ActionEvent.id).Nodup) :
    (partitionBlocked state actions).2.2.blockedMessages = state.blockedMessages ∧
      (∀ action ∈ actions,
        (partitionBlocked state actions).2.2.blockedActions action.id = none) ∧
      (∀ id, id ∉ actions.map ActionEvent.id →
        (partitionBlocked state actions).2.2.blockedActions id = state.blockedActions id) ∧
      ∀ action ∈ actions,
        (partitionBlocked state actions).1 action.id = state.blockedActions action.id := by
  induction actions generalizing state with
  | nil => exact ⟨rfl, by simp, fun _ _ => rfl, by simp⟩
  | cons action rest ih =>
      rw [List.map_cons, List.nodup_cons] at hids
      have hne : ∀ other ∈ rest, other.id ≠ action.id := fun other hmem heq =>
        hids.1 (heq ▸ List.mem_map_of_mem hmem)
      obtain ⟨hmessages, htaken, hothers, hreasons⟩ :=
        ih (state.popBlockedAction action.id).2 hids.2
      cases hblocked : state.blockedActions action.id with
      | none =>
          have hpop : state.popBlockedAction action.id = (none, state) := by
            simp only [ConversationState.popBlockedAction, hblocked]
          simp only [hpop] at hmessages htaken hothers hreasons
          simp only [partitionBlocked, hpop]
          refine ⟨hmessages, fun other hother => ?_, fun id hid => ?_, fun other hother => ?_⟩
          · rcases List.mem_cons.mp hother with rfl | hother
            · rw [hothers _ hids.1, hblocked]
            · exact htaken other hother
          · exact hothers id fun hmem => hid (.tail _ hmem)
          · rcases List.mem_cons.mp hother with rfl | hother
            · rw [(@partitionBlocked_spec state rest hids.2).2.2.2 other.id hids.1, hblocked]
            · exact hreasons other hother
      | some reason =>
          have hpop : state.popBlockedAction action.id = (some reason,
              { state with
                blockedActions := Function.update state.blockedActions action.id none }) := by
            simp only [ConversationState.popBlockedAction, hblocked]
          simp only [hpop] at hmessages htaken hothers hreasons
          simp only [partitionBlocked, hpop]
          refine ⟨hmessages, fun other hother => ?_, fun id hid => ?_, fun other hother => ?_⟩
          · rcases List.mem_cons.mp hother with rfl | hother
            · rw [hothers _ hids.1, Function.update_self]
            · exact htaken other hother
          · rw [List.map_cons, List.mem_cons, not_or] at hid
            rw [hothers id hid.2, Function.update_of_ne hid.1]
          · rcases List.mem_cons.mp hother with rfl | hother
            · rw [Function.update_self, hblocked]
            · rw [Function.update_of_ne (hne other hother), hreasons other hother,
                Function.update_of_ne (hne other hother)]

theorem partitionBlocked_takes (state : ConversationState) {actions : List ActionEvent}
    (hids : (actions.map ActionEvent.id).Nodup) :
    TakesBlocks ids state (partitionBlocked state actions).2.2 actions := by
  obtain ⟨-, hdrawn, -, -⟩ := partitionBlocked_spec state hids
  obtain ⟨hmessages, htaken, hothers, -⟩ := partitionBlocked_blocks state hids
  exact ⟨⟨hdrawn.ge, fun id hblocked => .inl (hmessages ▸ hblocked)⟩, htaken, hothers⟩

theorem executeBatch_keeps (runTool : ActionEvent → ToolOutcome) (state : ConversationState)
    (actions : List ActionEvent) :
    Keeps ids state (executeBatch ids runTool state actions).2 := by
  induction actions generalizing state with
  | nil => exact .refl state
  | cons action rest ih => exact (ConversationState.drawId_keeps state).trans (ih _)

theorem prepare_takes (state : ConversationState) {actions : List ActionEvent}
    (hids : (actions.map ActionEvent.id).Nodup) :
    TakesBlocks ids state (prepare ids executor state actions).2 (truncateAtFinish actions).1 :=
  (partitionBlocked_takes state
    (hids.sublist ((truncateAtFinish_initial actions).sublist.map _))).trans
      (executeBatch_keeps _ _ _)

theorem emitOne_keeps {hooks : HookManager} {batch : ActionBatch} {action : ActionEvent}
    (hresolves : Resolves batch action) (state : ConversationState) :
    Keeps ids state (emitOne ids hooks batch state action) := by
  unfold emitOne
  split
  next reason _ =>
    exact ConversationState.onEvent_drawId_keeps (fun id => rejection id action reason .hook)
      (fun _ => rfl) fun _ => rfl
  next hfree =>
    rcases hresolves with hblocked | ⟨-, observation, hresult, -⟩
    · rw [hfree] at hblocked
      cases hblocked
    · rw [hresult]
      exact ConversationState.onEvent_keeps rfl fun message hmessage => by cases hmessage

theorem finalize_keeps (batch : ActionBatch) (state : ConversationState) :
    Keeps ids state (finalize ids executor batch state) := by
  unfold finalize
  split
  · exact .refl state
  · split
    · exact .refl state
    · split
      · split
        · exact (Keeps.refl state).status .finished
        next followup _ _ =>
          let llmMessage : Message := { role := .user, content := [.text followup] }
          exact ConversationState.onEvent_drawId_keeps
            (fun id => .convertible (.message { id, source := .user, llmMessage }))
            (fun _ => rfl) fun _ => rfl
      · exact (Keeps.refl state).status .finished

theorem executeActions_takes (state : ConversationState) {actions : List ActionEvent}
    (hids : (actions.map ActionEvent.id).Nodup)
    (hcalls : ∀ action ∈ actions, action.toolCall.id = action.toolCallId) :
    TakesBlocks ids state (executeActions ids executor state actions)
      (truncateAtFinish actions).1 := by
  obtain ⟨hactions, -, hresolves, -⟩ := @prepare_spec ids executor state actions hids hcalls
  have hemits : Keeps ids (prepare ids executor state actions).2
      (emit ids executor.hooks (prepare ids executor state actions).1
        (prepare ids executor state actions).2) :=
    .foldl (fun action haction => emitOne_keeps (hresolves action (hactions ▸ haction))) _
  exact (prepare_takes state hids).trans (hemits.trans (finalize_keeps _ _))

end ActionBatch

/-! ## The agent -/

namespace Agent

variable {ids : IdSource} {env : Environment}

theorem executeActions_takes (state : ConversationState) {actions : List ActionEvent}
    (hids : (actions.map ActionEvent.id).Nodup)
    (hcalls : ∀ action ∈ actions, action.toolCall.id = action.toolCallId) :
    TakesBlocks ids state (executeActions ids env state actions)
      (ActionBatch.truncateAtFinish actions).1 := by
  unfold executeActions
  split
  · exact ActionBatch.prepare_takes state hids
  · exact ActionBatch.executeActions_takes state hids hcalls

theorem emitToolError_keeps (state : ConversationState) (toolCall : MessageToolCall)
    (llmResponseId : EventID) (header : Header) (toolName error : String) :
    Keeps ids state (emitToolError ids env state toolCall llmResponseId header toolName error) := by
  have hcall := @ConversationState.onEvent_drawId_keeps ids env.hooks state
    (fun id => .convertible (.action { header with
      id, action := none, toolName := toolCall.name, toolCallId := toolCall.id, toolCall,
      llmResponseId })) (fun _ => rfl) fun _ => rfl
  exact hcall.trans (@ConversationState.onEvent_drawId_keeps ids env.hooks _
    (fun id => .convertible (.observation (.agentError ⟨id, toolName, toolCall.id, error⟩)))
    (fun _ => rfl) fun _ => rfl)

/-- Blocks are recorded for the actions a hook blocks, and none is taken out. -/
structure RecordsBlocks (ids : IdSource) (hooks : HookManager) (before after : ConversationState)
    (actions : List ActionEvent) : Prop extends Tracks ids before after where
  recorded : ∀ action ∈ actions, (hooks.runPreToolUse action).blockingReason.isSome →
    (after.blockedActions action.id).isSome
  stays : ∀ id, (before.blockedActions id).isSome → (after.blockedActions id).isSome

theorem getActionEvent_records (state : ConversationState) (toolCall : MessageToolCall)
    (llmResponseId : EventID) (header : Header) :
    RecordsBlocks ids env.hooks state
      (getActionEvent ids env state toolCall llmResponseId header).2
      (getActionEvent ids env state toolCall llmResponseId header).1.toList := by
  cases hvalidate : env.validate toolCall with
  | invalid toolName error =>
      simp only [getActionEvent, hvalidate]
      have hkeeps := @emitToolError_keeps ids env state toolCall llmResponseId header toolName error
      exact ⟨hkeeps.toTracks, by simp, fun id hblocked => hkeeps.blockedActions ▸ hblocked⟩
  | valid toolName arguments action securityRisk =>
      simp only [getActionEvent, hvalidate]
      generalize hevent : ActionEvent.mk (state.drawId ids).1 .. = event
      have hvalid : event.action.isSome := hevent ▸ rfl
      obtain ⟨htracks, hblocks⟩ := @ConversationState.onEvent_action_blockedActions ids env.hooks
        (state.drawId ids).2 event hvalid
      refine ⟨(ConversationState.drawId_keeps state).toTracks.trans htracks, ?_, fun id hid => ?_⟩
      · intro other hother hreason
        obtain rfl := List.mem_singleton.mp hother
        obtain ⟨reason, hreason⟩ := Option.isSome_iff_exists.mp hreason
        simp [hblocks, hreason]
      · rw [hblocks]
        split
        · exact hid
        next reason _ =>
          by_cases hsame : id = event.id
          · simp [hsame]
          · rw [Function.update_of_ne hsame]
            exact hid

theorem emitToolCalls_records (llmResponseId : EventID) (state : ConversationState)
    (header : Header) (toolCalls : List MessageToolCall) :
    RecordsBlocks ids env.hooks state
      (emitToolCalls ids env llmResponseId state header toolCalls).2
      (emitToolCalls ids env llmResponseId state header toolCalls).1 := by
  induction toolCalls generalizing state header with
  | nil => exact ⟨(Keeps.refl state).toTracks, by simp [emitToolCalls], fun _ hid => hid⟩
  | cons toolCall rest ih =>
      have hfirst := @getActionEvent_records ids env state toolCall llmResponseId header
      have hrest := ih (getActionEvent ids env state toolCall llmResponseId header).2 {}
      refine ⟨hfirst.toTracks.trans hrest.toTracks, fun action haction hreason => ?_,
        fun id hid => hrest.stays id (hfirst.stays id hid)⟩
      rcases List.mem_append.mp haction with haction | haction
      · exact hrest.stays _ (hfirst.recorded action haction hreason)
      · exact hrest.recorded action haction hreason

theorem maybeEmitVllmTokens_keeps (state : ConversationState) :
    Keeps ids state (maybeEmitVllmTokens ids env state) := by
  unfold maybeEmitVllmTokens
  split
  · exact ConversationState.recordInternal_keeps state _
  · exact .refl state

theorem emitMessageEvent_keeps (state : ConversationState) (response : LLMResponse) :
    Keeps ids state (emitMessageEvent ids env state response) :=
  @ConversationState.onEvent_drawId_keeps ids env.hooks state (fun id => .convertible (.message
    { id, source := .agent, llmMessage := response.message, llmResponseId := some response.id }))
    (fun _ => rfl) fun _ => rfl

theorem emitUserText_keeps (state : ConversationState) (text : String) :
    Keeps ids state (emitUserText ids env state text) :=
  @ConversationState.onEvent_drawId_keeps ids env.hooks state (fun id => .convertible (.message
    { id, source := .user, llmMessage := { role := .user, content := [.text text] } }))
    (fun _ => rfl) fun _ => rfl

theorem handleResponse_keeps (state : ConversationState) {response : LLMResponse}
    (hcalls : response.message.calls = []) :
    Keeps ids state (handleResponse ids env state response) := by
  have hmessage := (@emitMessageEvent_keeps ids env state response).trans
    (@maybeEmitVllmTokens_keeps ids env _)
  unfold handleResponse
  split
  next htools => exact absurd hcalls (classifyResponse_toolCalls.mp htools)
  next => exact hmessage.status .finished
  next => exact hmessage.trans (emitUserText_keeps _ _)
  next => exact hmessage.trans (emitUserText_keeps _ _)

/-- Without tool calls, asking the model records and takes out nothing. -/
theorem sample_keeps (state : ConversationState)
    (hcalls : ∀ response, env.completion = .response response → response.message.calls = []) :
    Keeps ids state (sample ids env state) := by
  unfold sample
  split
  next response hresponse => exact handleResponse_keeps state (hcalls response hresponse)
  next text _ => exact emitUserText_keeps state text
  next =>
    exact ConversationState.onEvent_drawId_keeps (fun id => .condensationRequest id)
      (fun _ => rfl) fun _ => rfl
  next => exact .refl state

theorem popBlockedUserMessage_keeps (state : ConversationState) :
    Keeps ids state (popBlockedUserMessage state).2 := by
  unfold popBlockedUserMessage
  split
  next messageId _ =>
    unfold ConversationState.popBlockedMessage
    split
    · exact .refl state
    · refine ⟨⟨le_rfl, fun id hblocked => .inl ?_⟩, rfl⟩
      by_cases hsame : id = messageId
      · simp [hsame] at hblocked
      · simpa [Function.update_of_ne hsame] using hblocked
  next => exact .refl state

/-- The actions of a response are new, and carry the ids of their calls. -/
theorem emitToolCalls_consistent {state : ConversationState} (hstate : Consistent ids state)
    (llmResponseId : EventID) (header : Header) (toolCalls : List MessageToolCall) :
    Consistent ids (emitToolCalls ids env llmResponseId state header toolCalls).2 ∧
      ((emitToolCalls ids env llmResponseId state header toolCalls).1.map ActionEvent.id).Nodup ∧
      ∀ action ∈ (emitToolCalls ids env llmResponseId state header toolCalls).1,
        action.toolCall.id = action.toolCallId ∧ action ∉ loggedActions state.events := by
  obtain ⟨calls, hlogs, hevents, hexecutable, hreserved⟩ :=
    @emitToolCalls_spec ids env llmResponseId state header toolCalls
  have hlogged := loggedActions_ids_nodup
    (List.nodup_append.mp (hreserved [] hstate.reserved).nodup).1
  rw [hevents, loggedActions_append, loggedActions_calls] at hlogged
  have hsub := hexecutable ▸ executable_sublist_action calls
  refine ⟨⟨hreserved [] hstate.reserved, ?_⟩, ?_, fun action haction => ?_⟩
  · rw [hevents, loggedActions_append, loggedActions_calls]
    intro action haction
    rcases List.mem_append.mp haction with haction | haction
    · exact hstate.calls action haction
    · obtain ⟨piece, hpiece, rfl⟩ := List.mem_map.mp haction
      exact hlogs.toolCall_id piece hpiece
  · rw [List.map_append] at hlogged
    exact (List.nodup_append.mp hlogged).2.1.sublist (hsub.map _)
  · have hmem := hsub.subset haction
    obtain ⟨piece, hpiece, rfl⟩ := List.mem_map.mp hmem
    exact ⟨hlogs.toolCall_id piece hpiece, fun hold =>
      (List.nodup_append.mp (List.Nodup.of_map _ hlogged)).2.2 _ hold _ hmem rfl⟩

theorem handleToolCalls_tracks {state : ConversationState} (hstate : Consistent ids state)
    (response : LLMResponse) : Tracks ids state (handleToolCalls ids env state response) := by
  have hrecords := @emitToolCalls_records ids env response.id state
    (Message.header response.message) response.message.calls
  obtain ⟨-, hids, hnew⟩ := @emitToolCalls_consistent ids env state hstate response.id
    (Message.header response.message) response.message.calls
  obtain ⟨actions, emitted, hemit⟩ : ∃ actions emitted, emitToolCalls ids env response.id state
    (Message.header response.message) response.message.calls = (actions, emitted) := ⟨_, _, rfl⟩
  simp only [hemit] at hrecords hids hnew
  simp only [handleToolCalls, hemit]
  have hexecuted := @executeActions_takes ids env emitted actions hids fun action haction =>
    (hnew action haction).1
  split
  · exact hrecords.toTracks.trans ((Keeps.refl emitted).status _).toTracks
  · split
    · exact hrecords.toTracks.trans (maybeEmitVllmTokens_keeps emitted).toTracks
    · split
      · exact hrecords.toTracks.trans hexecuted.toTracks
      · exact (hrecords.toTracks.trans hexecuted.toTracks).trans
          (maybeEmitVllmTokens_keeps _).toTracks

theorem step_tracks {state : ConversationState} (hstate : Consistent ids state) :
    Tracks ids state (step ids env state) := by
  unfold step
  split
  next action rest hunmatched =>
    have hpending := getUnmatchedActions_sublist state.events
    have hids := loggedActions_ids_nodup (List.nodup_append.mp hstate.reserved.nodup).1
    rw [hunmatched] at hpending
    exact (executeActions_takes state (hids.sublist (hpending.map _))
      fun other hother => hstate.calls other (hpending.subset hother)).toTracks
  next =>
    have hpopped := @popBlockedUserMessage_keeps ids state
    obtain ⟨hevents, hdrawn⟩ := popBlockedUserMessage_spec state
    obtain ⟨reason, popped, hpop⟩ : ∃ reason popped,
      popBlockedUserMessage state = (reason, popped) := ⟨_, _, rfl⟩
    simp only [hpop] at hpopped hevents hdrawn ⊢
    cases reason with
    | some reason => exact (hpopped.status .finished).toTracks
    | none =>
        refine hpopped.toTracks.trans ?_
        simp only [condenseOrSample]
        split
        next plan _ =>
          exact (@ConversationState.onEvent_drawId_keeps ids env.hooks popped
            (fun id => .condensation
              { id, forgottenEventIds := plan.forgottenEventIds, summary := plan.summary
                summaryOffset := plan.summaryOffset, llmResponseId := plan.llmResponseId })
            (fun _ => rfl) fun _ => rfl).toTracks
        next =>
          by_cases hcalls : ∀ response, env.completion = .response response →
              response.message.calls = []
          · exact (sample_keeps popped hcalls).toTracks
          · push Not at hcalls
            obtain ⟨response, hresponse, hcalls⟩ := hcalls
            simp only [sample, hresponse, handleResponse_toolCalls hcalls]
            exact handleToolCalls_tracks
              ⟨hstate.reserved.congr hevents hdrawn, hevents ▸ hstate.calls⟩ response

end Agent

/-! ## Operations -/

namespace LocalConversation

variable {ids : IdSource}

theorem answerAll_keeps {hooks : HookManager} {answer : EventID → ActionEvent → Event}
    (hanswer : ∀ id action, (answer id action).id = id ∧ (answer id action).executable = [])
    (actions : List ActionEvent) (state : ConversationState) :
    Keeps ids state (answerAll ids hooks answer actions state) :=
  .foldl (fun action _ _ => ConversationState.onEvent_drawId_keeps (fun id => answer id action)
    (fun id => (hanswer id action).1) fun id => (hanswer id action).2) state

theorem rejectPendingActions_keeps (hooks : HookManager) (reason : String)
    (state : ConversationState) :
    Keeps ids state (rejectPendingActions ids hooks reason state) := by
  simp only [rejectPendingActions]
  exact ((Keeps.refl state).status _).trans (answerAll_keeps (fun _ _ => ⟨rfl, rfl⟩) _ _)

theorem emitOrphanedActionErrors_keeps (hooks : HookManager) (state : ConversationState) :
    Keeps ids state (emitOrphanedActionErrors ids hooks state) :=
  answerAll_keeps (fun _ _ => ⟨rfl, rfl⟩) _ _

theorem sendMessage_keeps (hooks : HookManager) (message : Message)
    (extendedContent : List Content) (state : ConversationState) :
    Keeps ids state (sendMessage ids hooks message extendedContent state) :=
  ((Keeps.refl state).status _).trans (ConversationState.onEvent_drawId_keeps
    (fun id => .convertible (.message
      { id, source := .user, llmMessage := message, extendedContent }))
    (fun _ => rfl) fun _ => rfl)

theorem runStep_tracks {env : Environment} {state : ConversationState}
    (hstate : Consistent ids state) : Tracks ids state (runStep ids env state) := by
  have hstep := @Agent.step_tracks ids env state hstate
  simp only [runStep]
  split
  · exact hstep.trans (((emitOrphanedActionErrors_keeps _ _).status .paused).trans
      (ConversationState.recordInternal_keeps _ _)).toTracks
  · exact hstep

/-- Only steps record or take out blocks of actions. -/
theorem apply_keeps {state : ConversationState} {operation : Operation}
    (hother : ∀ env, operation ≠ .step env) : Keeps ids state (apply ids state operation) := by
  cases operation with
  | sendMessage hooks message extendedContent => exact sendMessage_keeps _ _ _ state
  | step env => exact absurd rfl (hother env)
  | rejectPendingActions hooks reason => exact rejectPendingActions_keeps _ _ state
  | sendFeedback hooks feedback =>
      let text := "[Stop hook feedback] " ++ feedback
      exact Keeps.status (ConversationState.onEvent_drawId_keeps
        (fun id => .convertible (.message
          { id, source := .environment, llmMessage := { role := .user, content := [.text text] } }))
        (fun _ => rfl) fun _ => rfl) .running
  | pause =>
      simp only [apply, pause]
      split
      · exact ((Keeps.refl state).status .paused).trans
          (ConversationState.recordInternal_keeps _ _)
      · exact ((Keeps.refl state).status .paused).trans
          (ConversationState.recordInternal_keeps _ _)
      · exact .refl state
  | requestCondensation hooks =>
      exact @ConversationState.onEvent_drawId_keeps ids hooks state
        (fun id => .condensationRequest id) (fun _ => rfl) fun _ => rfl
  | record kind => exact ConversationState.recordInternal_keeps state kind

theorem apply_tracks {state : ConversationState} (hstate : Consistent ids state)
    (operation : Operation) : Tracks ids state (apply ids state operation) := by
  cases operation with
  | step env => exact runStep_tracks hstate
  | _ => exact (apply_keeps (by simp)).toTracks

end LocalConversation

/-- Messages are blocked under ids that have been drawn. -/
theorem Reachable.blockedMessages_drawn {ids : IdSource} {state : ConversationState}
    (hstate : Reachable ids state) (id : EventID) (hblocked : (state.blockedMessages id).isSome) :
    Drawn ids state id := by
  induction hstate with
  | init systemPrompt dynamicContext => cases hblocked
  | apply operation hbefore ih =>
      have htracks := LocalConversation.apply_tracks hbefore.consistent operation
      rcases htracks.blockedMessages id hblocked with hblocked | hdrawn
      · obtain ⟨index, hlt, hid⟩ := ih hblocked
        exact ⟨index, hlt.trans_le htracks.drawn, hid⟩
      · exact hdrawn

end ShuttleFlow
