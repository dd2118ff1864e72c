import ShuttleFlow.Conversation.Callbacks

/-! # What callbacks append

Ids that have been drawn but not logged yet are reserved. As long as every
event is logged under a reserved id, the ids of the log stay distinct.
-/

namespace ShuttleFlow

/-- The ids of the log and the reserved ones are distinct and have been drawn. -/
structure Reserved (ids : IdSource) (state : ConversationState) (reserved : List EventID) :
    Prop where
  nodup : (state.events.map Event.id ++ reserved).Nodup
  drawn : ∀ id ∈ state.events.map Event.id ++ reserved, ∃ index < state.drawn, id = ids.uuid index

namespace Reserved

variable {ids : IdSource} {state : ConversationState} {reserved : List EventID}

/-- Only the log and the number of drawn ids matter. -/
theorem congr (hreserved : Reserved ids state reserved) {other : ConversationState}
    (hevents : other.events = state.events) (hdrawn : other.drawn = state.drawn) :
    Reserved ids other reserved := by
  obtain ⟨hnodup, hids⟩ := hreserved
  exact ⟨hevents ▸ hnodup, by rw [hevents, hdrawn]; exact hids⟩

theorem sublist (hreserved : Reserved ids state reserved) {fewer : List EventID}
    (hsub : List.Sublist fewer reserved) : Reserved ids state fewer :=
  ⟨hreserved.nodup.sublist ((List.Sublist.refl _).append hsub),
    fun id hid => hreserved.drawn id (((List.Sublist.refl _).append hsub).subset hid)⟩

theorem drawId (hreserved : Reserved ids state reserved) :
    Reserved ids (state.drawId ids).2 ((state.drawId ids).1 :: reserved) := by
  have hnew : ids.uuid state.drawn ∉ state.events.map Event.id ++ reserved := by
    intro hmem
    obtain ⟨index, hlt, heq⟩ := hreserved.drawn _ hmem
    exact absurd (ids.injective heq) (by omega)
  refine ⟨?_, fun id hid => ?_⟩
  · change (state.events.map Event.id ++ ids.uuid state.drawn :: reserved).Nodup
    rw [List.nodup_middle, List.nodup_cons]
    exact ⟨hnew, hreserved.nodup⟩
  · change id ∈ state.events.map Event.id ++ ids.uuid state.drawn :: reserved at hid
    rw [List.mem_append, List.mem_cons] at hid
    rcases hid with hid | rfl | hid
    · obtain ⟨index, hlt, heq⟩ := hreserved.drawn id (List.mem_append_left _ hid)
      exact ⟨index, Nat.lt_succ_of_lt hlt, heq⟩
    · exact ⟨state.drawn, Nat.lt_succ_self _, rfl⟩
    · obtain ⟨index, hlt, heq⟩ := hreserved.drawn id (List.mem_append_right _ hid)
      exact ⟨index, Nat.lt_succ_of_lt hlt, heq⟩

theorem defaultCallback {event : Event} (hreserved : Reserved ids state (event.id :: reserved)) :
    Reserved ids (state.defaultCallback event) reserved := by
  obtain ⟨hnodup, hdrawn⟩ := hreserved
  refine ⟨?_, fun id hid => hdrawn id ?_⟩
  · simpa [ConversationState.defaultCallback] using hnodup
  · simpa [ConversationState.defaultCallback] using hid

end Reserved

namespace ConversationState

variable (ids : IdSource) (hooks : HookManager) (state : ConversationState)

@[simp] theorem defaultCallback_events (event : Event) :
    (state.defaultCallback event).events = state.events ++ [event] := rfl

@[simp] theorem drawId_events : (state.drawId ids).2.events = state.events := rfl

@[simp] theorem blockAction_events (actionId : EventID) (reason : String) :
    (state.blockAction actionId reason).events = state.events := rfl

@[simp] theorem blockMessage_events (messageId : EventID) (reason : String) :
    (state.blockMessage messageId reason).events = state.events := rfl

@[simp] theorem popBlockedAction_events (actionId : EventID) :
    (state.popBlockedAction actionId).2.events = state.events := by
  unfold popBlockedAction
  split <;> rfl

@[simp] theorem popBlockedAction_drawn (actionId : EventID) :
    (state.popBlockedAction actionId).2.drawn = state.drawn := by
  unfold popBlockedAction
  split <;> rfl

@[simp] theorem popBlockedMessage_events (messageId : EventID) :
    (state.popBlockedMessage messageId).2.events = state.events := by
  unfold popBlockedMessage
  split <;> rfl

@[simp] theorem popBlockedMessage_drawn (messageId : EventID) :
    (state.popBlockedMessage messageId).2.drawn = state.drawn := by
  unfold popBlockedMessage
  split <;> rfl

end ConversationState

/-! ## Hooks -/

/-- The events that record hook executions. -/
def hookEvents (hookIds : List EventID) : List Event :=
  hookIds.map (.internal · .hookExecution)

theorem convertibles_hookEvents (hookIds : List EventID) :
    convertibles (hookEvents hookIds) = [] := by
  induction hookIds with
  | nil => rfl
  | cons hookId hookIds ih => exact ih

theorem Reserved.recordInternal {ids : IdSource} {state : ConversationState}
    {reserved : List EventID} (hreserved : Reserved ids state reserved) (kind : InternalKind) :
    Reserved ids (state.recordInternal ids kind) reserved :=
  hreserved.drawId.defaultCallback

/-- What a callback appends: records of the hooks that were run, then an event.
The id of the event is no longer reserved. -/
structure Logs (ids : IdSource) (before after : ConversationState) (hookIds : List EventID)
    (event : Event) (taken : List EventID) : Prop where
  events : after.events = before.events ++ hookEvents hookIds ++ [event]
  reserved : ∀ reserved, Reserved ids before (taken ++ reserved) → Reserved ids after reserved

namespace ConversationState

variable {ids : IdSource} {hooks : HookManager}

theorem emitHookExecutionEvents_spec (count : Nat) (state : ConversationState) :
    ∃ hookIds, (emitHookExecutionEvents ids count state).events =
        state.events ++ hookEvents hookIds ∧
      ∀ reserved, Reserved ids state reserved →
        Reserved ids (emitHookExecutionEvents ids count state) reserved := by
  induction count generalizing state with
  | zero => exact ⟨[], by simp [emitHookExecutionEvents, hookEvents], fun _ => id⟩
  | succ count ih =>
      obtain ⟨hookIds, hevents, hreserved⟩ := ih (recordInternal ids .hookExecution state)
      refine ⟨ids.uuid state.drawn :: hookIds, ?_, fun reserved hbefore => ?_⟩
      · rw [emitHookExecutionEvents, hevents]
        simp [recordInternal, drawId, hookEvents]
      · exact hreserved reserved (hbefore.recordInternal _)

theorem handlePreToolUse_spec (state : ConversationState) (action : ActionEvent) :
    ∃ hookIds, (handlePreToolUse ids hooks state action).events =
        state.events ++ hookEvents hookIds ∧
      ∀ reserved, Reserved ids state reserved →
        Reserved ids (handlePreToolUse ids hooks state action) reserved := by
  obtain ⟨hookIds, hevents, hreserved⟩ :=
    emitHookExecutionEvents_spec (hooks.runPreToolUse action).executed state
  refine ⟨hookIds, ?_, fun reserved hbefore => ?_⟩
  · simp only [handlePreToolUse]
    split <;> exact hevents
  · simp only [handlePreToolUse]
    split
    · exact hreserved reserved hbefore
    · exact (hreserved reserved hbefore).congr rfl rfl

/-- Hooks run only for actions that can be executed. -/
theorem onEvent_action (state : ConversationState) (action : ActionEvent) :
    ∃ hookIds, Logs ids state (state.onEvent ids hooks (.convertible (.action action))) hookIds
      (.convertible (.action action)) [action.id] ∧ (action.action = none → hookIds = []) := by
  by_cases hvalid : action.action.isSome
  · obtain ⟨hookIds, hevents, hreserved⟩ := @handlePreToolUse_spec ids hooks state action
    refine ⟨hookIds, ⟨?_, fun reserved hbefore => ?_⟩, fun hnone => by simp [hnone] at hvalid⟩
    · simp [onEvent, hvalid, hevents]
    · simpa [onEvent, hvalid] using (hreserved _ hbefore).defaultCallback
  · refine ⟨[], ⟨?_, fun reserved hbefore => ?_⟩, fun _ => rfl⟩
    · simp [onEvent, hvalid, hookEvents]
    · simpa [onEvent, hvalid] using hbefore.defaultCallback

theorem onEvent_observation (state : ConversationState) (observation : ObservationBaseEvent) :
    ∃ hookIds, Logs ids state (state.onEvent ids hooks (.convertible (.observation observation)))
      hookIds (.convertible (.observation observation)) [observation.id] := by
  cases observation with
  | observation observation =>
      simp only [onEvent, handlePostToolUse]
      split
      · obtain ⟨hookIds, hevents, hreserved⟩ :=
          emitHookExecutionEvents_spec (hooks.runPostToolUse observation) state
        exact ⟨hookIds, by simp [hevents],
          fun reserved hbefore => (hreserved _ hbefore).defaultCallback⟩
      · exact ⟨[], by simp [hookEvents], fun reserved hbefore => hbefore.defaultCallback⟩
  | userReject rejection =>
      exact ⟨[], by simp [onEvent, hookEvents], fun reserved hbefore => hbefore.defaultCallback⟩
  | agentError error =>
      exact ⟨[], by simp [onEvent, hookEvents], fun reserved hbefore => hbefore.defaultCallback⟩

theorem handleUserPromptSubmit_spec (state : ConversationState) (message : MessageEvent) :
    ∃ hookIds, (handleUserPromptSubmit ids hooks state message).1.events =
        state.events ++ hookEvents hookIds ∧
      (handleUserPromptSubmit ids hooks state message).2.source = message.source ∧
      (handleUserPromptSubmit ids hooks state message).2.llmMessage = message.llmMessage ∧
      ∀ reserved, Reserved ids state (message.id :: reserved) →
        Reserved ids (handleUserPromptSubmit ids hooks state message).1
          ((handleUserPromptSubmit ids hooks state message).2.id :: reserved) := by
  obtain ⟨hookIds, hevents, hreserved⟩ :=
    @emitHookExecutionEvents_spec ids (hooks.runUserPromptSubmit message).executed state
  refine ⟨hookIds, ?_⟩
  -- blocking the message changes neither the log nor the ids
  cases hreason : (hooks.runUserPromptSubmit message).blockingReason <;>
    cases hcontext : hooks.additionalContext message <;>
    simp only [handleUserPromptSubmit, hreason, hcontext]
  · exact ⟨hevents, trivial, trivial, fun reserved hbefore => hreserved _ hbefore⟩
  · refine ⟨hevents, trivial, trivial, fun reserved hbefore => ?_⟩
    exact (hreserved _ (hbefore.sublist (List.sublist_cons_self _ _))).drawId
  · exact ⟨hevents, trivial, trivial, fun reserved hbefore => (hreserved _ hbefore).congr rfl rfl⟩
  · refine ⟨hevents, trivial, trivial, fun reserved hbefore => ?_⟩
    have hkept := hreserved _ (hbefore.sublist (List.sublist_cons_self _ _))
    exact (hkept.drawId).congr rfl rfl

/-- The message that is logged may be a copy under a new id. -/
theorem onEvent_message (state : ConversationState) (message : MessageEvent) :
    ∃ hookIds logged, Logs ids state (state.onEvent ids hooks (.convertible (.message message)))
      hookIds (.convertible (.message logged)) [message.id] ∧
      logged.source = message.source ∧ logged.llmMessage = message.llmMessage ∧
      (message.source ≠ .user → hookIds = [] ∧ logged = message) := by
  by_cases huser : message.source = .user
  · obtain ⟨hookIds, hevents, hsource, hmessage, hreserved⟩ :=
      @handleUserPromptSubmit_spec ids hooks state message
    refine ⟨hookIds, (handleUserPromptSubmit ids hooks state message).2,
      ⟨?_, fun reserved hbefore => ?_⟩, hsource, hmessage, fun hother => absurd huser hother⟩
    · simp [onEvent, huser, hevents]
    · simpa only [onEvent, huser, if_true] using
        Reserved.defaultCallback (hreserved reserved hbefore)
  · refine ⟨[], message, ⟨?_, fun reserved hbefore => ?_⟩, rfl, rfl, fun _ => ⟨rfl, rfl⟩⟩
    · simp [onEvent, huser, hookEvents]
    · simpa only [onEvent, huser, if_false] using hbefore.defaultCallback

end ConversationState

end ShuttleFlow
