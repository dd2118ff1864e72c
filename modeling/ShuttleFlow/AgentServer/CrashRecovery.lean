import ShuttleFlow.Conversation.Runs

/-! # Recovery after a restart

A conversation that was saved while it was running has been interrupted. The
server marks it as failed, and answers the first of its unmatched actions.
-/

namespace ShuttleFlow

namespace EventService

variable (ids : IdSource)

def restartError : String :=
  "A restart occurred while this tool was in progress. " ++
    "This may indicate a fatal memory error or system crash. " ++
    "The tool execution was interrupted and did not complete."

/-- Has any tool result been logged for this call? -/
def alreadyObserved (toolCallId : ToolCallID) (events : List Event) : Bool :=
  (convertibles events).any fun event =>
    match event.asObservation with
    | some observation => observation.toolCallId = toolCallId
    | none => false

/-- The recovery block of `start`. A change of the status is logged. -/
def recover (hooks : HookManager) (state : ConversationState) : ConversationState :=
  if state.executionStatus = .running then
    let state := ConversationState.recordInternal ids .conversationStateUpdate
      { state with executionStatus := .error }
    match ConversationState.getUnmatchedActions state.events with
    | [] => state
    | first :: _ =>
        if alreadyObserved first.toolCallId state.events then state
        else
          let (id, state) := state.drawId ids
          state.onEvent ids hooks (.convertible (.observation (.agentError
            ⟨id, first.toolName, first.toolCallId, restartError⟩)))
  else state

variable {ids} {hooks : HookManager} {state : ConversationState}

theorem alreadyObserved_iff {toolCallId : ToolCallID} {events : List Event} :
    alreadyObserved toolCallId events ↔
      ∃ observation, Event.convertible (.observation observation) ∈ events ∧
        observation.toolCallId = toolCallId := by
  rw [alreadyObserved, List.any_eq_true]
  constructor
  · rintro ⟨event, hevent, hsame⟩
    split at hsame
    next observation hobservation =>
      rw [asObservation_eq_some] at hobservation
      subst hobservation
      obtain ⟨found, hfound, hconvertible⟩ := List.mem_filterMap.mp hevent
      rw [asConvertible_eq_some] at hconvertible
      exact ⟨observation, hconvertible ▸ hfound, by simpa using hsame⟩
    next => cases hsame
  · rintro ⟨observation, hmem, hsame⟩
    refine ⟨.observation observation, List.mem_filterMap.mpr ⟨_, hmem, rfl⟩, ?_⟩
    simpa [LLMConvertibleEvent.asObservation] using hsame

/-- A state update answers no action. -/
theorem getUnmatchedActions_internal (events : List Event) (id : EventID) (kind : InternalKind) :
    ConversationState.getUnmatchedActions (events ++ [.internal id kind]) =
      ConversationState.getUnmatchedActions events := by
  rw [ConversationState.getUnmatchedActions_append]
  simp [Event.answers, ConversationState.getUnmatchedActions_cons, Event.executable]

/-- An error answers the actions with its call id. -/
theorem getUnmatchedActions_agentError (events : List Event) (error : AgentErrorEvent) :
    ConversationState.getUnmatchedActions
      (events ++ [.convertible (.observation (.agentError error))]) =
      (ConversationState.getUnmatchedActions events).filter fun action =>
        !decide (error.toolCallId = action.toolCallId) := by
  rw [ConversationState.getUnmatchedActions_append]
  simp [Event.answers, ConversationState.getUnmatchedActions_cons, Event.executable]

theorem alreadyObserved_internal (toolCallId : ToolCallID) (events : List Event) (id : EventID)
    (kind : InternalKind) : alreadyObserved toolCallId (events ++ [.internal id kind]) =
      alreadyObserved toolCallId events := by
  rw [Bool.eq_iff_iff, alreadyObserved_iff, alreadyObserved_iff]
  simp

/-- What recovery leaves unmatched. -/
theorem getUnmatchedActions_recover (hrunning : state.executionStatus = .running) :
    ConversationState.getUnmatchedActions (recover ids hooks state).events =
      match ConversationState.getUnmatchedActions state.events with
      | [] => []
      | first :: rest =>
          if alreadyObserved first.toolCallId state.events then first :: rest
          else rest.filter fun action => !decide (first.toolCallId = action.toolCallId) := by
  have hrecorded : (ConversationState.recordInternal ids .conversationStateUpdate
      { state with executionStatus := .error }).events =
      state.events ++ [.internal (ids.uuid state.drawn) .conversationStateUpdate] := rfl
  simp only [recover, if_pos hrunning, hrecorded, getUnmatchedActions_internal]
  cases hunmatched : ConversationState.getUnmatchedActions state.events with
  | nil => simp only [hrecorded, getUnmatchedActions_internal, hunmatched]
  | cons first rest =>
      simp only [alreadyObserved_internal]
      by_cases hobserved : alreadyObserved first.toolCallId state.events
      · simp only [if_pos hobserved, hrecorded, getUnmatchedActions_internal, hunmatched]
      · have hlogged : ∀ (id : EventID) (state : ConversationState),
            (state.onEvent ids hooks (.convertible (.observation (.agentError
              ⟨id, first.toolName, first.toolCallId, restartError⟩)))).events =
              state.events ++ [.convertible (.observation (.agentError
                ⟨id, first.toolName, first.toolCallId, restartError⟩))] := fun _ _ => rfl
        simp only [if_neg hobserved, hlogged, ConversationState.drawId_events, hrecorded,
          getUnmatchedActions_agentError, getUnmatchedActions_internal, hunmatched]
        simp

/-- Recovery leaves nothing unmatched exactly when its one error answers everything. -/
theorem recover_complete_iff (ids : IdSource) (hooks : HookManager) (state : ConversationState)
    (hrunning : state.executionStatus = .running) :
    ConversationState.getUnmatchedActions (recover ids hooks state).events = [] ↔
      ∀ action ∈ ConversationState.getUnmatchedActions state.events,
        alreadyObserved action.toolCallId state.events = false ∧
        ∀ other ∈ ConversationState.getUnmatchedActions state.events,
          other.toolCallId = action.toolCallId := by
  rw [getUnmatchedActions_recover hrunning]
  cases hunmatched : ConversationState.getUnmatchedActions state.events with
  | nil => simp
  | cons first rest =>
      simp only
      split
      next hobserved =>
        refine iff_of_false (List.cons_ne_nil _ _) fun hall => ?_
        exact absurd hobserved (by simp [(hall first List.mem_cons_self).1])
      next hobserved =>
        rw [Bool.not_eq_true] at hobserved
        rw [List.filter_eq_nil_iff]
        constructor
        · intro hsame
          have hfirst : ∀ other ∈ first :: rest, other.toolCallId = first.toolCallId := by
            intro other hother
            rcases List.mem_cons.mp hother with rfl | hrest
            · rfl
            · have hcall := hsame other hrest
              simp only [Bool.not_eq_true', decide_eq_false_iff_not, not_not] at hcall
              exact hcall.symm
          intro action haction
          rw [hfirst action haction]
          exact ⟨hobserved, hfirst⟩
        · intro hall other hother
          have hsame := (hall first List.mem_cons_self).2 other (List.mem_cons_of_mem _ hother)
          simp [hsame]

/-- A log that ends with parallel tool calls, saved while they ran. -/
def inFlight (toolCallIds : List ToolCallID) : ConversationState where
  events := toolCallIds.map fun toolCallId => .convertible (.action
    { id := toolCallId, action := some ⟨.other, ""⟩, toolName := "tool", toolCallId,
      toolCall := Sample.toolCall toolCallId "tool", llmResponseId := "response" })
  executionStatus := .running

theorem recover_complete_iff_one_call :
    ConversationState.getUnmatchedActions (recover Sample.ids {} (inFlight ["a"])).events = [] :=
  (recover_complete_iff Sample.ids {} (inFlight ["a"]) rfl).mpr (by decide)

/-- The second of two parallel calls stays pending. -/
theorem recover_not_complete_two_calls :
    ∃ state : ConversationState, state.executionStatus = .running ∧
      ConversationState.getUnmatchedActions (recover Sample.ids {} state).events ≠ [] :=
  ⟨inFlight ["a", "b"], rfl, by decide⟩

end EventService

end ShuttleFlow
