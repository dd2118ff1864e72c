import ShuttleFlow.Event.Basic
import ShuttleFlow.Llm.Pairing

/-! # From events to messages

Adjacent actions of one response become one assistant message, every other
event a message of its own.
-/

namespace ShuttleFlow

/-! ## Single events -/

/-- An individual message; it may be incomplete for batches of actions. -/
def ActionEvent.toLLMMessage (event : ActionEvent) : Message :=
  { role := .assistant, content := event.thought, toolCalls := some [event.toolCall]
    reasoningContent := event.reasoningContent, thinkingBlocks := event.thinkingBlocks
    responsesReasoningItem := event.responsesReasoningItem }

def ObservationBaseEvent.content : ObservationBaseEvent → List Content
  | observation event => event.observation.toLLMContent
  | userReject event => [.text ("Action rejected: " ++ event.rejectionReason)]
  | agentError event => [.text event.error]

def ObservationBaseEvent.toLLMMessage (event : ObservationBaseEvent) : Message :=
  { role := .tool, content := event.content, name := some event.toolName
    toolCallId := some event.toolCallId }

def LLMConvertibleEvent.toLLMMessage : LLMConvertibleEvent → Message
  | systemPrompt event =>
      { role := .system
        content := .text event.systemPrompt :: (event.dynamicContext.map .text).toList }
  | message event =>
      { event.llmMessage with content := event.llmMessage.content ++ event.extendedContent }
  | action event => event.toLLMMessage
  | observation event => event.toLLMMessage
  | condensationSummary event => { role := .user, content := [.text event.summary] }

/-! ## Batches -/

/-- Combine the actions of a response. `none` is the `AssertionError` when an
action after the first one has a thought. -/
def combineActionEvents (first : ActionEvent) (others : List ActionEvent) : Option Message :=
  match others with
  | [] => some first.toLLMMessage
  | _ =>
      if others.all fun event => event.thought = [] then
        some
          { role := .assistant, content := first.thought
            toolCalls := some ((first :: others).map ActionEvent.toolCall)
            reasoningContent := first.reasoningContent, thinkingBlocks := first.thinkingBlocks }
      else none

/-- The message of the actions collected so far, if there are any. -/
def batchMessages : List ActionEvent → Option (List Message)
  | [] => some []
  | first :: others => (combineActionEvents first others).map ([·])

/-- The loop over the events, with the batch that is being collected. -/
def messagesFrom (batch : List ActionEvent) : List LLMConvertibleEvent → Option (List Message)
  | [] => batchMessages batch
  | .action event :: rest =>
      if batch.head?.any fun first => event.llmResponseId = first.llmResponseId then
        messagesFrom (batch ++ [event]) rest
      else do return (← batchMessages batch) ++ (← messagesFrom [event] rest)
  | event :: rest => do
      return (← batchMessages batch) ++ event.toLLMMessage :: (← messagesFrom [] rest)

def eventsToMessages (events : List LLMConvertibleEvent) : Option (List Message) :=
  messagesFrom [] events

/-- The events can be converted, and the results of their tool calls are where
they have to be. -/
def PairsMessages (events : List LLMConvertibleEvent) : Prop :=
  ∃ messages, eventsToMessages events = some messages ∧ WellPaired messages

instance (events : List LLMConvertibleEvent) : Decidable (PairsMessages events) :=
  match hmessages : eventsToMessages events with
  | none => .isFalse (by simp [PairsMessages, hmessages])
  | some messages => decidable_of_iff (WellPaired messages) (by simp [PairsMessages, hmessages])

/-! ## Laws -/

theorem combineActionEvents_eq_some {first : ActionEvent} {others : List ActionEvent}
    (hthoughts : ∀ event ∈ others, event.thought = []) :
    ∃ message, combineActionEvents first others = some message ∧ message.role = .assistant ∧
      message.openedCalls = (first :: others).map fun event => event.toolCall.id := by
  unfold combineActionEvents
  split
  next => exact ⟨_, rfl, rfl, rfl⟩
  next =>
    rw [if_pos (by simpa using hthoughts)]
    exact ⟨_, rfl, rfl, by simp [Message.openedCalls, Message.calls]⟩

@[simp] theorem messagesFrom_nil (batch : List ActionEvent) :
    messagesFrom batch [] = batchMessages batch := rfl

/-- An event that is not an action ends the batch. -/
theorem messagesFrom_other (batch : List ActionEvent) {event : LLMConvertibleEvent}
    (hother : event.asAction = none) (rest : List LLMConvertibleEvent) :
    messagesFrom batch (event :: rest) = do
      return (← batchMessages batch) ++ event.toLLMMessage :: (← messagesFrom [] rest) := by
  cases event with
  | action action => cases hother
  | _ => rfl

/-- Events that do not continue the last batch are converted on their own. -/
theorem messagesFrom_append {batch : List ActionEvent} {first second : List LLMConvertibleEvent}
    (hother : ∀ action, second.head? = some (.action action) → ∀ earlier ∈ batch ++
      first.filterMap LLMConvertibleEvent.asAction,
      action.llmResponseId ≠ earlier.llmResponseId) :
    messagesFrom batch (first ++ second) = do
      return (← messagesFrom batch first) ++ (← messagesFrom [] second) := by
  induction first generalizing batch with
  | nil =>
      cases second with
      | nil => simp [messagesFrom, batchMessages]
      | cons event rest =>
          cases event with
          | action action =>
              have hnew : (batch.head?.any fun first =>
                  action.llmResponseId = first.llmResponseId) = false := by
                cases batch with
                | nil => rfl
                | cons earlier batch => simpa using hother action rfl earlier (by simp)
              simp [messagesFrom, hnew, batchMessages]
          | _ =>
              rw [List.nil_append, messagesFrom_other _ rfl, messagesFrom_other [] rfl]
              simp [batchMessages, Option.bind_assoc]
  | cons event first ih =>
      rw [List.cons_append]
      cases event with
      | action action =>
          simp only [messagesFrom]
          split
          next =>
            refine ih fun found hfound earlier hearlier => ?_
            refine hother found hfound earlier ?_
            simpa [LLMConvertibleEvent.asAction] using hearlier
          next =>
            rw [ih fun found hfound earlier hearlier => hother found hfound earlier ?_]
            · simp [Option.bind_assoc]
            · refine List.mem_append_right _ ?_
              simpa [LLMConvertibleEvent.asAction] using hearlier
      | _ =>
          rw [messagesFrom_other _ rfl, messagesFrom_other _ rfl,
            ih fun found hfound earlier hearlier => hother found hfound earlier
              (List.mem_append_right _ hearlier)]
          simp [Option.bind_assoc]

/-- Events that do not continue the last batch are paired on their own. -/
theorem pairsMessages_append {first second : List LLMConvertibleEvent}
    (hfirst : PairsMessages first)
    (hother : ∀ action, second.head? = some (.action action) →
      ∀ earlier, .action earlier ∈ first → action.llmResponseId ≠ earlier.llmResponseId) :
    PairsMessages (first ++ second) ↔ PairsMessages second := by
  obtain ⟨messages, hmessages, hpaired⟩ := hfirst
  have hsplit := @messagesFrom_append [] first second fun action haction earlier hearlier =>
    hother action haction earlier (by simpa using hearlier)
  rw [wellPaired_iff] at hpaired
  unfold PairsMessages eventsToMessages at *
  rw [hsplit, hmessages]
  cases messagesFrom [] second with
  | none => simp
  | some later => simp [wellPaired_iff, waitingAfter_append, hpaired]

end ShuttleFlow
