import ShuttleFlow.Conversation.Answered
import ShuttleFlow.Event.Messages
import ShuttleFlow.View.Extension

/-! # Whether a response leaves well-paired messages

The error of a call that does not validate is logged right after the call, the
observations of the others come after all calls. The messages built from this
order are well paired when, after the first call that validates, only the last
call fails.
-/

namespace ShuttleFlow

open scoped List
open ToolLoopAtomicity (IsToolLoop Continues)

def Validation.isValid : Validation → Bool
  | valid _ _ _ _ => true
  | invalid _ _ => false

/-- After the first call that validates, no call fails but possibly the last one. -/
def FailuresAtEnds (env : Environment) (toolCalls : List MessageToolCall) : Prop :=
  ∀ call ∈ (toolCalls.dropWhile fun call => !(env.validate call).isValid).dropLast,
    (env.validate call).isValid = true

instance (env : Environment) (toolCalls : List MessageToolCall) :
    Decidable (FailuresAtEnds env toolCalls) :=
  inferInstanceAs (Decidable (∀ _ ∈ _, _))

/-! ## Messages of events, from any state of the scan -/

/-- The events can be converted and leave no call waiting, given the batch that
is being collected and the calls that wait for their result. -/
def PairsFrom (batch : List ActionEvent) (waiting : List ToolCallID)
    (events : List LLMConvertibleEvent) : Prop :=
  ∃ messages, messagesFrom batch events = some messages ∧ waitingAfter waiting messages = some []

theorem pairsMessages_iff_pairsFrom {events : List LLMConvertibleEvent} :
    PairsMessages events ↔ PairsFrom [] [] events := by
  simp only [PairsMessages, PairsFrom, eventsToMessages, wellPaired_iff]

namespace PairsFrom

variable {batch : List ActionEvent} {waiting : List ToolCallID}
variable {events : List LLMConvertibleEvent}

/-- An observation answers a call that waits for it. -/
theorem observation_iff {observation : ObservationBaseEvent} :
    PairsFrom [] waiting (.observation observation :: events) ↔
      observation.toolCallId ∈ waiting ∧
        PairsFrom [] (waiting.erase observation.toolCallId) events := by
  have hrole : observation.toLLMMessage.role = .tool := rfl
  have hid : observation.toLLMMessage.toolCallId = some observation.toolCallId := rfl
  unfold PairsFrom
  rw [messagesFrom_other [] rfl]
  cases hrest : messagesFrom [] events with
  | none => simp [batchMessages]
  | some messages =>
      simp only [batchMessages, LLMConvertibleEvent.toLLMMessage, Option.pure_def,
        Option.bind_eq_bind, Option.bind_some, List.nil_append, Option.some.injEq,
        exists_eq_left', waitingAfter_cons]
      by_cases hmem : observation.toolCallId ∈ waiting
      · simp [pairingStep_result hrole hid hmem, hmem]
      · simp [pairingStep, hrole, hid, hmem]

theorem action_iff {action : ActionEvent}
    (hsame : ∀ first ∈ batch.head?, action.llmResponseId = first.llmResponseId) :
    PairsFrom batch waiting (.action action :: events) ↔
      PairsFrom (batch ++ [action]) waiting events := by
  unfold PairsFrom
  cases batch with
  | nil =>
      simp only [messagesFrom, batchMessages, List.head?_nil, Option.any_none, Bool.false_eq_true,
        if_false, List.nil_append, Option.pure_def, Option.bind_eq_bind, Option.bind_some]
      cases messagesFrom [action] events <;> simp
  | cons first others =>
      have hcontinues : action.llmResponseId = first.llmResponseId := hsame first rfl
      simp [messagesFrom, hcontinues]

/-- Where no action comes next, the batch becomes a message. -/
theorem batch_iff {first : ActionEvent} {others : List ActionEvent}
    (hthoughts : ∀ action ∈ others, action.thought = [])
    (hnext : ∀ event ∈ events.head?, event.asAction = none) :
    PairsFrom (first :: others) waiting events ↔ waiting = [] ∧
      PairsFrom [] ((first :: others).map fun action => action.toolCall.id) events := by
  obtain ⟨message, hmessage, hrole, hopened⟩ :=
    @combineActionEvents_eq_some first others hthoughts
  have hother : message.role ≠ .tool := by simp [hrole]
  have hsplit := @messagesFrom_append (first :: others) [] events fun action haction => by
    cases hnext _ haction
  rw [List.nil_append, messagesFrom_nil, batchMessages, hmessage] at hsplit
  unfold PairsFrom
  rw [hsplit, ← hopened]
  cases messagesFrom [] events with
  | none => simp
  | some messages =>
      simp only [Option.map_some, Option.pure_def, Option.bind_eq_bind, Option.bind_some,
        List.cons_append, List.nil_append, Option.some.injEq, exists_eq_left', waitingAfter_cons]
      by_cases hwaiting : waiting = []
      · simp [hwaiting, pairingStep_other hother]
      · simp [hwaiting, pairingStep_early hother hwaiting]

/-- Results for all waiting calls, and nothing else. -/
theorem of_observations {observations : List ObservationBaseEvent}
    (hperm : observations.map ObservationBaseEvent.toolCallId ~ waiting) :
    PairsFrom [] waiting (observations.map .observation) := by
  induction observations generalizing waiting with
  | nil => exact ⟨[], rfl, by rw [hperm.nil_eq.symm]; rfl⟩
  | cons observation observations ih =>
      have hmem := hperm.subset List.mem_cons_self
      refine observation_iff.mpr ⟨hmem, ih ?_⟩
      exact (hperm.trans (List.perm_cons_erase hmem)).cons_inv

/-- An action must not come while calls wait for their results. -/
theorem not_of_waiting {first : ActionEvent} {others : List ActionEvent}
    (hwaiting : waiting ≠ []) : ¬PairsFrom (first :: others) waiting events := by
  have hearly : ∀ {messages : List Message} {message : Message} {others : List ActionEvent},
      combineActionEvents first others = some message →
      waitingAfter waiting (message :: messages) ≠ some [] := by
    intro messages message others hmessage hafter
    have hrole : message.role = .assistant := by
      unfold combineActionEvents at hmessage
      split at hmessage
      · obtain rfl := Option.some.inj hmessage
        rfl
      · split at hmessage
        · obtain rfl := Option.some.inj hmessage
          rfl
        · cases hmessage
    rw [waitingAfter_cons, pairingStep_early (by simp [hrole]) hwaiting] at hafter
    cases hafter
  rintro ⟨messages, hmessages, hafter⟩
  induction events generalizing others with
  | nil =>
      obtain ⟨message, hmessage, rfl⟩ := Option.map_eq_some_iff.mp hmessages
      exact hearly hmessage hafter
  | cons event events ih =>
      have hends : ∀ {later : Option (List Message)},
          (do return (← batchMessages (first :: others)) ++ (← later)) ≠ some messages := by
        intro later hsplit
        obtain ⟨batch, hbatch, hrest⟩ := Option.bind_eq_some_iff.mp hsplit
        obtain ⟨message, hmessage, rfl⟩ := Option.map_eq_some_iff.mp hbatch
        obtain ⟨rest, -, hsome⟩ := Option.bind_eq_some_iff.mp hrest
        obtain rfl := Option.some.inj hsome
        exact hearly hmessage hafter
      cases hkind : event.asAction with
      | some action =>
          obtain rfl := asAction_eq_some.mp hkind
          simp only [messagesFrom] at hmessages
          split at hmessages
          · exact ih hmessages
          · exact hends hmessages
      | none =>
          have hsplit := @messagesFrom_append (first :: others) [] (event :: events)
            fun action haction => by
              obtain rfl := Option.some.inj haction
              cases hkind
          rw [List.nil_append] at hsplit
          exact hends (hsplit.symm.trans hmessages)

end PairsFrom

/-! ## Messages of a response -/

namespace CallPiece

/-- What the model is shown of a call before anything is executed. -/
def shown : CallPiece → List LLMConvertibleEvent
  | valid _ action => [.action action]
  | invalid action error => [.action action, .observation (.agentError error)]

end CallPiece

section Response

variable {env : Environment} {llmResponseId : EventID} {header : Agent.Header}
variable {toolCalls : List MessageToolCall} {pieces : List CallPiece}

theorem CallPiece.LogsAll.llmResponseId_eq
    (hlogs : CallPiece.LogsAll env llmResponseId header toolCalls pieces) :
    ∀ piece ∈ pieces, piece.action.llmResponseId = llmResponseId := by
  refine hlogs.forall fun piece header toolCall _ hpiece => ?_
  cases piece with
  | valid hookIds action =>
      obtain ⟨_, _, _, _, _, -, rfl⟩ := hpiece
      rfl
  | invalid action error =>
      obtain ⟨_, _, _, _, -, rfl, -⟩ := hpiece
      rfl

/-- Observations of all executable actions of the pieces, and of the batch
collected before them. -/
def Observes (batch : List ActionEvent) (pieces : List CallPiece)
    (observations : List ObservationBaseEvent) : Prop :=
  observations.map ObservationBaseEvent.toolCallId =
    (batch ++ pieces.flatMap CallPiece.executable).map fun action => action.toolCall.id

/-- A call that fails ends the batch with its error. -/
theorem PairsFrom.error_iff {batch : List ActionEvent} {action : ActionEvent}
    {error : AgentErrorEvent} {events : List LLMConvertibleEvent}
    (hthoughts : ∀ other ∈ (batch ++ [action]).tail, other.thought = [])
    (herror : error.toolCallId = action.toolCall.id) :
    PairsFrom (batch ++ [action]) [] (.observation (.agentError error) :: events) ↔
      PairsFrom [] ((batch.map fun action => action.toolCall.id) ++ [action.toolCall.id]
        |>.erase action.toolCall.id) events := by
  obtain ⟨first, others, hbatch⟩ := List.exists_cons_of_ne_nil
    (show batch ++ [action] ≠ [] by simp)
  have hcalls : (batch.map fun action => action.toolCall.id) ++ [action.toolCall.id] =
      (first :: others).map fun action => action.toolCall.id := by
    rw [← hbatch, List.map_append]
    rfl
  rw [hbatch, batch_iff (by rw [hbatch] at hthoughts; exact hthoughts) (by simp [
    LLMConvertibleEvent.asAction]), observation_iff, ← hcalls]
  have hid : (ObservationBaseEvent.agentError error).toolCallId = action.toolCall.id := herror
  simp [hid]

/-- Once a call has validated, every call but the last has to. -/
theorem CallPiece.LogsAll.pairsFrom_iff {first : ActionEvent} {others : List ActionEvent}
    {observations : List ObservationBaseEvent}
    (hlogs : CallPiece.LogsAll env llmResponseId {} toolCalls pieces)
    (hfirst : first.llmResponseId = llmResponseId)
    (hthoughts : ∀ action ∈ others, action.thought = [])
    (hobserves : Observes (first :: others) pieces observations) :
    PairsFrom (first :: others) [] (pieces.flatMap CallPiece.shown ++
        observations.map .observation) ↔
      ∀ call ∈ toolCalls.dropLast, (env.validate call).isValid = true := by
  generalize hheader : ({} : Agent.Header) = header at hlogs
  induction hlogs generalizing others with
  | nil header =>
      refine iff_of_true ?_ (by simp)
      rw [List.flatMap_nil, List.nil_append, PairsFrom.batch_iff hthoughts (by
        cases observations <;> simp [LLMConvertibleEvent.asAction])]
      refine ⟨rfl, PairsFrom.of_observations ?_⟩
      rw [hobserves]
      simp
  | @cons header toolCall rest piece pieces hpiece hrest ih =>
      subst hheader
      have hresponse := (CallPiece.LogsAll.cons hpiece hrest).llmResponseId_eq piece
        List.mem_cons_self
      have hmore : ∀ action : ActionEvent, action.thought = [] →
          ∀ other ∈ others ++ [action], other.thought = [] := by
        intro action hempty other hother
        rcases List.mem_append.mp hother with hother | hother
        · exact hthoughts other hother
        · rw [List.mem_singleton.mp hother, hempty]
      cases piece with
      | valid hookIds action =>
          obtain ⟨id, toolName, arguments, validated, securityRisk, hvalidate, rfl⟩ := hpiece
          have hvalid : (env.validate toolCall).isValid = true := by rw [hvalidate]; rfl
          rw [List.flatMap_cons, CallPiece.shown, List.append_assoc, List.singleton_append,
            PairsFrom.action_iff (by simp [hfirst]), List.cons_append,
            ih (hmore _ rfl) (by simpa [Observes, CallPiece.executable] using hobserves) rfl]
          cases rest <;> simp [hvalid]
      | invalid action error =>
          obtain ⟨id, errorId, toolName, text, hvalidate, rfl, rfl⟩ := hpiece
          have hinvalid : (env.validate toolCall).isValid = false := by rw [hvalidate]; rfl
          rw [List.flatMap_cons, CallPiece.shown, List.append_assoc, List.cons_append,
            List.singleton_append, PairsFrom.action_iff (by simp [hfirst]),
            @PairsFrom.error_iff (first :: others) _ _ _ (hmore _ rfl) rfl]
          cases hrest with
          | nil header =>
              refine iff_of_true (PairsFrom.of_observations ?_) (by simp)
              have hobserved : observations.map ObservationBaseEvent.toolCallId =
                (first :: others).map fun action => action.toolCall.id := by simpa [Observes,
                  CallPiece.executable] using hobserves
              rw [hobserved]
              have hperm := (List.perm_append_singleton toolCall.id
                ((first :: others).map fun action => action.toolCall.id)).erase toolCall.id
              rw [List.erase_cons_head] at hperm
              exact hperm.symm
          | @cons _ next rest piece pieces hnext _ =>
              refine iff_of_false ?_ fun hall => ?_
              · have hwaiting : ((first :: others).map (fun action => action.toolCall.id) ++
                    [toolCall.id]).erase toolCall.id ≠ [] := by
                  refine List.ne_nil_of_length_pos ?_
                  rw [List.length_erase_of_mem (by simp)]
                  simp
                cases piece with
                | valid hookIds action =>
                    rw [List.flatMap_cons, CallPiece.shown, List.append_assoc,
                      List.singleton_append, PairsFrom.action_iff (by simp)]
                    exact PairsFrom.not_of_waiting hwaiting
                | invalid action error =>
                    rw [List.flatMap_cons, CallPiece.shown, List.append_assoc, List.cons_append,
                      PairsFrom.action_iff (by simp)]
                    exact PairsFrom.not_of_waiting hwaiting
              · rw [hall toolCall (by simp)] at hinvalid
                cases hinvalid

/-- A response leaves well-paired messages when its failures are at the ends. -/
theorem CallPiece.LogsAll.pairsMessages_iff {observations : List ObservationBaseEvent}
    (hlogs : CallPiece.LogsAll env llmResponseId header toolCalls pieces)
    (hobserves : Observes [] pieces observations) :
    PairsMessages (pieces.flatMap CallPiece.shown ++ observations.map .observation) ↔
      FailuresAtEnds env toolCalls := by
  rw [pairsMessages_iff_pairsFrom]
  induction hlogs with
  | nil header =>
      refine iff_of_true (PairsFrom.of_observations ?_) (by simp [FailuresAtEnds])
      rw [hobserves]
      rfl
  | @cons header toolCall rest piece pieces hpiece hrest ih =>
      cases piece with
      | valid hookIds action =>
          obtain ⟨id, toolName, arguments, validated, securityRisk, hvalidate, rfl⟩ := hpiece
          have hvalid : (env.validate toolCall).isValid = true := by rw [hvalidate]; rfl
          rw [List.flatMap_cons, CallPiece.shown, List.append_assoc, List.singleton_append,
            PairsFrom.action_iff (by simp), List.nil_append,
            hrest.pairsFrom_iff rfl (by simp)
              (by simpa [Observes, CallPiece.executable] using hobserves)]
          unfold FailuresAtEnds
          rw [List.dropWhile_cons_of_neg (by simp [hvalid])]
          cases rest <;> simp [hvalid]
      | invalid action error =>
          obtain ⟨id, errorId, toolName, text, hvalidate, rfl, rfl⟩ := hpiece
          have hinvalid : (env.validate toolCall).isValid = false := by rw [hvalidate]; rfl
          rw [List.flatMap_cons, CallPiece.shown, List.append_assoc, List.cons_append,
            List.singleton_append, PairsFrom.action_iff (by simp),
            @PairsFrom.error_iff [] _ _ _ (by simp) rfl]
          unfold FailuresAtEnds at ih ⊢
          rw [List.dropWhile_cons_of_pos (by simp [hinvalid]), ← ih hobserves]
          simp

/-! ## What a response adds to the log -/

theorem convertibles_calls (pieces : List CallPiece) :
    convertibles (pieces.flatMap CallPiece.events) = pieces.flatMap CallPiece.shown := by
  induction pieces with
  | nil => rfl
  | cons piece pieces ih =>
      rw [List.flatMap_cons, convertibles_append, ih, List.flatMap_cons]
      cases piece with
      | valid hookIds action =>
          rw [CallPiece.events, convertibles_append, convertibles_hookEvents]
          rfl
      | invalid action error => rfl

theorem convertibles_answers (answers : List AnswerPiece) :
    convertibles (answers.flatMap AnswerPiece.events) =
      (answers.map AnswerPiece.observation).map .observation := by
  induction answers with
  | nil => rfl
  | cons answer answers ih =>
      rw [List.flatMap_cons, convertibles_append, ih, AnswerPiece.events, convertibles_append,
        convertibles_hookEvents]
      rfl

@[simp] theorem observationToolCalls_map (observations : List ObservationBaseEvent) :
    observationToolCalls (observations.map .observation) =
      observations.map ObservationBaseEvent.toolCallId := by
  induction observations with
  | nil => rfl
  | cons observation observations ih => exact congrArg _ ih

@[simp] theorem actionToolCalls_map (observations : List ObservationBaseEvent) :
    actionToolCalls (observations.map .observation) = [] := by
  induction observations with
  | nil => rfl
  | cons observation observations ih => exact ih

theorem CallPiece.LogsAll.actionToolCalls
    (hlogs : CallPiece.LogsAll env llmResponseId header toolCalls pieces) :
    ShuttleFlow.actionToolCalls (pieces.flatMap CallPiece.shown) =
      toolCalls.map MessageToolCall.id := by
  induction hlogs with
  | nil header => rfl
  | @cons header toolCall rest piece pieces hpiece _ ih =>
      rw [List.flatMap_cons, actionToolCalls_append, ih]
      cases piece with
      | valid hookIds action =>
          obtain ⟨_, _, _, _, _, -, rfl⟩ := hpiece
          rfl
      | invalid action error =>
          obtain ⟨_, _, _, _, -, rfl, -⟩ := hpiece
          rfl

/-- Each call fails with an error, or can be executed. -/
theorem CallPiece.LogsAll.answered
    (hlogs : CallPiece.LogsAll env llmResponseId header toolCalls pieces) :
    observationToolCalls (pieces.flatMap CallPiece.shown) ++
        (pieces.flatMap CallPiece.executable).map ActionEvent.toolCallId ~
      toolCalls.map MessageToolCall.id := by
  induction hlogs with
  | nil header => exact .refl _
  | @cons header toolCall rest piece pieces hpiece _ ih =>
      rw [List.flatMap_cons, observationToolCalls_append, List.flatMap_cons, List.map_append,
        List.map_cons]
      cases piece with
      | valid hookIds action =>
          obtain ⟨_, _, _, _, _, -, rfl⟩ := hpiece
          exact List.perm_middle.trans (ih.cons _)
      | invalid action error =>
          obtain ⟨_, _, _, _, -, -, rfl⟩ := hpiece
          exact ih.cons _

end Response

theorem ObservationBaseEvent.Answers.toolCallId {action : ActionEvent}
    {observation : ObservationBaseEvent} (hanswers : observation.Answers action) :
    observation.toolCallId = action.toolCallId := by
  cases observation with
  | observation event => exact hanswers.2
  | userReject event => exact hanswers.2
  | agentError event => exact hanswers

/-- All actions of a turn belong to its response. -/
theorem CallPiece.LogsAll.turnEvents_response {env : Environment} {llmResponseId : EventID}
    {header : Agent.Header} {toolCalls : List MessageToolCall} {calls : List CallPiece}
    {answers : List AnswerPiece} {trailing : List Event}
    (hlogs : CallPiece.LogsAll env llmResponseId header toolCalls calls)
    (htrailing : convertibles trailing = []) {action : ActionEvent}
    (haction : .convertible (.action action) ∈ turnEvents calls answers trailing) :
    action.llmResponseId = llmResponseId := by
  have hmem : action ∈ calls.map CallPiece.action := by
    rw [← loggedActions_calls, ← List.append_nil (loggedActions _),
      ← loggedActions_answers answers, ← loggedActions_append]
    refine mem_loggedActions.mpr ((List.mem_append.mp haction).resolve_right fun hmem => ?_)
    have hnone := mem_convertibles.mpr hmem
    rw [htrailing] at hnone
    cases hnone
  obtain ⟨piece, hpiece, rfl⟩ := List.mem_map.mp hmem
  exact hlogs.llmResponseId_eq piece hpiece

/-- A turn with calls starts with an action or with the record of a hook. -/
theorem turnEvents_head {calls : List CallPiece} {answers : List AnswerPiece}
    {trailing : List Event} (hcalls : calls ≠ []) :
    ∃ first rest, turnEvents calls answers trailing = first :: rest ∧
      (first.loopRole = .stays → ∃ action, first = .convertible (.action action)) := by
  cases calls with
  | nil => exact absurd rfl hcalls
  | cons piece calls =>
      rw [turnEvents, List.flatMap_cons]
      cases piece with
      | valid hookIds action =>
          cases hookIds with
          | nil => exact ⟨_, _, rfl, fun _ => ⟨action, rfl⟩⟩
          | cons hookId hookIds => exact ⟨_, _, rfl, fun hstays => by cases hstays⟩
      | invalid action error => exact ⟨_, _, rfl, fun _ => ⟨action, rfl⟩⟩

/-- A turn without messages shows actions and observations only. -/
theorem turnEvents_kinds {calls : List CallPiece} {answers : List AnswerPiece}
    {trailing : List Event} (htrailing : convertibles trailing = []) :
    ∀ event ∈ convertibles (turnEvents calls answers trailing),
      (∃ action, event = .action action) ∨ ∃ observation, event = .observation observation := by
  intro event hevent
  rw [turnEvents, convertibles_append, convertibles_append, convertibles_calls,
    convertibles_answers, htrailing, List.append_nil] at hevent
  rcases List.mem_append.mp hevent with hevent | hevent
  · obtain ⟨piece, -, hevent⟩ := List.mem_flatMap.mp hevent
    cases piece with
    | valid hookIds action => exact .inl ⟨action, List.mem_singleton.mp hevent⟩
    | invalid action error =>
        rcases List.mem_cons.mp hevent with rfl | hevent
        · exact .inl ⟨action, rfl⟩
        · exact .inr ⟨_, List.mem_singleton.mp hevent⟩
  · obtain ⟨observation, -, rfl⟩ := List.mem_map.mp hevent
    exact .inr ⟨observation, rfl⟩

namespace Turn

variable {ids : IdSource} {env : Environment} {before after : ConversationState}
variable {toolCalls : List MessageToolCall} {response : LLMResponse}
variable {calls : List CallPiece} {answers : List AnswerPiece} {trailing : List Event}

/-- What a completely executed response shows of itself. -/
theorem convertibles_turnEvents (htrailing : convertibles trailing = []) :
    convertibles (turnEvents calls answers trailing) =
      calls.flatMap CallPiece.shown ++ (answers.map AnswerPiece.observation).map .observation := by
  rw [turnEvents, convertibles_append, convertibles_append, convertibles_calls,
    convertibles_answers, htrailing, List.append_nil]

theorem observed (hturn : Turn ids before after (.step env) calls answers trailing) :
    (answers.map AnswerPiece.observation).map ObservationBaseEvent.toolCallId =
      (answers.map AnswerPiece.action).map ActionEvent.toolCallId := by
  rw [List.map_map, List.map_map]
  exact List.map_congr_left fun piece hpiece => (hturn.answering piece hpiece).toolCallId

theorem observed_perm {header : Agent.Header}
    (hturn : Turn ids before after (.step env) calls answers trailing)
    (hlogs : CallPiece.LogsAll env response.id header toolCalls calls)
    (hanswered : answers.map AnswerPiece.action = calls.flatMap CallPiece.executable)
    (htrailing : convertibles trailing = []) :
    observationToolCalls (convertibles (turnEvents calls answers trailing)) ~
      toolCalls.map MessageToolCall.id := by
  rw [convertibles_turnEvents htrailing, observationToolCalls_append, observationToolCalls_map,
    hturn.observed, hanswered]
  exact hlogs.answered

/-- A completely executed response adds answered calls. -/
theorem answeredCalls {header : Agent.Header} (hbefore : Consistent ids before)
    (hturn : Turn ids before after (.step env) calls answers trailing)
    (hcalls : calls ≠ [])
    (hlogs : CallPiece.LogsAll env response.id header toolCalls calls)
    (hanswered : answers.map AnswerPiece.action = calls.flatMap CallPiece.executable)
    (htrailing : convertibles trailing = [])
    (hdistinct : (toolCalls.map MessageToolCall.id).Nodup)
    (hfresh : ∀ call ∈ toolCalls, call.id ∉ actionToolCalls (convertibles before.events) ∧
      call.id ∉ observationToolCalls (convertibles before.events))
    (hresponse : ∀ action ∈ loggedActions before.events, action.llmResponseId ≠ response.id) :
    AnsweredCalls before.events (turnEvents calls answers trailing) := by
  have hperm := hturn.observed_perm hlogs hanswered htrailing
  have hactions : actionToolCalls (convertibles (turnEvents calls answers trailing)) =
      toolCalls.map MessageToolCall.id := by
    rw [convertibles_turnEvents htrailing, actionToolCalls_append, hlogs.actionToolCalls,
      actionToolCalls_map, List.append_nil]
  refine ⟨?_, fun condensation hmem => ?_, fun action haction other hother hsame => ?_,
    fun id hid => ?_, fun id => ?_, hperm.nodup_iff.mpr hdistinct⟩
  · rw [← hturn.events_eq]
    exact (hturn.consistent hbefore).reserved.distinctIds
  · rcases List.mem_append.mp hmem with hmem | hmem
    · rcases List.mem_append.mp hmem with hmem | hmem
      · obtain ⟨piece, -, hmem⟩ := List.mem_flatMap.mp hmem
        cases piece with
        | valid hookIds action => simp [CallPiece.events, hookEvents] at hmem
        | invalid action error => simp [CallPiece.events] at hmem
      · obtain ⟨piece, -, hmem⟩ := List.mem_flatMap.mp hmem
        simp [AnswerPiece.events, hookEvents] at hmem
    · rcases hturn.trails with hpassive | ⟨hnone, -⟩
      · exact Bool.noConfusion (hpassive _ hmem)
      · exact hcalls hnone
  · rw [hlogs.turnEvents_response htrailing haction] at hsame
    exact hresponse other (mem_loggedActions.mpr hother) hsame
  · obtain ⟨call, hcall, rfl⟩ := List.mem_map.mp (hperm.subset hid)
    exact hfresh call hcall
  · rw [hactions, hperm.mem_iff]

end Turn

/-! ## Steps -/

theorem ActionBatch.truncateAtFinish_of_notMem {actions : List ActionEvent}
    (hnone : ∀ action ∈ actions, action.toolName ≠ finishToolName) :
    truncateAtFinish actions = (actions, false) := by
  have hfind : (actions.findIdx? fun action => action.toolName = finishToolName) = none := by
    simpa using hnone
  simp only [truncateAtFinish, hfind]

namespace Agent

variable {ids : IdSource} {env : Environment} {state : ConversationState} {response : LLMResponse}

/-- A response whose failures are at the ends leaves well-paired messages. Any
other one does not, unless its calls continue a tool loop that the view has lost
and are not shown. -/
theorem step_pairsMessages_iff (hstate : Consistent ids state)
    (htakes : TakesUp env state response)
    (hexecutes : Executes ids env (popBlockedUserMessage state).2 response)
    (hcalls : response.message.calls ≠ [])
    (hunfinished : ∀ call ∈ response.message.calls,
      (env.validate call).calledTool ≠ some finishToolName)
    (hdistinct : (response.message.calls.map MessageToolCall.id).Nodup)
    (hfresh : ∀ call ∈ response.message.calls,
      call.id ∉ actionToolCalls (convertibles state.events) ∧
      call.id ∉ observationToolCalls (convertibles state.events))
    (hresponse : ∀ action ∈ loggedActions state.events, action.llmResponseId ≠ response.id)
    (hpaired : PairsMessages (View.fromEvents state.events).events) :
    (FailuresAtEnds env response.message.calls →
      PairsMessages (View.fromEvents (step ids env state).events).events) ∧
    (¬View.Severed state.events →
      PairsMessages (View.fromEvents (step ids env state).events).events →
      FailuresAtEnds env response.message.calls) := by
  obtain ⟨calls, answers, trailing, hturn, hlogs, hanswered, hhidden⟩ :=
    step_executes hstate htakes hexecutes
  have htools : ∀ action ∈ calls.flatMap CallPiece.executable,
      action.toolName ≠ finishToolName := by
    intro action haction hfinish
    have hname : action.toolName ∈
        (calls.flatMap CallPiece.executable).map ActionEvent.toolName :=
      List.mem_map_of_mem haction
    rw [hlogs.calledTools, List.mem_filterMap, hfinish] at hname
    obtain ⟨call, hcall, hcalled⟩ := hname
    exact hunfinished call hcall hcalled
  rw [ActionBatch.truncateAtFinish_of_notMem htools] at hanswered hhidden
  have htrailing := hhidden hcalls rfl
  have hsome : calls ≠ [] := by
    rintro rfl
    generalize response.message.calls = toolCalls at hlogs hcalls
    cases hlogs
    exact hcalls rfl
  have hadded := hturn.answeredCalls hstate hsome hlogs hanswered htrailing hdistinct hfresh
    hresponse
  -- the messages of what is added
  have hobserves : Observes [] calls (answers.map AnswerPiece.observation) := by
    rw [Observes, hturn.observed, hanswered, List.nil_append]
    refine List.map_congr_left fun action haction => ?_
    obtain ⟨piece, hpiece, rfl⟩ :=
      List.mem_map.mp ((executable_sublist_action calls).subset haction)
    exact (hlogs.toolCall_id piece hpiece).symm
  have hnew := hlogs.pairsMessages_iff hobserves
  rw [← Turn.convertibles_turnEvents htrailing] at hnew
  have happend : PairsMessages ((View.fromEvents state.events).events ++
      convertibles (turnEvents calls answers trailing)) ↔
      FailuresAtEnds env response.message.calls := by
    rw [pairsMessages_append hpaired fun action haction earlier hearlier => ?_, hnew]
    have hlogged := mem_convertibles.mp (List.mem_of_mem_head? haction)
    have hold := mem_loggedActions.mpr (hadded.view_mem_log hearlier rfl)
    exact (hadded.responses action hlogged earlier (mem_loggedActions.mp hold)).symm
  rw [hturn.events_eq]
  by_cases hsevered : ∃ loop, IsToolLoop state.events loop ∧ loop <:+ state.events ∧
      ¬convertibles loop ⊆ (View.fromEvents state.events).events
  · refine ⟨fun hends => ?_, fun hwhole => absurd hsevered hwhole⟩
    obtain ⟨loop, hloop, hend, hlost⟩ := hsevered
    obtain ⟨first, rest, hfirst, hkind⟩ := @turnEvents_head calls answers trailing hsome
    by_cases hstays : first.loopRole = .stays
    · obtain ⟨action, rfl⟩ := hkind hstays
      have haction : .convertible (.action action) ∈ turnEvents calls answers trailing :=
        hfirst ▸ List.mem_cons_self
      rw [hadded.fromEvents_append_of_lost hloop hend hlost hfirst hstays
        (fun other hother => (hlogs.turnEvents_response htrailing haction).trans
          (hlogs.turnEvents_response htrailing hother).symm) (turnEvents_kinds htrailing)]
      exact hpaired
    · rw [hadded.fromEvents_append fun _ second _ _ hsecond hcontinues => by
        rw [hfirst, Continues.cons_iff] at hcontinues
        rcases hcontinues with ⟨-, hnone⟩ | ⟨hother, -⟩
        · exact absurd hnone hsecond
        · exact absurd hother hstays]
      exact happend.mpr hends
  · have hshown := hadded.fromEvents_append fun first second hloop hend _ _ => by
      by_contra hlost
      exact hsevered ⟨first, hloop, hend, hlost⟩
    rw [hshown]
    exact ⟨happend.mpr, fun _ => happend.mp⟩

end Agent

section Steps

open Sample

/-- Calls of the tool `broken` do not validate. -/
def Sample.fallible (completion : Completion) : Environment :=
  { environment completion with
    validate := fun toolCall =>
      if toolCall.name = "broken" then .invalid toolCall.name "not found"
      else .valid toolCall.name "" ⟨.other, ""⟩ .unknown }

/-- The last call fails. -/
theorem Agent.step_pairsMessages_iff_last :
    let answer := response "r" [toolCall "c1" "tool", toolCall "c2" "broken"]
    PairsMessages
      (View.fromEvents (Agent.step ids (fallible (.response answer)) started).events).events := by
  intro answer
  exact (Agent.step_pairsMessages_iff (Reachable.init "" none).consistent
    ⟨by decide, by decide, rfl, rfl⟩ ⟨by decide, rfl⟩ (by decide) (by decide) (by decide)
    (by decide) (by decide) (by decide)).1 (by decide)

/-- A call that fails between two others. -/
theorem Agent.step_not_pairsMessages :
    let answer := response "r"
      [toolCall "c1" "tool", toolCall "c2" "broken", toolCall "c3" "tool"]
    Reachable ids started ∧ Agent.TakesUp (fallible (.response answer)) started answer ∧
      Agent.Executes ids (fallible (.response answer)) started answer ∧
      PairsMessages (View.fromEvents started.events).events ∧
      DistinctCalls (Agent.step ids (fallible (.response answer)) started).events ∧
      ¬PairsMessages
        (View.fromEvents (Agent.step ids (fallible (.response answer)) started).events).events := by
  intro answer
  exact ⟨.init "" none, ⟨by decide, by decide, rfl, rfl⟩, ⟨by decide, rfl⟩, by decide, by decide,
    by decide⟩

end Steps

end ShuttleFlow
