import ShuttleFlow.Conversation.PairedMessages
import ShuttleFlow.View.Replay

/-! # The manipulation indices of the views of a run

Whatever a condenser asks for, the scan for manipulation indices raises no error in a run, and no
cut at these indices leaves an executable call of a response without a later call of it.
-/

namespace ShuttleFlow

open scoped List

/-! ## Splits -/

section Splits

variable {α : Type} {first second before after : List α} {early item late : α}

/-- A place in two lists in a row lies in one of them. -/
theorem split_append (hsplit : first ++ second = before ++ item :: after) :
    (∃ rest, first = before ++ item :: rest ∧ after = rest ++ second) ∨
      ∃ middle, before = first ++ middle ∧ second = middle ++ item :: after := by
  rcases List.append_eq_append_iff.mp hsplit with ⟨middle, hbefore, hsecond⟩ | ⟨rest, hfirst, hrest⟩
  · exact .inr ⟨middle, hbefore, hsecond⟩
  · cases rest with
    | nil => exact .inr ⟨[], by simpa using hfirst.symm, hrest.symm⟩
    | cons head rest =>
        obtain ⟨rfl, rfl⟩ := List.cons.inj hrest
        exact .inl ⟨rest, hfirst, rfl⟩

theorem split_of_sublist (hsub : [early, item, late] <+ first) :
    ∃ before after, first = before ++ item :: after ∧ early ∈ before ∧ late ∈ after := by
  obtain ⟨left, right, rfl, hearly, hright⟩ := List.cons_sublist_iff.mp hsub
  obtain ⟨middle, last, rfl, hitem, hlate⟩ := List.cons_sublist_iff.mp hright
  obtain ⟨before, after, rfl⟩ := List.append_of_mem hitem
  refine ⟨left ++ before, after ++ last, by simp, List.mem_append_left _ hearly, ?_⟩
  exact List.mem_append_right _ (List.singleton_sublist.mp hlate)

end Splits

/-! ## Observations -/

section Turns

variable {ids : IdSource} {before after : ConversationState} {operation : Operation}
variable {calls : List CallPiece} {answers : List AnswerPiece} {trailing : List Event}
variable {earlier later middle : List Event} {observation : ObservationBaseEvent}

theorem loggedActions_of_split {item : Event} {events : List Event}
    (hsplit : events = earlier ++ item :: later) {action : ActionEvent}
    (haction : action ∈ loggedActions earlier ∨ action ∈ loggedActions later) :
    action ∈ loggedActions events := by
  rw [hsplit, ← List.singleton_append, loggedActions_append, loggedActions_append]
  rcases haction with haction | haction
  · exact List.mem_append_left _ haction
  · exact List.mem_append_right _ (List.mem_append_right _ haction)

/-- Among calls stand the errors of those that fail, each behind its action. -/
theorem CallPiece.LogsAll.observation_failed {env : Environment} {llmResponseId : EventID}
    {header : Agent.Header} {toolCalls : List MessageToolCall}
    (hlogs : CallPiece.LogsAll env llmResponseId header toolCalls calls)
    (hsplit : calls.flatMap CallPiece.events =
      middle ++ .convertible (.observation observation) :: later) :
    ∃ action ∈ loggedActions middle, action.toolCallId = observation.toolCallId ∧
      action.action = none := by
  induction hlogs generalizing middle with
  | nil header => simp at hsplit
  | @cons header toolCall rest piece pieces hpiece _ ih =>
      rw [List.flatMap_cons] at hsplit
      rcases split_append hsplit with ⟨left, hevents, -⟩ | ⟨behind, rfl, hrest⟩
      · cases piece with
        | valid hookIds action =>
            -- a valid call logs no observation yet
            have hmem : .convertible (.observation observation) ∈
                (CallPiece.valid hookIds action).events := by
              rw [hevents]
              simp
            simp [CallPiece.events, hookEvents] at hmem
        | invalid action error =>
            obtain ⟨_, _, _, _, -, haction, rfl⟩ := hpiece
            -- of the two events the error is the second
            rcases List.cons_eq_append_iff.mp hevents with ⟨-, hhead⟩ | ⟨tail, rfl, htail⟩
            · cases hhead
            · rcases List.cons_eq_append_iff.mp htail with ⟨rfl, hhead⟩ | ⟨_, -, hnil⟩
              · cases hhead
                exact ⟨action, List.mem_singleton_self _, by rw [haction]; rfl, by rw [haction]⟩
              · simp at hnil
      · obtain ⟨action, haction, hcall⟩ := ih hrest
        exact ⟨action, by simp [haction], hcall⟩

/-- Where an observation is logged: a turn adds it behind a call that fails, or when all calls are
logged. -/
theorem Turn.observation_cases (hturn : Turn ids before after operation calls answers trailing)
    (hsplit : after.events = earlier ++ .convertible (.observation observation) :: later) :
    (∃ left, before.events = earlier ++ .convertible (.observation observation) :: left ∧
      later = left ++ turnEvents calls answers trailing) ∨
    ∃ action ∈ loggedActions earlier, action.toolCallId = observation.toolCallId ∧
      (action.action = none ∨ loggedActions later = []) := by
  have hpassive : .convertible (.observation observation) ∉ trailing := by
    intro hmem
    rcases hturn.trails with hpassive | ⟨-, -, _, _, _, passive, -, -, -, rfl, hpassive⟩
    · exact Bool.noConfusion (hpassive _ hmem)
    · exact Bool.noConfusion (hpassive _ ((List.mem_cons.mp hmem).resolve_left Event.noConfusion))
  have hlogged := hturn.loggedActions_eq
  have hevents := hturn.events_eq
  rw [hsplit] at hevents
  rcases split_append hevents.symm with hold | ⟨middle, rfl, hnew⟩
  · exact .inl hold
  rw [turnEvents, List.append_assoc] at hnew
  rw [hturn.events_eq, turnEvents, List.append_assoc, loggedActions_append,
    List.append_cancel_left_eq, loggedActions_append, loggedActions_calls,
    List.append_right_eq_self] at hlogged
  rw [loggedActions_append]
  rcases split_append hnew with ⟨left, hcalls, -⟩ | ⟨answered, rfl, hanswers⟩
  · rcases hturn.called with rfl | ⟨-, env, response, -, -, hlogs⟩
    · simp at hcalls
    · obtain ⟨action, haction, hid, hnone⟩ := hlogs.observation_failed hcalls
      exact .inr ⟨action, List.mem_append_right _ haction, hid, .inl hnone⟩
  -- among the answers: the calls are logged before, and no action comes behind
  · have hmem : .convertible (.observation observation) ∈
        answers.flatMap AnswerPiece.events ++ trailing := by
      rw [hanswers]
      simp
    obtain ⟨piece, hpiece, hmem⟩ :=
      List.mem_flatMap.mp ((List.mem_append.mp hmem).resolve_right hpassive)
    have hnone : loggedActions later = [] := by
      refine List.eq_nil_iff_forall_not_mem.mpr fun other hother => ?_
      have hlater := loggedActions_of_split hanswers (.inr hother)
      rw [hlogged] at hlater
      cases hlater
    refine .inr ⟨piece.action, ?_, ?_, .inr hnone⟩
    · have hcalled := ((getUnmatchedActions_sublist before.events).append
        (Agent.executable_sublist_action calls)).subset
          (hturn.answered.subset (List.mem_map_of_mem hpiece))
      rw [loggedActions_append, loggedActions_calls, ← List.append_assoc]
      exact List.mem_append_left _ hcalled
    · rcases List.mem_append.mp hmem with hhook | hanswer
      · exact Bool.noConfusion (hookEvents_isPassive hhook)
      · cases List.mem_singleton.mp hanswer
        exact (hturn.answering piece hpiece).toolCallId.symm

theorem LocalConversation.not_observed_initState {systemPrompt : String}
    {dynamicContext : Option String} :
    (initState ids systemPrompt dynamicContext).events ≠
      earlier ++ .convertible (.observation observation) :: later := by
  intro hsplit
  have hmem : Event.convertible (.observation observation) ∈
      (initState ids systemPrompt dynamicContext).events := by
    rw [hsplit]
    simp
  cases List.mem_singleton.mp hmem

end Turns

/-- Every observation has its call before it. -/
def CallsFirst (events : List Event) : Prop :=
  ∀ before observation after, events = before ++ .convertible (.observation observation) :: after →
    ∃ action ∈ loggedActions before, action.toolCallId = observation.toolCallId

theorem Reachable.callsFirst {ids : IdSource} {state : ConversationState}
    (hstate : Reachable ids state) : CallsFirst state.events := by
  induction hstate with
  | init systemPrompt dynamicContext =>
      exact fun _ _ _ hsplit => absurd hsplit LocalConversation.not_observed_initState
  | apply operation hbefore ih =>
      obtain ⟨calls, answers, trailing, hturn⟩ :=
        LocalConversation.apply_turn _ hbefore.consistent operation
      intro before observation after hsplit
      rcases hturn.observation_cases hsplit with ⟨left, hold, -⟩ | ⟨action, haction, hid, -⟩
      · exact ih before observation left hold
      · exact ⟨action, haction, hid⟩

theorem CallsFirst.observationsFollowActions {events : List Event} (hfirst : CallsFirst events)
    (hdistinct : DistinctCalls events) : ObservationsFollowActions events := by
  intro before observation after hsplit
  obtain ⟨action, haction, hid⟩ := hfirst before observation after hsplit
  refine ⟨action, mem_loggedActions.mp haction, hid, fun other hother hsame => ?_⟩
  exact hdistinct.eq_of_same_call (mem_loggedActions.mpr hother)
    (loggedActions_of_split hsplit (.inl haction)) (hsame.trans hid.symm)

/-- After the observation of an executable call, nothing of its response is logged. -/
def ResponsesEnd (events : List Event) : Prop :=
  ∀ before observation after, events = before ++ .convertible (.observation observation) :: after →
    ∀ action ∈ loggedActions before, action.action.isSome →
      action.toolCallId = observation.toolCallId →
      ∀ later ∈ loggedActions after, later.llmResponseId ≠ action.llmResponseId

theorem Turn.responsesEnd {ids : IdSource} {before after : ConversationState}
    {operation : Operation} {calls : List CallPiece} {answers : List AnswerPiece}
    {trailing : List Event} (hturn : Turn ids before after operation calls answers trailing)
    (hdistinct : DistinctCalls after.events)
    (hfresh : ∀ env response, operation = .step env → env.completion = .response response →
      ∀ action ∈ loggedActions before.events, action.llmResponseId ≠ response.id)
    (hends : ResponsesEnd before.events) : ResponsesEnd after.events := by
  intro earlier observation later hsplit action haction hvalid hid other hother
  have hmem := loggedActions_of_split hsplit (.inl haction)
  rcases hturn.observation_cases hsplit with ⟨left, hold, rfl⟩ | ⟨failed, hfailed, hcall, hnone⟩
  · rw [loggedActions_append, List.mem_append] at hother
    rcases hother with hother | hother
    · exact hends earlier observation left hold action haction hvalid hid other hother
    · have hlogged := hturn.loggedActions_eq
      rw [hturn.events_eq, loggedActions_append, List.append_cancel_left_eq] at hlogged
      rw [hlogged] at hother
      obtain ⟨piece, hpiece, rfl⟩ := List.mem_map.mp hother
      rcases hturn.called with rfl | ⟨-, env, response, hstep, hcompletion, hlogs⟩
      · cases hpiece
      · rw [hlogs.llmResponseId_eq piece hpiece]
        exact (hfresh env response hstep hcompletion action
          (loggedActions_of_split hold (.inl haction))).symm
  · have heq := hdistinct.eq_of_same_call (loggedActions_of_split hsplit (.inl hfailed)) hmem
      (hcall.trans hid.symm)
    rcases hnone with hnone | hnone
    -- it cannot be a failing call, since the observed call is executable
    · rw [← heq, hnone] at hvalid
      cases hvalid
    · rw [hnone] at hother
      cases hother

/-! ## Cuts -/

theorem convertibles_map_sublist (events : List Event) :
    (convertibles events).map .convertible <+ events := by
  induction events with
  | nil => exact .slnil
  | cons event events ih =>
      cases event with
      | convertible event => exact ih.cons_cons _
      | _ => exact ih.cons _

/-- A call that is not observed stays pending. -/
theorem ToolCallMatching.mem_of_pendingAfter {pending final : Finset ToolCallID}
    {events : List LLMConvertibleEvent} (hfinal : pendingAfter pending events = some final)
    {id : ToolCallID} (hid : id ∈ pending) (hnone : id ∉ observationToolCalls events) :
    id ∈ final := by
  induction events generalizing pending with
  | nil => exact Option.some.inj hfinal ▸ hid
  | cons event rest ih =>
      rw [pendingAfter_cons] at hfinal
      obtain ⟨next, hnext, hrest⟩ := Option.bind_eq_some_iff.mp hfinal
      have hlater : id ∉ observationToolCalls rest := fun hmem =>
        hnone ((observationToolCalls_sublist (List.sublist_cons_self event rest)).subset hmem)
      refine ih hrest ?_ hlater
      cases event with
      | action action => exact Option.some.inj hnext ▸ Finset.mem_insert_of_mem hid
      | observation observation =>
          rw [pendingStep] at hnext
          split at hnext
          next =>
            have hother : id ≠ observation.toolCallId := fun hsame =>
              hnone (mem_observationToolCalls.mpr ⟨_, List.mem_cons_self, hsame.symm⟩)
            exact Option.some.inj hnext ▸ Finset.mem_erase.mpr ⟨hother, hid⟩
          next => cases hnext
      | _ => exact Option.some.inj hnext ▸ hid

namespace View

variable {events : List Event} {indices : ManipulationIndices} {index : Nat}

/-- No cut separates an executable call from a later one of its response. -/
theorem separates (hdistinct : DistinctIds events) (hends : ResponsesEnd events)
    (hindices : (fromEvents events).manipulationIndices = some indices) (hindex : index ∈ indices)
    {action other : ActionEvent} (hvalid : action.action.isSome)
    (haction : .action action ∈ (fromEvents events).events.take index)
    (hother : .action other ∈ (fromEvents events).events.drop index) :
    other.llmResponseId ≠ action.llmResponseId := by
  obtain ⟨matching, hmatching, hmem⟩ := mem_manipulationIndices hindices
  have hnone := ((ToolCallMatching.manipulationIndices_eq_some hmatching _).mp
    ((hmem _).mp hindex).2.1).2
  obtain ⟨before, passed, hpassed⟩ := List.append_of_mem haction
  rw [hpassed, ToolCallMatching.pendingAfter_append] at hnone
  obtain ⟨pending, -, hnone⟩ := Option.bind_eq_some_iff.mp hnone
  rw [ToolCallMatching.pendingAfter_cons, ToolCallMatching.pendingStep, Option.bind_some] at hnone
  -- the call waits unless it is observed before the cut
  have hseen : action.toolCallId ∈ observationToolCalls passed := by
    by_contra hwaits
    exact Finset.notMem_empty action.toolCallId
      (ToolCallMatching.mem_of_pendingAfter hnone (Finset.mem_insert_self _ _) hwaits)
  obtain ⟨observation, hobservation, hid⟩ := mem_observationToolCalls.mp hseen
  have hsub : [.action action, .observation observation, .action other] <+
      (fromEvents events).events := by
    rw [← List.take_append_drop index (fromEvents events).events, hpassed]
    have hpair := (List.singleton_sublist.mpr hobservation).cons_cons (.action action)
    exact (hpair.trans (List.sublist_append_right before _)).append
      (List.singleton_sublist.mpr hother)
  have hfrom : logged (fromEvents events).events <+ convertibles events :=
    ((fromEvents_sublist hdistinct).filter _).trans (logged_appendEvents_sublist events)
  have hshown := hsub.filter fun event : LLMConvertibleEvent => !event.isSummary
  have hlog : [.action action, .observation observation, .action other] <+ convertibles events :=
    hshown.trans hfrom
  obtain ⟨earlier, later, hsplit, hearly, hlate⟩ :=
    split_of_sublist ((hlog.map Event.convertible).trans (convertibles_map_sublist events))
  exact hends earlier observation later hsplit action (mem_loggedActions.mpr hearly) hvalid
    hid.symm other (mem_loggedActions.mpr hlate)

end View

/-! ## Runs -/

namespace LocalConversation

variable {ids : IdSource} {state : ConversationState}

/-- In every run, whatever was condensed, the view of the log has manipulation indices, and no tool
call is pending at them. -/
theorem indices_of_reachable (hstate : Reachable ids state)
    (hdistinct : DistinctCalls state.events) :
    ∃ indices, (View.fromEvents state.events).manipulationIndices = some indices ∧
      ∀ index ∈ indices, index ≤ (View.fromEvents state.events).events.length ∧
        ToolCallMatching.pendingAfter ∅ ((View.fromEvents state.events).events.take index) =
          some ∅ :=
  View.fromEvents_manipulationIndices hstate.consistent.reserved.distinctIds
    (hstate.callsFirst.observationsFollowActions hdistinct)

/-- The states of the runs whose responses come under new ids. -/
inductive RunsFresh (ids : IdSource) : ConversationState → Prop
  | init (systemPrompt : String) (dynamicContext : Option String) :
      RunsFresh ids (initState ids systemPrompt dynamicContext)
  | apply {state : ConversationState} (operation : Operation)
      (hfresh : ∀ env response, operation = .step env → env.completion = .response response →
        ∀ action ∈ loggedActions state.events, action.llmResponseId ≠ response.id) :
      RunsFresh ids state → RunsFresh ids (LocalConversation.apply ids state operation)

namespace RunsFresh

theorem reachable (hruns : RunsFresh ids state) : Reachable ids state := by
  induction hruns with
  | init systemPrompt dynamicContext => exact .init systemPrompt dynamicContext
  | apply operation _ _ ih => exact .apply operation ih

theorem responsesEnd (hruns : RunsFresh ids state) (hdistinct : DistinctCalls state.events) :
    ResponsesEnd state.events := by
  induction hruns with
  | init systemPrompt dynamicContext =>
      exact fun _ _ _ hsplit => absurd hsplit not_observed_initState
  | apply operation hfresh hbefore ih =>
      obtain ⟨calls, answers, trailing, hturn⟩ :=
        apply_turn _ hbefore.reachable.consistent operation
      exact hturn.responsesEnd hdistinct hfresh (ih (hturn.distinctCalls hdistinct))

end RunsFresh

/-- In such a run, an executable call that a manipulation index cuts off takes its whole response
with it. -/
theorem cuts_apart_of_runsFresh (hruns : RunsFresh ids state)
    (hdistinct : DistinctCalls state.events) {indices : ManipulationIndices}
    (hindices : (View.fromEvents state.events).manipulationIndices = some indices)
    {index : Nat} (hindex : index ∈ indices) {action other : ActionEvent}
    (hvalid : action.action.isSome)
    (haction : .action action ∈ (View.fromEvents state.events).events.take index)
    (hother : .action other ∈ (View.fromEvents state.events).events.drop index) :
    other.llmResponseId ≠ action.llmResponseId :=
  View.separates hruns.reachable.consistent.reserved.distinctIds (hruns.responsesEnd hdistinct)
    hindices hindex hvalid haction hother

end LocalConversation

section Steps

open Sample LocalConversation

/-- A response whose first call fails. -/
def Sample.answered : ConversationState :=
  apply ids started (.step (fallible (.response
    (response "r" [toolCall "c1" "broken", toolCall "c2" "tool"]))))

def Sample.answeredTwice : ConversationState :=
  apply ids answered (.step (fallible (.response (response "q" [toolCall "c3" "tool"]))))

theorem LocalConversation.indices_of_reachable_answered :
    ∃ indices, (View.fromEvents answered.events).manipulationIndices = some indices ∧
      ∀ index ∈ indices, index ≤ (View.fromEvents answered.events).events.length ∧
        ToolCallMatching.pendingAfter ∅ ((View.fromEvents answered.events).events.take index) =
          some ∅ :=
  indices_of_reachable (.apply _ (.init "" none)) (by decide)

/-- The second call is cut off from that of the other response. -/
theorem LocalConversation.cuts_apart_of_runsFresh_answered :
    ∃ action ∈ loggedActions answered.events, ∃ other ∈ loggedActions answeredTwice.events,
      other.llmResponseId ≠ action.llmResponseId := by
  have hruns : RunsFresh ids answeredTwice := by
    refine .apply _ ?_ (.apply _ ?_ (.init "" none))
    · rintro _ _ ⟨⟩ ⟨⟩
      decide
    · rintro _ _ ⟨⟩ ⟨⟩
      decide
  have hindices : (View.fromEvents answeredTwice.events).manipulationIndices =
      some {0, 1, 3, 5, 7} := by decide
  refine ⟨(loggedActions answered.events).get ⟨1, by decide⟩, by decide,
    (loggedActions answeredTwice.events).get ⟨2, by decide⟩, by decide, ?_⟩
  have hindex : 5 ∈ ({0, 1, 3, 5, 7} : ManipulationIndices) := by decide
  exact cuts_apart_of_runsFresh hruns (by decide) hindices hindex (by decide) (by decide)
    (by decide)

/-- The failing call before it is cut off. -/
example : 3 ∈ ((View.fromEvents answered.events).manipulationIndices.getD ∅) ∧
    ((View.fromEvents answered.events).events.take 3).filterMap
      (fun event => event.asAction.map ActionEvent.llmResponseId) = ["r"] ∧
    ((View.fromEvents answered.events).events.drop 3).filterMap
      (fun event => event.asAction.map ActionEvent.llmResponseId) = ["r"] := by
  decide

end Steps

end ShuttleFlow
