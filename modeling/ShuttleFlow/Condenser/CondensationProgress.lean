import ShuttleFlow.Condenser.LLMSummarizingCondenser

/-! # Whether condensing makes progress

A condensation takes events out of the view and puts one summary in. It makes the view shorter when
it takes out more than one event.
-/

namespace ShuttleFlow

/-- The events of a view between two positions. -/
def View.slice (view : View) (start stop : Nat) : List LLMConvertibleEvent :=
  (view.events.take stop).drop start

/-- How many events of a view have the id of one of these. -/
def View.sharing (view : View) (forgotten : List LLMConvertibleEvent) : Nat :=
  view.events.countP fun event => event.id ∈ viewEventIds forgotten

namespace LLMSummarizingCondenser

/-- The range to forget starts with the first manipulation index that the events to keep at the
start allow, and stops with the first one where the tail begins. -/
def ForgetsBetween (condenser : LLMSummarizingCondenser) (tokenCount : TokenCount) (view : View)
    (start stop : Nat) : Prop :=
  ∃ naiveEnd indices, condenser.naiveEnd tokenCount view = some naiveEnd ∧
    view.manipulationIndices = some indices ∧
    indices.findNext condenser.keepFirst = some start ∧ indices.findNext naiveEnd = some stop

/-- The range holds more than one event, or the model has no summary to put in its place. -/
def MakesRoom (condenser : LLMSummarizingCondenser) (tokenCount : TokenCount)
    (complete : List LLMConvertibleEvent → Option SummaryReply) (view : View) : Prop :=
  ∃ start stop, condenser.ForgetsBetween tokenCount view start stop ∧
    (1 < view.sharing (view.slice start stop) ∨
      (complete (view.slice start stop)).bind SummaryReply.text = none)

variable {condenser : LLMSummarizingCondenser} {tokenCount : TokenCount}
  {complete : List LLMConvertibleEvent → Option SummaryReply} {view : View}

theorem ForgetsBetween.unique {start stop otherStart otherStop : Nat}
    (hforgets : condenser.ForgetsBetween tokenCount view start stop)
    (hother : condenser.ForgetsBetween tokenCount view otherStart otherStop) :
    start = otherStart ∧ stop = otherStop := by
  obtain ⟨naiveEnd, indices, hend, hindices, hstart, hstop⟩ := hforgets
  obtain ⟨otherEnd, otherIndices, hotherEnd, hotherIndices, hotherStart, hotherStop⟩ := hother
  rw [hend] at hotherEnd
  cases hotherEnd
  rw [hindices] at hotherIndices
  cases hotherIndices
  rw [hstart] at hotherStart
  rw [hstop] at hotherStop
  exact ⟨Option.some.inj hotherStart, Option.some.inj hotherStop⟩

theorem getForgottenEvents_ok {forgotten : List LLMConvertibleEvent} {offset : Nat}
    (hforgotten : condenser.getForgottenEvents tokenCount view = .ok (forgotten, offset)) :
    ∃ stop, condenser.ForgetsBetween tokenCount view offset stop ∧
      forgotten = view.slice offset stop := by
  unfold getForgottenEvents at hforgotten
  split at hforgotten
  next => cases hforgotten
  next => cases hforgotten
  next naiveEnd indices hend hindices =>
    split at hforgotten
    next start stop hstart hstop =>
      cases hforgotten
      exact ⟨stop, ⟨naiveEnd, indices, hend, hindices, hstart, hstop⟩, rfl⟩
    next => cases hforgotten

/-- What a condensation forgets, and what it puts in its place. -/
theorem getCondensation_ok {plan : CondensationPlan}
    (hplan : condenser.getCondensation tokenCount complete view = .ok plan) :
    ∃ start stop reply, condenser.ForgetsBetween tokenCount view start stop ∧
      view.slice start stop ≠ [] ∧ complete (view.slice start stop) = some reply ∧
      plan.forgottenEventIds = viewEventIds (view.slice start stop) ∧
      plan.summary = reply.text ∧ plan.summaryOffset = some start := by
  unfold getCondensation at hplan
  split at hplan
  next => cases hplan
  next forgotten offset hforgotten =>
    obtain ⟨stop, hforgets, rfl⟩ := getForgottenEvents_ok hforgotten
    split at hplan
    next => cases hplan
    next hsome =>
      split at hplan
      next => cases hplan
      next =>
        unfold generateCondensation at hplan
        rw [if_neg hsome] at hplan
        cases hreply : complete (view.slice offset stop) with
        | none =>
            rw [hreply] at hplan
            cases hplan
        | some reply =>
            rw [hreply] at hplan
            cases hplan
            exact ⟨offset, stop, reply, hforgets, hsome, hreply, rfl, rfl, rfl⟩

/-- An event is taken out for each id that is forgotten, and at most one put in. -/
theorem length_apply (condensation : Condensation) (events : List LLMConvertibleEvent) :
    (condensation.apply events).length +
        events.countP (fun event => event.id ∈ condensation.forgottenEventIds) =
      events.length +
        if condensation.summary.isSome ∧ condensation.summaryOffset.isSome then 1 else 0 := by
  have hsplit := events.length_eq_countP_add_countP
    (fun event => decide (event.id ∈ condensation.forgottenEventIds))
  have hkept : (events.filter fun event => event.id ∉ condensation.forgottenEventIds).length =
      events.countP fun event => !decide (event.id ∈ condensation.forgottenEventIds) := by
    rw [List.countP_eq_length_filter]
    simp
  unfold Condensation.apply Condensation.summaryEvent?
  cases hsummary : condensation.summary with
  | none =>
      simp only [Option.map_none, Option.isSome_none, Bool.false_eq_true, false_and, if_false]
      simp at hsplit hkept ⊢
      omega
  | some summary =>
      cases hoffset : condensation.summaryOffset with
      | none =>
          simp at hsplit hkept ⊢
          omega
      | some offset =>
          simp at hsplit hkept ⊢
          omega

theorem sharing_slice_pos {start stop : Nat} (hsome : view.slice start stop ≠ []) :
    0 < view.sharing (view.slice start stop) := by
  obtain ⟨event, hmem⟩ := List.exists_mem_of_ne_nil _ hsome
  apply List.countP_pos_iff.mpr
  refine ⟨event, List.mem_of_mem_take (List.mem_of_mem_drop hmem), ?_⟩
  rw [decide_eq_true_eq, mem_viewEventIds]
  exact ⟨event, hmem, rfl⟩

theorem shortens_iff {plan : CondensationPlan}
    (hplan : condenser.getCondensation tokenCount complete view = .ok plan) (id : EventID) :
    ((plan.withId id).apply view.events).length < view.events.length ↔
      condenser.MakesRoom tokenCount complete view := by
  obtain ⟨start, stop, reply, hforgets, hsome, hreply, hids, hsummary, hoffset⟩ :=
    getCondensation_ok hplan
  have hlength := length_apply (plan.withId id) view.events
  have hpos := sharing_slice_pos hsome
  have hroom : condenser.MakesRoom tokenCount complete view ↔
      1 < view.sharing (view.slice start stop) ∨ reply.text = none := by
    constructor
    · rintro ⟨otherStart, otherStop, hother, hcase⟩
      obtain ⟨rfl, rfl⟩ := hforgets.unique hother
      rw [hreply] at hcase
      exact hcase
    · intro hcase
      refine ⟨start, stop, hforgets, ?_⟩
      rw [hreply]
      exact hcase
  have hcount : view.events.countP (fun event => event.id ∈ (plan.withId id).forgottenEventIds) =
      view.sharing (view.slice start stop) := by
    unfold CondensationPlan.withId
    rw [hids]
    rfl
  rw [hcount] at hlength
  rw [hroom]
  have hplanned : (plan.withId id).summary = reply.text := hsummary
  have hoffered : (plan.withId id).summaryOffset.isSome := by
    change plan.summaryOffset.isSome
    rw [hoffset]
    rfl
  rw [hplanned] at hlength
  cases htext : reply.text with
  | none =>
      rw [htext] at hlength
      simp only [Option.isSome_none, Bool.false_eq_true, false_and, if_false] at hlength
      constructor
      · intro _
        exact .inr rfl
      · intro _
        omega
  | some text =>
      rw [htext] at hlength
      simp only [Option.isSome_some, hoffered, and_self, if_true] at hlength
      constructor
      · intro hshorter
        left
        omega
      · intro hcase
        have hmany : 1 < view.sharing (view.slice start stop) := by
          apply hcase.resolve_right
          nofun
        omega

/-! ## An agent that only condenses -/

/-- A step that condenses the view. What is in the view then is what the condensation leaves. -/
def Condenses (condenser : LLMSummarizingCondenser) (tokenCount : TokenCount)
    (complete : List LLMConvertibleEvent → Option SummaryReply) (before after : View) : Prop :=
  ∃ plan id, condenser.getCondensation tokenCount complete before = .ok plan ∧
    after.events = (plan.withId id).apply before.events

/-- So many steps in a row condense, each with room made. -/
inductive CondensesTimes (condenser : LLMSummarizingCondenser) (tokenCount : TokenCount)
    (complete : List LLMConvertibleEvent → Option SummaryReply) : Nat → View → View → Prop
  | refl (view : View) : CondensesTimes condenser tokenCount complete 0 view view
  | tail {count : Nat} {start before after : View} :
      CondensesTimes condenser tokenCount complete count start before →
      condenser.MakesRoom tokenCount complete before →
      condenser.Condenses tokenCount complete before after →
      CondensesTimes condenser tokenCount complete (count + 1) start after

theorem CondensesTimes.length_le {count : Nat} {start after : View}
    (htimes : CondensesTimes condenser tokenCount complete count start after) :
    after.events.length + count ≤ start.events.length := by
  induction htimes with
  | refl view => exact Nat.le_refl _
  | tail _ hroom hcondenses ih =>
      obtain ⟨plan, id, hplan, hafter⟩ := hcondenses
      have hshorter := (shortens_iff hplan id).mpr hroom
      rw [hafter]
      omega

/-- A condensation makes the view shorter exactly when it makes room, and no more steps in a row
can condense with room made than there are events. -/
theorem progresses_iff (condenser : LLMSummarizingCondenser) (tokenCount : TokenCount)
    (complete : List LLMConvertibleEvent → Option SummaryReply) (view : View) :
    (∀ plan id, condenser.getCondensation tokenCount complete view = .ok plan →
      (((plan.withId id).apply view.events).length < view.events.length ↔
        condenser.MakesRoom tokenCount complete view)) ∧
    ∀ count after, CondensesTimes condenser tokenCount complete count view after →
      count ≤ view.events.length := by
  refine ⟨fun plan id hplan => shortens_iff hplan id, fun count after htimes => ?_⟩
  have hlength := htimes.length_le
  omega

/-! ## Views that a condensation is requested for -/

def standard : LLMSummarizingCondenser := {}

def summarize (_ : List LLMConvertibleEvent) : Option SummaryReply :=
  some { id := "reply", text := some "summary" }

def requested (events : List LLMConvertibleEvent) : View where
  events
  unhandledCondensationRequest := true

def chat : View :=
  requested (["m1", "m2", "m3", "m4", "m5", "m6", "m7", "m8"].map Sample.message)

/-- A tool loop between two messages. -/
def loop : View :=
  requested [
    Sample.message "m1",
    .action (Sample.action "a1" "r1" "c1" (some .other) [Sample.thinkingBlock]),
    .observation (Sample.observation "o1" "c1" "a1"),
    .action (Sample.action "a2" "r2" "c2" (some .other) []),
    .observation (Sample.observation "o2" "c2" "a2"),
    Sample.message "m2"]

theorem progresses_iff_chat :
    (∃ plan, standard.getCondensation none summarize chat = .ok plan ∧
      (((plan.withId "c").apply chat.events).length < chat.events.length ↔
        standard.MakesRoom none summarize chat)) ∧
    CondensesTimes standard none summarize 0 chat chat ∧ 0 ≤ chat.events.length := by
  obtain ⟨hiff, htimes⟩ := progresses_iff standard none summarize chat
  have hcondenses : (standard.getCondensation none summarize chat).toOption.isSome := by
    decide +kernel
  cases hplan : standard.getCondensation none summarize chat with
  | error error =>
      rw [hplan] at hcondenses
      cases hcondenses
  | ok plan =>
      exact ⟨⟨plan, rfl, hiff plan "c" hplan⟩, .refl chat, htimes 0 chat (.refl chat)⟩

/-- Only the last message can be forgotten, and a summary takes its place. -/
theorem not_progresses_after_loop : ¬ ∀ (condenser : LLMSummarizingCondenser)
    (tokenCount : TokenCount) (complete : List LLMConvertibleEvent → Option SummaryReply)
    (view : View) (plan : CondensationPlan) (id : EventID),
    condenser.getCondensation tokenCount complete view = .ok plan →
    ((plan.withId id).apply view.events).length < view.events.length := by
  intro hall
  have hlength : (standard.getCondensation none summarize loop).toOption.map
      (fun plan => ((plan.withId "c").apply loop.events).length) = some 6 := by decide +kernel
  cases hplan : standard.getCondensation none summarize loop with
  | error error =>
      rw [hplan] at hlength
      cases hlength
  | ok plan =>
      have hshorter := hall standard none summarize loop plan "c" hplan
      rw [hplan] at hlength
      have hsame : ((plan.withId "c").apply loop.events).length = 6 := Option.some.inj hlength
      rw [hsame] at hshorter
      exact absurd hshorter (by decide)

end LLMSummarizingCondenser

end ShuttleFlow
