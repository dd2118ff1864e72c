import ShuttleFlow.Condenser.CondensationProgress
import ShuttleFlow.Library.Segments

/-! # What a condensation leaves of a view

The events at the start stay, one range is forgotten, and what is left meets every limit that was
a reason to condense.
-/

namespace ShuttleFlow

/-- The count of two lists in a row is the sum of their counts. -/
def AddsUp {α : Type} (count : List α → Nat) : Prop :=
  ∀ first second, count (first ++ second) = count first + count second

namespace AddsUp

variable {α : Type} {count : List α → Nat}

theorem nil (hcount : AddsUp count) : count [] = 0 := by
  have htwice : count [] = count [] + count [] := hcount [] []
  omega

theorem cons (hcount : AddsUp count) (head : α) (rest : List α) :
    count (head :: rest) = count [head] + count rest :=
  hcount [head] rest

theorem le_of_sublist (hcount : AddsUp count) {part whole : List α}
    (hpart : List.Sublist part whole) : count part ≤ count whole := by
  induction hpart with
  | slnil => exact Nat.le_refl _
  | @cons part whole head _ ih =>
      rw [hcount.cons head whole]
      omega
  | @cons_cons part whole head _ ih =>
      rw [hcount.cons head part, hcount.cons head whole]
      omega

theorem filter_add (hcount : AddsUp count) (p : α → Bool) (items : List α) :
    count (items.filter p) + count (items.filter fun item => !p item) = count items := by
  induction items with
  | nil =>
      have hnil := hcount.nil
      simp [hnil]
  | cons head rest ih =>
      rw [hcount.cons head rest]
      cases hhead : p head with
      | true =>
          have hkept := hcount.cons head (rest.filter p)
          simp only [List.filter_cons, hhead, Bool.not_true, if_true, Bool.false_eq_true, if_false]
          omega
      | false =>
          have hkept := hcount.cons head (rest.filter fun item => !p item)
          simp only [List.filter_cons, hhead, Bool.not_false, if_true, Bool.false_eq_true, if_false]
          omega

end AddsUp

namespace Condensation

/-- The events that are not forgotten. -/
def survivors (condensation : Condensation) (events : List LLMConvertibleEvent) :
    List LLMConvertibleEvent :=
  events.filter fun event => event.id ∉ condensation.forgottenEventIds

/-- The summary comes between survivors. -/
theorem take_apply {condensation : Condensation} {offset count : Nat}
    (hoffset : condensation.summaryOffset = some offset) (hcount : count ≤ offset)
    {events : List LLMConvertibleEvent}
    (hlength : count ≤ (condensation.survivors events).length) :
    (condensation.apply events).take count = (condensation.survivors events).take count := by
  unfold apply
  rw [hoffset]
  cases condensation.summaryEvent? with
  | none => rfl
  | some summary =>
      change ((condensation.survivors events).take offset ++
        [LLMConvertibleEvent.condensationSummary summary] ++
          (condensation.survivors events).drop offset).take count = _
      rw [List.append_assoc, List.take_append_of_le_length, List.take_take, Nat.min_eq_left hcount]
      rw [List.length_take]
      exact Nat.le_min.mpr ⟨hcount, hlength⟩

end Condensation

/-! ## The search for the prefix to forget -/

theorem searchPrefix_above {tokens : List LLMConvertibleEvent → Nat}
    {events : List LLMConvertibleEvent} {tokenCount : Int} {left right : Nat}
    (hle : left ≤ right) (habove : tokenCount < tokens (events.take right)) :
    tokenCount < tokens (events.take (searchPrefix tokens events tokenCount left right)) := by
  induction left, right using searchPrefix.induct tokens events tokenCount with
  | case1 left right hlt mid hmid ih =>
      rw [searchPrefix, if_pos hlt, if_pos hmid]
      exact ih (by omega) hmid
  | case2 left right hlt mid hmid ih =>
      rw [searchPrefix, if_pos hlt, if_neg hmid]
      exact ih (by omega) habove
  | case3 left right hge =>
      rw [searchPrefix, if_neg hge]
      have hsame : left = right := by omega
      rw [hsame]
      exact habove

/-- What comes before the suffix to keep has more tokens than are to be removed. -/
theorem lt_tokens_before_suffix {tokens : List LLMConvertibleEvent → Nat}
    {events : List LLMConvertibleEvent} {reduction : Int} (hpos : 0 < reduction)
    (habove : reduction < tokens events) :
    ∃ count, getSuffixLengthForTokenReduction tokens events reduction = events.length - count ∧
      reduction < tokens (events.take count) := by
  unfold getSuffixLengthForTokenReduction getShortestPrefixAboveTokenCount
  by_cases hnone : events = []
  · refine ⟨0, ?_, ?_⟩
    · rw [if_pos hnone, hnone]
      rfl
    · rw [hnone] at habove ⊢
      exact habove
  · rw [if_neg hnone, if_neg (by omega), if_neg hnone, if_neg (by omega)]
    refine ⟨_, rfl, ?_⟩
    apply searchPrefix_above
    · exact List.length_pos_of_ne_nil hnone
    · rw [List.take_length]
      exact habove

/-! ## The range -/

theorem ManipulationIndices.findNext_spec {indices : ManipulationIndices} {threshold index : Nat}
    (hfind : indices.findNext threshold = some index) : index ∈ indices ∧ threshold ≤ index := by
  unfold findNext at hfind
  dsimp only at hfind
  split at hfind
  next hvalid =>
    cases hfind
    exact Finset.mem_filter.mp (Finset.min'_mem _ hvalid)
  next => cases hfind

theorem View.le_length_of_mem {view : View} {indices : ManipulationIndices}
    (hindices : view.manipulationIndices = some indices) {index : Nat} (hmem : index ∈ indices) :
    index ≤ view.events.length := by
  obtain ⟨matching, -, hiff⟩ := View.mem_manipulationIndices hindices
  exact ((hiff index).mp hmem).2.2.2

namespace LLMSummarizingCondenser

variable {condenser : LLMSummarizingCondenser} {tokenCount : TokenCount}
  {complete : List LLMConvertibleEvent → Option SummaryReply} {view : View}

/-- Every reason is met by what comes from there on. -/
theorem le_naiveEnd {tail : Nat} (hend : condenser.naiveEnd tokenCount view = some tail)
    {reason : CondensationReason}
    (hreason : reason ∈ condenser.getCondensationReasons tokenCount view) :
    (view.events.length : Int) - condenser.suffixEventsToKeep tokenCount view reason ≤ tail := by
  unfold naiveEnd at hend
  obtain ⟨least, hleast, htail⟩ := Option.map_eq_some_iff.mp hend
  have hle := (List.min?_eq_some_iff.mp hleast).2 _ (List.mem_map_of_mem hreason)
  omega

variable {plan : CondensationPlan} {start stop : Nat}

/-- Of events with ids of their own, the range is all that goes. -/
theorem survivors_eq (hids : (view.events.map LLMConvertibleEvent.id).Nodup) (hle : start ≤ stop)
    (hforgotten : plan.forgottenEventIds = viewEventIds (view.slice start stop)) (id : EventID) :
    (plan.withId id).survivors view.events = view.events.take start ++ view.events.drop stop := by
  have hsplit := Segments.take_between_drop view.events hle
  have hmem : ∀ event : LLMConvertibleEvent, event.id ∈ (plan.withId id).forgottenEventIds ↔
      ∃ other ∈ view.slice start stop, other.id = event.id := by
    intro event
    rw [CondensationPlan.withId, hforgotten]
    exact mem_viewEventIds
  change view.events.take start ++ view.slice start stop ++ view.events.drop stop =
    view.events at hsplit
  rw [← hsplit, List.map_append, List.map_append, List.nodup_append, List.nodup_append] at hids
  obtain ⟨⟨-, -, hbefore⟩, -, hafter⟩ := hids
  have hfront : (view.events.take start).filter
      (fun event => event.id ∉ (plan.withId id).forgottenEventIds) = view.events.take start := by
    apply List.filter_eq_self.mpr
    intro event hevent
    rw [decide_eq_true_eq, hmem]
    rintro ⟨other, hother, hsame⟩
    exact hbefore _ (List.mem_map_of_mem hevent) _ (List.mem_map_of_mem hother) hsame.symm
  have hrange : (view.slice start stop).filter
      (fun event => event.id ∉ (plan.withId id).forgottenEventIds) = [] := by
    apply List.filter_eq_nil_iff.mpr
    intro event hevent
    rw [decide_eq_true_eq, hmem, not_not]
    exact ⟨event, hevent, rfl⟩
  have hback : (view.events.drop stop).filter
      (fun event => event.id ∉ (plan.withId id).forgottenEventIds) = view.events.drop stop := by
    apply List.filter_eq_self.mpr
    intro event hevent
    rw [decide_eq_true_eq, hmem]
    rintro ⟨other, hother, hsame⟩
    apply hafter _ (List.mem_append_right _ (List.mem_map_of_mem hother)) _
      (List.mem_map_of_mem hevent) hsame
  unfold Condensation.survivors
  conv_lhs => rw [← hsplit]
  rw [List.filter_append, List.filter_append, hfront, hrange, hback, List.append_nil]

theorem le_of_slice_ne_nil (hsome : view.slice start stop ≠ []) : start ≤ stop := by
  by_contra hlt
  apply hsome
  apply List.drop_eq_nil_of_le
  rw [List.length_take]
  omega

theorem length_slice (hstop : stop ≤ view.events.length) :
    (view.slice start stop).length = stop - start := by
  rw [View.slice, List.length_drop, List.length_take, Nat.min_eq_left hstop]

theorem slice_sublist_forgotten (view : View) (start stop : Nat) :
    List.Sublist (view.slice start stop)
      (view.events.filter fun event => event.id ∈ viewEventIds (view.slice start stop)) := by
  have hself : (view.slice start stop).filter
      (fun event => event.id ∈ viewEventIds (view.slice start stop)) = view.slice start stop := by
    apply List.filter_eq_self.mpr
    intro event hevent
    rw [decide_eq_true_eq, mem_viewEventIds]
    exact ⟨event, hevent, rfl⟩
  have hsub : List.Sublist (view.slice start stop) view.events :=
    (List.drop_sublist _ _).trans (List.take_sublist _ _)
  have hfiltered := hsub.filter fun event => event.id ∈ viewEventIds (view.slice start stop)
  rw [hself] at hfiltered
  exact hfiltered

/-- One summary takes the place of the range at most. -/
theorem length_apply_le (hstop : stop ≤ view.events.length)
    (hforgotten : plan.forgottenEventIds = viewEventIds (view.slice start stop)) (id : EventID) :
    ((plan.withId id).apply view.events).length + (stop - start) ≤ view.events.length + 1 := by
  have hlength := length_apply (plan.withId id) view.events
  have hcount : view.events.countP (fun event => event.id ∈ (plan.withId id).forgottenEventIds) =
      view.sharing (view.slice start stop) := by
    rw [CondensationPlan.withId, hforgotten]
    rfl
  have hrange := (slice_sublist_forgotten view start stop).length_le
  rw [length_slice hstop, ← List.countP_eq_length_filter] at hrange
  change stop - start ≤ view.sharing (view.slice start stop) at hrange
  split at hlength <;> omega

theorem tokens_survivors {tokens : List LLMConvertibleEvent → Nat} (htokens : AddsUp tokens)
    (hforgotten : plan.forgottenEventIds = viewEventIds (view.slice start stop)) (id : EventID) :
    tokens ((plan.withId id).survivors view.events) + tokens (view.slice start stop) ≤
      tokens view.events := by
  have hrange := htokens.le_of_sublist (slice_sublist_forgotten view start stop)
  have hall := htokens.filter_add
    (fun event => event.id ∈ viewEventIds (view.slice start stop)) view.events
  have hkept : (plan.withId id).survivors view.events = view.events.filter
      fun event => !decide (event.id ∈ viewEventIds (view.slice start stop)) := by
    rw [Condensation.survivors, CondensationPlan.withId, hforgotten]
    simp only [decide_not]
  rw [hkept]
  omega

/-- A range that starts where the events to keep at the start end. -/
theorem take_sublist_slice {front count : Nat}
    (hcount : view.events.length - ((view.events.drop front).length - count) ≤ stop)
    (hfront : front ≤ view.events.length) :
    List.Sublist ((view.events.drop front).take count) (view.slice front stop) := by
  have hslice : view.slice front stop = (view.events.drop front).take (stop - front) := by
    rw [View.slice, List.drop_take]
  rw [List.length_drop] at hcount
  rw [hslice]
  by_cases hlong : view.events.length - front ≤ count
  · have hall : view.events.length - front ≤ stop - front := by omega
    rw [List.take_of_length_le (by rw [List.length_drop]; exact hlong),
      List.take_of_length_le (by rw [List.length_drop]; exact hall)]
  · apply List.IsPrefix.sublist
    apply List.take_prefix_take_left
    omega

theorem tokens_mem_reasons (hreason : .tokens ∈ condenser.getCondensationReasons tokenCount view) :
    condenser.exceedsTokens tokenCount view := by
  unfold getCondensationReasons at hreason
  rcases List.mem_append.mp hreason with hreason | hreason
  · rcases List.mem_append.mp hreason with hreason | hreason
    · split at hreason
      next => cases List.mem_singleton.mp hreason
      next => cases hreason
    · split at hreason
      next hexceeds => exact hexceeds
      next => cases hreason
  · split at hreason
    next => cases List.mem_singleton.mp hreason
    next => cases hreason

/-- The range holds all the tokens that are to be removed. -/
theorem lt_tokens_slice {tokens : List LLMConvertibleEvent → Nat} (htokens : AddsUp tokens)
    {maxTokens : Int} (hmax : condenser.maxTokens = some maxTokens)
    (hreason : .tokens ∈ condenser.getCondensationReasons (some tokens) view)
    (habove : (tokens view.events : Int) - maxTokens / 2 <
      tokens (view.events.drop condenser.keepFirst))
    (hforgets : condenser.ForgetsBetween (some tokens) view condenser.keepFirst stop) :
    (tokens view.events : Int) - maxTokens / 2 < tokens (view.slice condenser.keepFirst stop) := by
  have hexceeds := tokens_mem_reasons hreason
  simp only [exceedsTokens, hmax, Bool.and_eq_true, decide_eq_true_eq] at hexceeds
  obtain ⟨tail, indices, htail, hindices, hstart, hstop⟩ := hforgets
  have hmet := le_naiveEnd htail hreason
  simp only [suffixEventsToKeep, hmax] at hmet
  obtain ⟨count, hcount, hbegins⟩ := lt_tokens_before_suffix (by omega) habove
  rw [hcount] at hmet
  have htailLe := (ManipulationIndices.findNext_spec hstop).2
  have hfront := View.le_length_of_mem hindices (ManipulationIndices.findNext_spec hstart).1
  have hsub : List.Sublist ((view.events.drop condenser.keepFirst).take count)
      (view.slice condenser.keepFirst stop) := take_sublist_slice (by omega) hfront
  have hle := htokens.le_of_sublist hsub
  omega

/-- The log refuses an event with the id of an earlier one, so that the ids in a view are
distinct. -/
theorem keeps_size_and_prefix (condenser : LLMSummarizingCondenser) (tokenCount : TokenCount)
    (complete : List LLMConvertibleEvent → Option SummaryReply) (view : View)
    (plan : CondensationPlan) (id : EventID) (offset : Nat)
    (hplan : condenser.getCondensation tokenCount complete view = .ok plan)
    (hoffset : plan.summaryOffset = some offset) :
    (condenser.keepFirst ≤ offset ∧ ((view.events.map LLMConvertibleEvent.id).Nodup →
      condenser.keepFirst ≤ view.events.length ∧
      ((plan.withId id).apply view.events).take condenser.keepFirst =
        view.events.take condenser.keepFirst)) ∧
    (∃ stop indices, view.manipulationIndices = some indices ∧ offset ∈ indices ∧
      stop ∈ indices ∧ plan.forgottenEventIds = viewEventIds (view.slice offset stop) ∧
      ((view.events.map LLMConvertibleEvent.id).Nodup →
        (plan.withId id).survivors view.events =
          view.events.take offset ++ view.events.drop stop)) ∧
    (condenser.maxSize < view.events.length →
      ((plan.withId id).apply view.events).length ≤
        condenser.maxSize / 2 + (offset - condenser.keepFirst)) ∧
    ∀ (tokens : List LLMConvertibleEvent → Nat) (maxTokens : Int),
      tokenCount = some tokens → AddsUp tokens → condenser.maxTokens = some maxTokens →
      .tokens ∈ condenser.getCondensationReasons tokenCount view →
      offset = condenser.keepFirst →
      (tokens view.events : Int) - maxTokens / 2 <
        tokens (view.events.drop condenser.keepFirst) →
      (tokens ((plan.withId id).survivors view.events) : Int) < maxTokens / 2 + 1 := by
  obtain ⟨start, stop, reply, hforgets, hsome, -, hforgotten, -, hstarts⟩ :=
    getCondensation_ok hplan
  rw [hoffset] at hstarts
  obtain rfl := Option.some.inj hstarts
  obtain ⟨tail, indices, htail, hindices, hstart, hstop⟩ := hforgets
  obtain ⟨hstartMem, hkeep⟩ := ManipulationIndices.findNext_spec hstart
  obtain ⟨hstopMem, htailLe⟩ := ManipulationIndices.findNext_spec hstop
  have hstartLe := View.le_length_of_mem hindices hstartMem
  have hstopLe := View.le_length_of_mem hindices hstopMem
  have hle := le_of_slice_ne_nil hsome
  refine ⟨⟨hkeep, fun hids => ⟨hkeep.trans hstartLe, ?_⟩⟩,
    ⟨stop, indices, hindices, hstartMem, hstopMem, hforgotten, fun hids => ?_⟩, fun hlong => ?_, ?_⟩
  · have hsurvivors := survivors_eq hids hle hforgotten id
    rw [Condensation.take_apply hoffset hkeep, hsurvivors, List.take_append_of_le_length,
      List.take_take, Nat.min_eq_left hkeep]
    · rw [List.length_take]
      omega
    · rw [hsurvivors, List.length_append, List.length_take]
      omega
  · exact survivors_eq hids hle hforgotten id
  · have hreason : .events ∈ condenser.getCondensationReasons tokenCount view := by
      unfold getCondensationReasons
      rw [if_pos hlong]
      exact List.mem_append_right _ List.mem_cons_self
    have hmet := le_naiveEnd htail hreason
    simp only [suffixEventsToKeep] at hmet
    have hlength := length_apply_le hstopLe hforgotten id
    have hroom := condenser.leavesRoom
    omega
  · intro tokens maxTokens hcounts htokens hmax hreason hfront habove
    subst hcounts hfront
    have hrange := lt_tokens_slice htokens hmax hreason habove
      ⟨tail, indices, htail, hindices, hstart, hstop⟩
    have hkept := tokens_survivors htokens hforgotten id
    omega

/-! ## A view with three reasons -/

def small : LLMSummarizingCondenser :=
  { standard with
    maxSize := 6
    maxTokens := some 4
    keepFirst := 1
    maxSize_pos := by decide
    leavesRoom := by decide }

/-- An event is a token. -/
theorem keeps_size_and_prefix_chat :
    ∃ plan, small.getCondensation (some List.length) summarize chat = .ok plan ∧
      ((plan.withId "c").apply chat.events).take 1 = chat.events.take 1 ∧
      ((plan.withId "c").apply chat.events).length ≤ 3 ∧
      (((plan.withId "c").survivors chat.events).length : Int) < 3 := by
  have hcondenses : (small.getCondensation (some List.length) summarize chat).toOption.map
      CondensationPlan.summaryOffset = some (some 1) := by decide +kernel
  cases hplan : small.getCondensation (some List.length) summarize chat with
  | error error =>
      rw [hplan] at hcondenses
      cases hcondenses
  | ok plan =>
      rw [hplan] at hcondenses
      have hoffset : plan.summaryOffset = some 1 := Option.some.inj hcondenses
      obtain ⟨⟨-, hbegins⟩, -, hsize, htokens⟩ := keeps_size_and_prefix small (some List.length)
        summarize chat plan "c" 1 hplan hoffset
      refine ⟨plan, rfl, (hbegins (by decide +kernel)).2, hsize (by decide +kernel), ?_⟩
      exact htokens List.length 4 rfl (fun _ _ => List.length_append) rfl (by decide +kernel) rfl
        (by decide +kernel)

end LLMSummarizingCondenser

end ShuttleFlow
