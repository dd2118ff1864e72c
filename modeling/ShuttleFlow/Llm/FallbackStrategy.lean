import Mathlib.Algebra.Order.Ring.Rat
import Mathlib.Data.List.Nodup

/-! # Fallback LLMs

The profiles of a strategy are loaded one at a time, when a call needs them, and what was loaded
is kept. A later call goes on behind as many profiles as have been kept.
-/

namespace ShuttleFlow

/-- An LLM that was loaded from a profile. It may have a strategy of its own. -/
structure FallbackLlm (Name Strategy : Type) where
  profile : Name
  fallbackStrategy : Option Strategy
  accumulatedCost : ℚ

/-- `FileNotFoundError` or `ValueError`. -/
inductive LoadError
  | fileNotFound
  | value

/-- What a call of an LLM costs, and its response when there is one. -/
structure LlmOutcome (Response : Type) where
  response : Option Response
  cost : ℚ

/-- What one call of `try_fallback` meets: the strategy and the cost with which the LLM of a
profile is loaded, and what the LLMs do, in the order in which they are tried. -/
structure FallbackCall (Name Strategy Response : Type) where
  load : Name → Except LoadError (Option Strategy × ℚ)
  callFn : Nat → FallbackLlm Name Strategy → LlmOutcome Response

structure FallbackStrategy (Name Strategy : Type) where
  fallbackLlms : List Name
  resolved : List (FallbackLlm Name Strategy) := []

/-- An LLM with its own strategy, and what came of calling it. -/
structure TriedLlm (Name Strategy Response : Type) where
  llm : FallbackLlm Name Strategy
  outcome : LlmOutcome Response

/-- What comes of trying LLMs: those that are kept, those that were tried, and the response
together with what it adds to the cost of the primary LLM. -/
structure FallbackOutcome (Name Strategy Response : Type) where
  resolved : List (FallbackLlm Name Strategy)
  tried : List (TriedLlm Name Strategy Response)
  result : Option (Response × ℚ)

namespace FallbackStrategy

variable {Name Strategy Response : Type}

/-- The strategy of an LLM is off while it is called. -/
def tryLlm (call : FallbackCall Name Strategy Response) (position : Nat)
    (llm : FallbackLlm Name Strategy) :
    FallbackLlm Name Strategy × LlmOutcome Response :=
  let handed := { llm with fallbackStrategy := none }
  let outcome := call.callFn position handed
  let called := { handed with accumulatedCost := handed.accumulatedCost + outcome.cost }
  ({ called with fallbackStrategy := llm.fallbackStrategy }, outcome)

/-- `metrics_diff` is what the metrics have more than before. -/
def costDiff (before after : FallbackLlm Name Strategy) : ℚ :=
  after.accumulatedCost - before.accumulatedCost

def tryResolved (call : FallbackCall Name Strategy Response) :
    Nat → List (FallbackLlm Name Strategy) → FallbackOutcome Name Strategy Response
  | _, [] => { resolved := [], tried := [], result := none }
  | position, llm :: rest =>
      let (after, outcome) := tryLlm call position llm
      match outcome.response with
      | some response =>
          { resolved := after :: rest, tried := [⟨llm, outcome⟩],
            result := some (response, costDiff llm after) }
      | none =>
          let later := tryResolved call (position + 1) rest
          { resolved := after :: later.resolved, tried := ⟨llm, outcome⟩ :: later.tried,
            result := later.result }

/-- A profile that cannot be loaded is left out. -/
def tryRemaining (call : FallbackCall Name Strategy Response) :
    Nat → List Name → FallbackOutcome Name Strategy Response
  | _, [] => { resolved := [], tried := [], result := none }
  | position, name :: rest =>
      match call.load name with
      | .error _ => tryRemaining call position rest
      | .ok (fallbackStrategy, accumulatedCost) =>
          let llm := { profile := name, fallbackStrategy, accumulatedCost }
          let (after, outcome) := tryLlm call position llm
          match outcome.response with
          | some response =>
              { resolved := [after], tried := [⟨llm, outcome⟩],
                result := some (response, costDiff llm after) }
          | none =>
              let later := tryRemaining call (position + 1) rest
              { resolved := after :: later.resolved, tried := ⟨llm, outcome⟩ :: later.tried,
                result := later.result }

/-- The LLMs that are kept are tried first, and then those of the profiles behind as many names
as there are LLMs. -/
def tryAll (strategy : FallbackStrategy Name Strategy)
    (call : FallbackCall Name Strategy Response) : FallbackOutcome Name Strategy Response :=
  let cached := tryResolved call 0 strategy.resolved
  match cached.result with
  | some _ => cached
  | none =>
      let remainingNames := strategy.fallbackLlms.drop strategy.resolved.length
      let later := tryRemaining call strategy.resolved.length remainingNames
      { resolved := cached.resolved ++ later.resolved, tried := cached.tried ++ later.tried,
        result := later.result }

/-- The strategy after a call, the response, and the cost of the primary LLM. -/
def tryFallback (strategy : FallbackStrategy Name Strategy)
    (call : FallbackCall Name Strategy Response) (primaryCost : ℚ) :
    FallbackStrategy Name Strategy × Option Response × ℚ :=
  let outcome := strategy.tryAll call
  ({ strategy with resolved := outcome.resolved }, outcome.result.map Prod.fst,
    primaryCost + (outcome.result.map Prod.snd).getD 0)

end FallbackStrategy

end ShuttleFlow

/-! ## The order of fallbacks

As long as the profiles that are kept are the first ones of the strategy, a call tries the
profiles that can be loaded, in order. A profile that cannot be loaded must not come before one
that can.
-/

namespace ShuttleFlow

variable {Name Strategy Response : Type}

/-- Whether a profile can be loaded in a call. -/
def FallbackCall.loads (call : FallbackCall Name Strategy Response) (name : Name) : Bool :=
  (call.load name).isOk

namespace FallbackStrategy

/-! ## LLMs one after the other -/

/-- LLMs were tried from a position on, each without its own strategy and all but the last one
without success. -/
structure Tries (call : FallbackCall Name Strategy Response) (position : Nat)
    (outcome : FallbackOutcome Name Strategy Response) : Prop where
  called : ∀ index tried, outcome.tried[index]? = some tried →
    tried.outcome = call.callFn (position + index) { tried.llm with fallbackStrategy := none }
  ends : (outcome.result = none ∧ ∀ tried ∈ outcome.tried, tried.outcome.response = none) ∨
    ∃ failed last response, outcome.tried = failed ++ [last] ∧
      (∀ tried ∈ failed, tried.outcome.response = none) ∧
      last.outcome.response = some response ∧ outcome.result = some (response, last.outcome.cost)
  restored : ∀ tried ∈ outcome.tried, ∃ llm ∈ outcome.resolved,
    llm.profile = tried.llm.profile ∧ llm.fallbackStrategy = tried.llm.fallbackStrategy

theorem tries_nil (call : FallbackCall Name Strategy Response) (position : Nat) :
    Tries call position { resolved := [], tried := [], result := none } where
  called index tried htried := by simp at htried
  ends := .inl ⟨rfl, fun _ htried => absurd htried List.not_mem_nil⟩
  restored _ htried := absurd htried List.not_mem_nil

theorem costDiff_tryLlm (call : FallbackCall Name Strategy Response) (position : Nat)
    (llm : FallbackLlm Name Strategy) :
    costDiff llm (tryLlm call position llm).1 = (tryLlm call position llm).2.cost := by
  simp [costDiff, tryLlm]

/-- The first success ends the tries. -/
theorem tries_success {call : FallbackCall Name Strategy Response} {position : Nat}
    {llm : FallbackLlm Name Strategy} {response : Response}
    (hsuccess : (tryLlm call position llm).2.response = some response)
    (rest : List (FallbackLlm Name Strategy)) :
    Tries call position
      { resolved := (tryLlm call position llm).1 :: rest
        tried := [⟨llm, (tryLlm call position llm).2⟩]
        result := some (response, costDiff llm (tryLlm call position llm).1) } where
  called index tried htried := by
    cases index with
    | zero =>
        rw [List.getElem?_cons_zero, Option.some.injEq] at htried
        rw [← htried]
        rfl
    | succ index => simp at htried
  ends := .inr ⟨[], ⟨llm, (tryLlm call position llm).2⟩, response, rfl,
    fun _ htried => absurd htried List.not_mem_nil, hsuccess, by rw [costDiff_tryLlm]⟩
  restored tried htried := by
    rw [List.mem_singleton.mp htried]
    exact ⟨_, List.mem_cons_self, rfl, rfl⟩

/-- After a failure the next LLM is tried. -/
theorem Tries.cons {call : FallbackCall Name Strategy Response} {position : Nat}
    {llm : FallbackLlm Name Strategy} {later : FallbackOutcome Name Strategy Response}
    (hlater : Tries call (position + 1) later)
    (hfailure : (tryLlm call position llm).2.response = none) :
    Tries call position
      { resolved := (tryLlm call position llm).1 :: later.resolved
        tried := ⟨llm, (tryLlm call position llm).2⟩ :: later.tried
        result := later.result } where
  called index tried htried := by
    cases index with
    | zero =>
        rw [List.getElem?_cons_zero, Option.some.injEq] at htried
        rw [← htried]
        rfl
    | succ index =>
        rw [List.getElem?_cons_succ] at htried
        rw [hlater.called index tried htried, Nat.add_right_comm, Nat.add_assoc]
  ends := by
    rcases hlater.ends with
      ⟨hnone, hfailed⟩ | ⟨failed, last, response, htried, hfailed, hlast, hresult⟩
    · refine .inl ⟨hnone, fun tried htried => ?_⟩
      rcases List.mem_cons.mp htried with rfl | hrest
      · exact hfailure
      · exact hfailed tried hrest
    · refine .inr ⟨⟨llm, (tryLlm call position llm).2⟩ :: failed, last, response, ?_, ?_, hlast,
        hresult⟩
      · rw [htried, List.cons_append]
      · intro tried htried
        rcases List.mem_cons.mp htried with rfl | hrest
        · exact hfailure
        · exact hfailed tried hrest
  restored tried htried := by
    rcases List.mem_cons.mp htried with rfl | hrest
    · exact ⟨_, List.mem_cons_self, rfl, rfl⟩
    · obtain ⟨found, hfound, hsame⟩ := hlater.restored tried hrest
      exact ⟨found, List.mem_cons_of_mem _ hfound, hsame⟩

/-- Tries without success, and others behind them. -/
theorem Tries.append {call : FallbackCall Name Strategy Response} {position : Nat}
    {first later : FallbackOutcome Name Strategy Response} (hfirst : Tries call position first)
    (hnone : first.result = none) (hlater : Tries call (position + first.tried.length) later) :
    Tries call position
      { resolved := first.resolved ++ later.resolved, tried := first.tried ++ later.tried,
        result := later.result } where
  called index tried htried := by
    rcases Nat.lt_or_ge index first.tried.length with hlt | hge
    · rw [List.getElem?_append_left hlt] at htried
      exact hfirst.called index tried htried
    · rw [List.getElem?_append_right hge] at htried
      rw [hlater.called _ tried htried,
        show position + first.tried.length + (index - first.tried.length) = position + index by
          omega]
  ends := by
    have hfailures : ∀ tried ∈ first.tried, tried.outcome.response = none := by
      rcases hfirst.ends with ⟨-, hfailed⟩ | ⟨_, _, _, _, _, _, hresult⟩
      · exact hfailed
      · rw [hnone] at hresult
        cases hresult
    have hboth : ∀ others : List (TriedLlm Name Strategy Response),
        (∀ tried ∈ others, tried.outcome.response = none) →
          ∀ tried ∈ first.tried ++ others, tried.outcome.response = none := by
      intro others hothers tried htried
      exact (List.mem_append.mp htried).elim (hfailures tried) (hothers tried)
    rcases hlater.ends with
      ⟨hresult, hfailed⟩ | ⟨failed, last, response, htried, hfailed, hlast, hresult⟩
    · exact .inl ⟨hresult, hboth _ hfailed⟩
    · refine .inr ⟨first.tried ++ failed, last, response, ?_, hboth _ hfailed, hlast, hresult⟩
      rw [htried, List.append_assoc]
  restored tried htried := by
    rcases List.mem_append.mp htried with htried | htried
    · obtain ⟨llm, hllm, hsame⟩ := hfirst.restored tried htried
      exact ⟨llm, List.mem_append_left _ hllm, hsame⟩
    · obtain ⟨llm, hllm, hsame⟩ := hlater.restored tried htried
      exact ⟨llm, List.mem_append_right _ hllm, hsame⟩

/-! ## The LLMs that are kept -/

theorem tryResolved_cons_of_success {call : FallbackCall Name Strategy Response} {position : Nat}
    {llm : FallbackLlm Name Strategy} {response : Response}
    (hsuccess : (tryLlm call position llm).2.response = some response)
    (rest : List (FallbackLlm Name Strategy)) :
    tryResolved call position (llm :: rest) =
      { resolved := (tryLlm call position llm).1 :: rest
        tried := [⟨llm, (tryLlm call position llm).2⟩]
        result := some (response, costDiff llm (tryLlm call position llm).1) } := by
  rw [tryResolved]
  simp only [hsuccess]

theorem tryResolved_cons_of_failure {call : FallbackCall Name Strategy Response} {position : Nat}
    {llm : FallbackLlm Name Strategy} (hfailure : (tryLlm call position llm).2.response = none)
    (rest : List (FallbackLlm Name Strategy)) :
    tryResolved call position (llm :: rest) =
      { resolved := (tryLlm call position llm).1 :: (tryResolved call (position + 1) rest).resolved
        tried := ⟨llm, (tryLlm call position llm).2⟩ :: (tryResolved call (position + 1) rest).tried
        result := (tryResolved call (position + 1) rest).result } := by
  rw [tryResolved]
  simp only [hfailure]

theorem tries_tryResolved (call : FallbackCall Name Strategy Response) (position : Nat)
    (llms : List (FallbackLlm Name Strategy)) :
    Tries call position (tryResolved call position llms) := by
  induction llms generalizing position with
  | nil => exact tries_nil call position
  | cons llm rest ih =>
      cases hresponse : (tryLlm call position llm).2.response with
      | some response =>
          rw [tryResolved_cons_of_success hresponse]
          exact tries_success hresponse rest
      | none =>
          rw [tryResolved_cons_of_failure hresponse]
          exact (ih (position + 1)).cons hresponse

/-- The LLMs that are kept stay, and are tried from the first one on. -/
theorem tryResolved_order (call : FallbackCall Name Strategy Response) (position : Nat)
    (llms : List (FallbackLlm Name Strategy)) :
    (tryResolved call position llms).resolved.map FallbackLlm.profile =
        llms.map FallbackLlm.profile ∧
      (tryResolved call position llms).tried.map TriedLlm.llm <+: llms ∧
      ((tryResolved call position llms).result = none →
        (tryResolved call position llms).tried.map TriedLlm.llm = llms) := by
  induction llms generalizing position with
  | nil => exact ⟨rfl, List.prefix_rfl, fun _ => rfl⟩
  | cons llm rest ih =>
      cases hresponse : (tryLlm call position llm).2.response with
      | some response =>
          rw [tryResolved_cons_of_success hresponse]
          refine ⟨rfl, ?_, fun hnone => ?_⟩
          · exact List.cons_prefix_cons.mpr ⟨rfl, List.nil_prefix⟩
          · cases hnone
      | none =>
          rw [tryResolved_cons_of_failure hresponse]
          obtain ⟨hkept, hbegins, hall⟩ := ih (position + 1)
          refine ⟨congrArg (llm.profile :: ·) hkept, ?_, fun hnone => ?_⟩
          · exact List.cons_prefix_cons.mpr ⟨rfl, hbegins⟩
          · exact congrArg (llm :: ·) (hall hnone)

/-! ## The profiles that are loaded -/

/-- The LLM of a profile when it is loaded. -/
def loadedLlm (name : Name) (loaded : Option Strategy × ℚ) : FallbackLlm Name Strategy where
  profile := name
  fallbackStrategy := loaded.1
  accumulatedCost := loaded.2

theorem tryRemaining_cons_of_error {call : FallbackCall Name Strategy Response} {name : Name}
    {error : LoadError} (hload : call.load name = .error error) (position : Nat)
    (rest : List Name) :
    tryRemaining call position (name :: rest) = tryRemaining call position rest := by
  rw [tryRemaining, hload]

theorem tryRemaining_cons_of_success {call : FallbackCall Name Strategy Response} {name : Name}
    {loaded : Option Strategy × ℚ} (hload : call.load name = .ok loaded) {position : Nat}
    {response : Response}
    (hsuccess : (tryLlm call position (loadedLlm name loaded)).2.response = some response)
    (rest : List Name) :
    tryRemaining call position (name :: rest) =
      { resolved := [(tryLlm call position (loadedLlm name loaded)).1]
        tried := [⟨loadedLlm name loaded, (tryLlm call position (loadedLlm name loaded)).2⟩]
        result := some (response, costDiff (loadedLlm name loaded)
          (tryLlm call position (loadedLlm name loaded)).1) } := by
  unfold loadedLlm at hsuccess
  rw [tryRemaining, hload]
  simp only [hsuccess]
  rfl

theorem tryRemaining_cons_of_failure {call : FallbackCall Name Strategy Response} {name : Name}
    {loaded : Option Strategy × ℚ} (hload : call.load name = .ok loaded) {position : Nat}
    (hfailure : (tryLlm call position (loadedLlm name loaded)).2.response = none)
    (rest : List Name) :
    tryRemaining call position (name :: rest) =
      { resolved := (tryLlm call position (loadedLlm name loaded)).1 ::
          (tryRemaining call (position + 1) rest).resolved
        tried := ⟨loadedLlm name loaded, (tryLlm call position (loadedLlm name loaded)).2⟩ ::
          (tryRemaining call (position + 1) rest).tried
        result := (tryRemaining call (position + 1) rest).result } := by
  unfold loadedLlm at hfailure
  rw [tryRemaining, hload]
  simp only [hfailure]
  rfl

theorem tries_tryRemaining (call : FallbackCall Name Strategy Response) (position : Nat)
    (names : List Name) : Tries call position (tryRemaining call position names) := by
  induction names generalizing position with
  | nil => exact tries_nil call position
  | cons name rest ih =>
      cases hload : call.load name with
      | error error =>
          rw [tryRemaining_cons_of_error hload]
          exact ih position
      | ok loaded =>
          cases hresponse : (tryLlm call position (loadedLlm name loaded)).2.response with
          | some response =>
              rw [tryRemaining_cons_of_success hload hresponse]
              exact tries_success hresponse []
          | none =>
              rw [tryRemaining_cons_of_failure hload hresponse]
              exact (ih (position + 1)).cons hresponse

/-- The profiles that can be loaded are tried in order, and kept. -/
theorem tryRemaining_order (call : FallbackCall Name Strategy Response) (position : Nat)
    (names : List Name) :
    (tryRemaining call position names).resolved.map FallbackLlm.profile =
        (tryRemaining call position names).tried.map (·.llm.profile) ∧
      (tryRemaining call position names).tried.map (·.llm.profile) <+: names.filter call.loads ∧
      ((tryRemaining call position names).result = none →
        (tryRemaining call position names).tried.map (·.llm.profile) =
          names.filter call.loads) := by
  induction names generalizing position with
  | nil => exact ⟨rfl, List.prefix_rfl, fun _ => rfl⟩
  | cons name rest ih =>
      cases hload : call.load name with
      | error error =>
          have hloads : ¬call.loads name = true := by simp [FallbackCall.loads, hload, Except.isOk,
            Except.toBool]
          rw [tryRemaining_cons_of_error hload, List.filter_cons_of_neg hloads]
          exact ih position
      | ok loaded =>
          have hloads : call.loads name = true := by simp [FallbackCall.loads, hload, Except.isOk,
            Except.toBool]
          rw [List.filter_cons_of_pos hloads]
          cases hresponse : (tryLlm call position (loadedLlm name loaded)).2.response with
          | some response =>
              rw [tryRemaining_cons_of_success hload hresponse]
              refine ⟨rfl, ?_, fun hnone => ?_⟩
              · exact List.cons_prefix_cons.mpr ⟨rfl, List.nil_prefix⟩
              · cases hnone
          | none =>
              rw [tryRemaining_cons_of_failure hload hresponse]
              obtain ⟨hkept, hbegins, hall⟩ := ih (position + 1)
              refine ⟨congrArg (name :: ·) hkept, ?_, fun hnone => ?_⟩
              · exact List.cons_prefix_cons.mpr ⟨rfl, hbegins⟩
              · exact congrArg (name :: ·) (hall hnone)

/-- Each LLM that is loaded is the one of its profile. -/
theorem tryRemaining_loaded (call : FallbackCall Name Strategy Response) (position : Nat)
    (names : List Name) :
    ∀ tried ∈ (tryRemaining call position names).tried, ∃ loaded,
      call.load tried.llm.profile = .ok loaded ∧
        tried.llm = loadedLlm tried.llm.profile loaded := by
  induction names generalizing position with
  | nil => exact fun _ htried => absurd htried List.not_mem_nil
  | cons name rest ih =>
      cases hload : call.load name with
      | error error =>
          rw [tryRemaining_cons_of_error hload]
          exact ih position
      | ok loaded =>
          cases hresponse : (tryLlm call position (loadedLlm name loaded)).2.response with
          | some response =>
              rw [tryRemaining_cons_of_success hload hresponse]
              intro tried htried
              rw [List.mem_singleton.mp htried]
              exact ⟨loaded, hload, rfl⟩
          | none =>
              rw [tryRemaining_cons_of_failure hload hresponse]
              intro tried htried
              rcases List.mem_cons.mp htried with rfl | hrest
              · exact ⟨loaded, hload, rfl⟩
              · exact ih (position + 1) tried hrest

/-! ## Whole calls -/

/-- The profiles of the LLMs that are kept or can be loaded, in the order of the strategy. -/
def available [DecidableEq Name] (strategy : FallbackStrategy Name Strategy)
    (call : FallbackCall Name Strategy Response) : List Name :=
  strategy.fallbackLlms.filter fun name =>
    decide (name ∈ strategy.resolved.map FallbackLlm.profile) || call.loads name

/-- What a call should do. -/
structure RightCall [DecidableEq Name] (strategy : FallbackStrategy Name Strategy)
    (call : FallbackCall Name Strategy Response) (primaryCost : ℚ) : Prop where
  tries : Tries call 0 (strategy.tryAll call)
  own : ∀ tried ∈ (strategy.tryAll call).tried, tried.llm ∈ strategy.resolved ∨
    ∃ loaded, call.load tried.llm.profile = .ok loaded ∧
      tried.llm = loadedLlm tried.llm.profile loaded
  order : (strategy.tryAll call).tried.map (·.llm.profile) <+: strategy.available call
  all : (strategy.tryFallback call primaryCost).2.1 = none →
    (strategy.tryAll call).tried.map (·.llm.profile) = strategy.available call
  once : ((strategy.tryAll call).tried.map (·.llm.profile)).Nodup
  response : ∀ response, (strategy.tryFallback call primaryCost).2.1 = some response →
    ∃ last, (strategy.tryAll call).tried.getLast? = some last ∧
      last.outcome.response = some response ∧
      (strategy.tryFallback call primaryCost).2.2 = primaryCost + last.outcome.cost
  failure : (strategy.tryFallback call primaryCost).2.1 = none →
    (strategy.tryFallback call primaryCost).2.2 = primaryCost

/-- Of the profiles from a position on, those that can be loaded come first, up to the first one
whose LLM responds. -/
def LoadsInOrder (call : FallbackCall Name Strategy Response) : Nat → List Name → Prop
  | _, [] => True
  | position, name :: rest =>
      match call.load name with
      | .error _ => ∀ other ∈ rest, call.loads other = false
      | .ok loaded =>
          (tryLlm call position (loadedLlm name loaded)).2.response.isSome ∨
            LoadsInOrder call (position + 1) rest

/-- An LLM that is kept responds, or no profile is loaded in front of which another one could not
be loaded. -/
def KeepsOrder (strategy : FallbackStrategy Name Strategy)
    (call : FallbackCall Name Strategy Response) : Prop :=
  (∃ position llm, strategy.resolved[position]? = some llm ∧
    (tryLlm call position llm).2.response.isSome) ∨
  LoadsInOrder call strategy.resolved.length
    (strategy.fallbackLlms.drop strategy.resolved.length)

/-- The profiles that are kept are the first ones. -/
structure Ordered (strategy : FallbackStrategy Name Strategy) : Prop where
  distinct : strategy.fallbackLlms.Nodup
  kept : strategy.resolved.map FallbackLlm.profile <+: strategy.fallbackLlms

theorem Ordered.take {strategy : FallbackStrategy Name Strategy} (hordered : Ordered strategy) :
    strategy.resolved.map FallbackLlm.profile =
      strategy.fallbackLlms.take strategy.resolved.length := by
  have htake := List.prefix_iff_eq_take.mp hordered.kept
  rw [List.length_map] at htake
  exact htake

theorem Ordered.available_eq [DecidableEq Name] {strategy : FallbackStrategy Name Strategy}
    (hordered : Ordered strategy) (call : FallbackCall Name Strategy Response) :
    strategy.available call = strategy.resolved.map FallbackLlm.profile ++
      (strategy.fallbackLlms.drop strategy.resolved.length).filter call.loads := by
  obtain ⟨rest, hrest⟩ := hordered.kept
  have hdrop : strategy.fallbackLlms.drop strategy.resolved.length = rest := by
    rw [← hrest]
    exact List.drop_left' (List.length_map _)
  have hnodup := hordered.distinct
  rw [← hrest, List.nodup_append] at hnodup
  rw [hdrop, available]
  conv_lhs => rw [← hrest]
  rw [List.filter_append]
  congr 1
  · apply List.filter_eq_self.mpr
    intro name hname
    simp only [hname, decide_true, Bool.true_or]
  · apply List.filter_congr
    intro name hname
    have hnew : name ∉ strategy.resolved.map FallbackLlm.profile := fun hold =>
      hnodup.2.2 name hold name hname rfl
    simp only [hnew, decide_false, Bool.false_or]

theorem tryAll_of_some {strategy : FallbackStrategy Name Strategy}
    {call : FallbackCall Name Strategy Response} {result : Response × ℚ}
    (hresult : (tryResolved call 0 strategy.resolved).result = some result) :
    strategy.tryAll call = tryResolved call 0 strategy.resolved := by
  rw [tryAll]
  simp only [hresult]

theorem tryAll_of_none {strategy : FallbackStrategy Name Strategy}
    {call : FallbackCall Name Strategy Response}
    (hresult : (tryResolved call 0 strategy.resolved).result = none) :
    strategy.tryAll call =
      let cached := tryResolved call 0 strategy.resolved
      let later := tryRemaining call strategy.resolved.length
        (strategy.fallbackLlms.drop strategy.resolved.length)
      { resolved := cached.resolved ++ later.resolved, tried := cached.tried ++ later.tried,
        result := later.result } := by
  rw [tryAll]
  simp only [hresult]

theorem tries_tryAll (strategy : FallbackStrategy Name Strategy)
    (call : FallbackCall Name Strategy Response) : Tries call 0 (strategy.tryAll call) := by
  have hcached := tries_tryResolved call 0 strategy.resolved
  cases hresult : (tryResolved call 0 strategy.resolved).result with
  | some result =>
      rw [tryAll_of_some hresult]
      exact hcached
  | none =>
      rw [tryAll_of_none hresult]
      refine hcached.append hresult ?_
      have hall := (tryResolved_order call 0 strategy.resolved).2.2 hresult
      have hlength : (tryResolved call 0 strategy.resolved).tried.length =
          strategy.resolved.length := by
        rw [← List.length_map TriedLlm.llm, hall]
      rw [hlength, Nat.zero_add]
      exact tries_tryRemaining call _ _

/-- Each LLM that is tried was kept, or is loaded from its profile. -/
theorem tryAll_own (strategy : FallbackStrategy Name Strategy)
    (call : FallbackCall Name Strategy Response) :
    ∀ tried ∈ (strategy.tryAll call).tried, tried.llm ∈ strategy.resolved ∨
      ∃ loaded, call.load tried.llm.profile = .ok loaded ∧
        tried.llm = loadedLlm tried.llm.profile loaded := by
  intro tried htried
  have hkept : tried ∈ (tryResolved call 0 strategy.resolved).tried →
      tried.llm ∈ strategy.resolved := fun hmem =>
    (tryResolved_order call 0 strategy.resolved).2.1.subset (List.mem_map_of_mem hmem)
  cases hresult : (tryResolved call 0 strategy.resolved).result with
  | some result =>
      rw [tryAll_of_some hresult] at htried
      exact .inl (hkept htried)
  | none =>
      rw [tryAll_of_none hresult] at htried
      rcases List.mem_append.mp htried with hold | hnew
      · exact .inl (hkept hold)
      · exact .inr (tryRemaining_loaded call _ _ tried hnew)

/-- With the first profiles kept, the profiles are tried in order. -/
theorem Ordered.order [DecidableEq Name] {strategy : FallbackStrategy Name Strategy}
    (hordered : Ordered strategy)
    (call : FallbackCall Name Strategy Response) :
    (strategy.tryAll call).tried.map (·.llm.profile) <+: strategy.available call ∧
      ((strategy.tryAll call).result = none →
        (strategy.tryAll call).tried.map (·.llm.profile) = strategy.available call) := by
  rw [hordered.available_eq]
  obtain ⟨-, hbegins, hall⟩ := tryResolved_order call 0 strategy.resolved
  cases hresult : (tryResolved call 0 strategy.resolved).result with
  | some result =>
      rw [tryAll_of_some hresult]
      refine ⟨?_, fun hnone => ?_⟩
      · have hmap := hbegins.map FallbackLlm.profile
        rw [List.map_map] at hmap
        exact hmap.trans (List.prefix_append _ _)
      · rw [hresult] at hnone
        cases hnone
  | none =>
      rw [tryAll_of_none hresult]
      obtain ⟨-, hlater, hrest⟩ := tryRemaining_order call strategy.resolved.length
        (strategy.fallbackLlms.drop strategy.resolved.length)
      have hcached : (tryResolved call 0 strategy.resolved).tried.map (·.llm.profile) =
          strategy.resolved.map FallbackLlm.profile := by
        conv_rhs => rw [← hall hresult]
        rw [List.map_map]
        rfl
      simp only [List.map_append, hcached]
      refine ⟨(List.prefix_append_right_inj _).mpr hlater, fun hnone => ?_⟩
      rw [hrest hnone]

/-- In a state with the first profiles kept, a call is right. -/
theorem Ordered.isRight [DecidableEq Name] {strategy : FallbackStrategy Name Strategy}
    (hordered : Ordered strategy)
    (call : FallbackCall Name Strategy Response) (primaryCost : ℚ) :
    RightCall strategy call primaryCost := by
  obtain ⟨horder, hall⟩ := hordered.order call
  have htries := tries_tryAll strategy call
  constructor
  · exact htries
  · exact tryAll_own strategy call
  · exact horder
  · intro hnone
    exact hall (Option.map_eq_none_iff.mp hnone)
  · exact horder.sublist.nodup (hordered.distinct.filter _)
  · intro response hresponse
    obtain ⟨result, hresult, rfl⟩ := Option.map_eq_some_iff.mp hresponse
    rcases htries.ends with ⟨hnone, -⟩ | ⟨failed, last, found, htried, -, hlast, hfound⟩
    · rw [hnone] at hresult
      cases hresult
    · rw [hfound, Option.some.injEq] at hresult
      subst hresult
      refine ⟨last, ?_, hlast, ?_⟩
      · rw [htried, List.getLast?_concat]
      · rw [tryFallback, hfound]
        rfl
  · intro hnone
    rw [tryFallback, Option.map_eq_none_iff.mp hnone]
    exact add_zero primaryCost

/-! ## Runs -/

theorem LoadsInOrder.kept_first {call : FallbackCall Name Strategy Response} {position : Nat}
    {names : List Name} (hinOrder : LoadsInOrder call position names) :
    (tryRemaining call position names).resolved.map FallbackLlm.profile <+: names := by
  induction names generalizing position with
  | nil => exact List.prefix_rfl
  | cons name rest ih =>
      cases hload : call.load name with
      | error error =>
          rw [LoadsInOrder, hload] at hinOrder
          obtain ⟨hkept, hbegins, -⟩ := tryRemaining_order call position rest
          have hnone : rest.filter call.loads = [] := by
            apply List.filter_eq_nil_iff.mpr
            intro other hother
            rw [hinOrder other hother]
            exact Bool.false_ne_true
          rw [hnone, List.prefix_nil, ← hkept] at hbegins
          rw [tryRemaining_cons_of_error hload, hbegins]
          exact List.nil_prefix
      | ok loaded =>
          rw [LoadsInOrder, hload] at hinOrder
          cases hresponse : (tryLlm call position (loadedLlm name loaded)).2.response with
          | some response =>
              rw [tryRemaining_cons_of_success hload hresponse]
              exact List.cons_prefix_cons.mpr ⟨rfl, List.nil_prefix⟩
          | none =>
              rw [tryRemaining_cons_of_failure hload hresponse]
              have hlater : LoadsInOrder call (position + 1) rest := by
                refine hinOrder.resolve_left ?_
                simp [hresponse]
              exact List.cons_prefix_cons.mpr ⟨rfl, ih hlater⟩

/-- A kept LLM that responds ends the call before anything is loaded. -/
theorem isSome_tryResolved {call : FallbackCall Name Strategy Response} {position index : Nat}
    {llms : List (FallbackLlm Name Strategy)} {llm : FallbackLlm Name Strategy}
    (hllm : llms[index]? = some llm)
    (hresponse : (tryLlm call (position + index) llm).2.response.isSome) :
    (tryResolved call position llms).result.isSome := by
  induction llms generalizing position index with
  | nil => cases hllm
  | cons first rest ih =>
      cases hfirst : (tryLlm call position first).2.response with
      | some response =>
          rw [tryResolved_cons_of_success hfirst]
          rfl
      | none =>
          rw [tryResolved_cons_of_failure hfirst]
          cases index with
          | zero =>
              rw [List.getElem?_cons_zero, Option.some.injEq] at hllm
              rw [Nat.add_zero, ← hllm, hfirst] at hresponse
              cases hresponse
          | succ index =>
              rw [List.getElem?_cons_succ] at hllm
              rw [← Nat.add_assoc, Nat.add_right_comm] at hresponse
              exact ih hllm hresponse

/-- A call that keeps the order leaves the first profiles in the cache. -/
theorem Ordered.tryFallback {strategy : FallbackStrategy Name Strategy}
    (hordered : Ordered strategy) {call : FallbackCall Name Strategy Response}
    (hkeeps : KeepsOrder strategy call) (primaryCost : ℚ) :
    Ordered (strategy.tryFallback call primaryCost).1 := by
  refine ⟨hordered.distinct, ?_⟩
  show (strategy.tryAll call).resolved.map FallbackLlm.profile <+: strategy.fallbackLlms
  obtain ⟨hkept, -, -⟩ := tryResolved_order call 0 strategy.resolved
  cases hresult : (tryResolved call 0 strategy.resolved).result with
  | some result =>
      rw [tryAll_of_some hresult, hkept]
      exact hordered.kept
  | none =>
      have hinOrder : LoadsInOrder call strategy.resolved.length
          (strategy.fallbackLlms.drop strategy.resolved.length) := by
        refine hkeeps.resolve_left ?_
        rintro ⟨index, llm, hllm, hresponse⟩
        rw [← Nat.zero_add index] at hresponse
        have hsome := isSome_tryResolved hllm hresponse
        rw [hresult] at hsome
        cases hsome
      rw [tryAll_of_none hresult]
      simp only [List.map_append, hkept]
      rw [hordered.take]
      conv_rhs => rw [← List.take_append_drop strategy.resolved.length strategy.fallbackLlms]
      exact (List.prefix_append_right_inj _).mpr (LoadsInOrder.kept_first hinOrder)

/-- The states of a strategy after calls that all kept the order. -/
inductive OrderedRun (Response : Type) (names : List Name) :
    FallbackStrategy Name Strategy → Prop
  | start : OrderedRun Response names { fallbackLlms := names }
  | call {strategy : FallbackStrategy Name Strategy}
      (call : FallbackCall Name Strategy Response) (primaryCost : ℚ) :
      OrderedRun Response names strategy → KeepsOrder strategy call →
      OrderedRun Response names (strategy.tryFallback call primaryCost).1

/-- Each call is right while no call before it loaded a profile behind one that it could not
load. -/
theorem OrderedRun.rightCall [DecidableEq Name] {names : List Name} (hdistinct : names.Nodup)
    {strategy : FallbackStrategy Name Strategy} (hrun : OrderedRun Response names strategy)
    (call : FallbackCall Name Strategy Response) (primaryCost : ℚ) :
    RightCall strategy call primaryCost := by
  have hordered : Ordered strategy := by
    induction hrun with
    | start => exact ⟨hdistinct, List.nil_prefix⟩
    | call call primaryCost _ hkeeps ih => exact ih.tryFallback hkeeps primaryCost
  exact hordered.isRight call primaryCost

/-- No LLM responds, and only these profiles can be loaded. -/
def noResponse (loadable : List String) : FallbackCall String Unit String where
  load name := if name ∈ loadable then .ok (none, 0) else .error .fileNotFound
  callFn _ _ := { response := none, cost := 0 }

/-- The second profile cannot be loaded in the first call. In the next one both are tried. -/
theorem rightCall_retries :
    RightCall ((FallbackStrategy.mk ["fast", "cheap"] []).tryFallback (noResponse ["fast"]) 0).1
      (noResponse ["fast", "cheap"]) 0 := by
  refine OrderedRun.rightCall (by decide) (.call (noResponse ["fast"]) 0 .start (.inr ?_)) _ _
  exact .inr fun _ hother => absurd hother List.not_mem_nil

/-- The first profile cannot be loaded in the first call. In the next one the second profile is
tried twice, and the first one is not tried. -/
theorem not_rightCall_skipped :
    ¬RightCall ((FallbackStrategy.mk ["fast", "cheap"] []).tryFallback (noResponse ["cheap"]) 0).1
      (noResponse ["fast", "cheap"]) 0 := by
  intro hright
  have honce := hright.once
  revert honce
  decide +kernel

end FallbackStrategy

end ShuttleFlow
