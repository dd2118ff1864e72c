import Mathlib.Algebra.BigOperators.Group.List.Basic
import ShuttleFlow.AppServer.ConversationStats

/-! # Differences of metrics

What an LLM has spent since a copy of its metrics was made. Costs are selected by their timestamps,
latencies and token usages by their positions, and totals are subtracted.
-/

namespace ShuttleFlow

structure Cost where
  model : String
  cost : ℚ
  timestamp : ℚ
  deriving DecidableEq

structure ResponseLatency where
  model : String
  latency : ℚ
  responseId : String
  deriving DecidableEq

/-- A `TokenUsage` with its model and response. -/
structure UsageRecord where
  model : String
  usage : TokenUsage
  responseId : String
  deriving DecidableEq

/-- `TokenUsage.__add__`. -/
def UsageRecord.add (first second : UsageRecord) : UsageRecord where
  model := first.model
  usage := first.usage.add second.usage
  responseId := first.responseId

/-- `Metrics` with the lists of single calls. -/
structure CallMetrics where
  modelName : String
  accumulatedCost : ℚ
  maxBudgetPerTask : Option ℚ
  accumulatedTokenUsage : Option UsageRecord
  costs : List Cost
  responseLatencies : List ResponseLatency
  tokenUsages : List UsageRecord
  deriving DecidableEq

/-- What is recorded, with the reading of the clock where one is taken. -/
inductive MetricsCall
  | addCost (value timestamp : ℚ)
  | addResponseLatency (value : ℚ) (responseId : String)
  | addTokenUsage (promptTokens completionTokens cacheReadTokens cacheWriteTokens contextWindow
      reasoningTokens : Int) (responseId : String)

namespace CallMetrics

/-! ## Recording -/

/-- A negative cost is refused. -/
def addCost (metrics : CallMetrics) (value timestamp : ℚ) : CallMetrics :=
  if value < 0 then metrics
  else
    { metrics with
      accumulatedCost := metrics.accumulatedCost + value
      costs := metrics.costs ++ [{ cost := value, model := metrics.modelName, timestamp }] }

def addResponseLatency (metrics : CallMetrics) (value : ℚ) (responseId : String) : CallMetrics :=
  { metrics with
    responseLatencies := metrics.responseLatencies ++
      [{ latency := max 0 value, model := metrics.modelName, responseId }] }

/-- No number of a `TokenUsage` may be negative. -/
def tokenUsage? (promptTokens completionTokens cacheReadTokens cacheWriteTokens contextWindow
    reasoningTokens : Int) : Option TokenUsage :=
  if 0 ≤ promptTokens ∧ 0 ≤ completionTokens ∧ 0 ≤ cacheReadTokens ∧ 0 ≤ cacheWriteTokens ∧
      0 ≤ contextWindow ∧ 0 ≤ reasoningTokens then
    some
      { promptTokens := promptTokens.toNat
        completionTokens := completionTokens.toNat
        cacheReadTokens := cacheReadTokens.toNat
        cacheWriteTokens := cacheWriteTokens.toNat
        reasoningTokens := reasoningTokens.toNat
        contextWindow := contextWindow.toNat
        perTurnToken := (promptTokens + completionTokens).toNat }
  else none

/-- `add_token_usage` with the numbers of a call. -/
def addUsage (metrics : CallMetrics) (usage : TokenUsage) (responseId : String) : CallMetrics :=
  let newUsage : UsageRecord := { model := metrics.modelName, usage, responseId := "" }
  { metrics with
    tokenUsages := metrics.tokenUsages ++ [{ model := metrics.modelName, usage, responseId }]
    accumulatedTokenUsage :=
      match metrics.accumulatedTokenUsage with
      | none => some newUsage
      | some accumulated => some (accumulated.add newUsage) }

/-- A call that raises leaves the metrics as they are. -/
def record (metrics : CallMetrics) : MetricsCall → CallMetrics
  | .addCost value timestamp => metrics.addCost value timestamp
  | .addResponseLatency value responseId => metrics.addResponseLatency value responseId
  | .addTokenUsage prompt completion cacheRead cacheWrite contextWindow reasoning responseId =>
      match tokenUsage? prompt completion cacheRead cacheWrite contextWindow reasoning with
      | none => metrics
      | some usage => metrics.addUsage usage responseId

def recordAll (metrics : CallMetrics) (calls : List MetricsCall) : CallMetrics :=
  calls.foldl record metrics

/-! ## Merging and subtracting -/

def merge (metrics other : CallMetrics) : CallMetrics where
  modelName := metrics.modelName
  accumulatedCost := metrics.accumulatedCost + other.accumulatedCost
  maxBudgetPerTask := metrics.maxBudgetPerTask.or other.maxBudgetPerTask
  accumulatedTokenUsage :=
    match metrics.accumulatedTokenUsage, other.accumulatedTokenUsage with
    | none, usage => usage
    | some usage, none => some usage
    | some usage, some added => some (usage.add added)
  costs := metrics.costs ++ other.costs
  responseLatencies := metrics.responseLatencies ++ other.responseLatencies
  tokenUsages := metrics.tokenUsages ++ other.tokenUsages

/-- The numbers of the current usage without those of the base, if none of them gets negative. -/
def usageDiff? (current base : TokenUsage) : Option TokenUsage :=
  (tokenUsage? (current.promptTokens - base.promptTokens)
    (current.completionTokens - base.completionTokens)
    (current.cacheReadTokens - base.cacheReadTokens)
    (current.cacheWriteTokens - base.cacheWriteTokens) current.contextWindow
    (current.reasoningTokens - base.reasoningTokens)).map fun usage =>
      { usage with perTurnToken := 0 }

/-- The costs with a later timestamp than the last one of the baseline. -/
def costsSince (metrics baseline : CallMetrics) : List Cost :=
  match baseline.costs.getLast? with
  | none => metrics.costs
  | some last => metrics.costs.filter fun cost => decide (last.timestamp < cost.timestamp)

def accumulatedUsageDiff (metrics baseline : CallMetrics) : Option (Option UsageRecord) :=
  match metrics.accumulatedTokenUsage, baseline.accumulatedTokenUsage with
  | some current, some base =>
      (usageDiff? current.usage base.usage).map fun usage =>
        some { model := metrics.modelName, usage, responseId := "" }
  | some current, none => some (some current)
  | none, _ => some none

/-- There is no difference if a number of tokens would be negative. -/
def diff (metrics baseline : CallMetrics) : Option CallMetrics :=
  (metrics.accumulatedUsageDiff baseline).map fun accumulatedTokenUsage =>
    { modelName := metrics.modelName
      accumulatedCost := metrics.accumulatedCost - baseline.accumulatedCost
      maxBudgetPerTask := none
      accumulatedTokenUsage
      costs := metrics.costsSince baseline
      responseLatencies := metrics.responseLatencies.drop baseline.responseLatencies.length
      tokenUsages := metrics.tokenUsages.drop baseline.tokenUsages.length }

/-! ## What calls add -/

def addedCosts (modelName : String) (calls : List MetricsCall) : List Cost :=
  calls.filterMap fun
    | .addCost value timestamp =>
        if value < 0 then none else some { cost := value, model := modelName, timestamp }
    | _ => none

def addedLatencies (modelName : String) (calls : List MetricsCall) : List ResponseLatency :=
  calls.filterMap fun
    | .addResponseLatency value responseId =>
        some { latency := max 0 value, model := modelName, responseId }
    | _ => none

def addedUsages (modelName : String) (calls : List MetricsCall) : List UsageRecord :=
  calls.filterMap fun
    | .addTokenUsage prompt completion cacheRead cacheWrite contextWindow reasoning responseId =>
        (tokenUsage? prompt completion cacheRead cacheWrite contextWindow reasoning).map fun usage =>
          { model := modelName, usage, responseId }
    | _ => none

/-- The counters that are summed up. -/
structure SameCounters (first second : TokenUsage) : Prop where
  promptTokens : first.promptTokens = second.promptTokens
  completionTokens : first.completionTokens = second.completionTokens
  cacheReadTokens : first.cacheReadTokens = second.cacheReadTokens
  cacheWriteTokens : first.cacheWriteTokens = second.cacheWriteTokens
  reasoningTokens : first.reasoningTokens = second.reasoningTokens

/-- Metrics without a usage have used nothing. -/
def usage (metrics : CallMetrics) : TokenUsage :=
  match metrics.accumulatedTokenUsage with
  | none => {}
  | some record => record.usage

/-- The metrics since a copy have what was added to it, and give it back. -/
structure Restores (baseline current difference : CallMetrics) (calls : List MetricsCall) :
    Prop where
  costs : difference.costs = addedCosts baseline.modelName calls
  responseLatencies : difference.responseLatencies = addedLatencies baseline.modelName calls
  tokenUsages : difference.tokenUsages = addedUsages baseline.modelName calls
  sum : (difference.costs.map Cost.cost).sum = difference.accumulatedCost
  mergedCost : (baseline.merge difference).accumulatedCost = current.accumulatedCost
  mergedCosts : (baseline.merge difference).costs = current.costs
  mergedLatencies : (baseline.merge difference).responseLatencies = current.responseLatencies
  mergedUsages : (baseline.merge difference).tokenUsages = current.tokenUsages
  mergedCounters : SameCounters (baseline.merge difference).usage current.usage

def DiffLaw (baseline : CallMetrics) (calls : List MetricsCall) : Prop :=
  ∃ difference, (baseline.recordAll calls).diff baseline = some difference ∧
    Restores baseline (baseline.recordAll calls) difference calls

/-! ## Metrics after calls -/

/-- No counter of the first usage is higher. -/
structure CountersLe (first second : TokenUsage) : Prop where
  promptTokens : first.promptTokens ≤ second.promptTokens
  completionTokens : first.completionTokens ≤ second.completionTokens
  cacheReadTokens : first.cacheReadTokens ≤ second.cacheReadTokens
  cacheWriteTokens : first.cacheWriteTokens ≤ second.cacheWriteTokens
  reasoningTokens : first.reasoningTokens ≤ second.reasoningTokens

theorem CountersLe.refl (usage : TokenUsage) : CountersLe usage usage :=
  ⟨le_refl _, le_refl _, le_refl _, le_refl _, le_refl _⟩

theorem CountersLe.add {first second : TokenUsage} (hle : CountersLe first second)
    (added : TokenUsage) : CountersLe first (second.add added) where
  promptTokens := Nat.le_add_right_of_le hle.promptTokens
  completionTokens := Nat.le_add_right_of_le hle.completionTokens
  cacheReadTokens := Nat.le_add_right_of_le hle.cacheReadTokens
  cacheWriteTokens := Nat.le_add_right_of_le hle.cacheWriteTokens
  reasoningTokens := Nat.le_add_right_of_le hle.reasoningTokens

/-- What is known of metrics to which calls have been added. -/
structure Recorded (baseline : CallMetrics) (calls : List MetricsCall) (current : CallMetrics) :
    Prop where
  modelName : current.modelName = baseline.modelName
  cost : current.accumulatedCost =
    baseline.accumulatedCost + ((addedCosts baseline.modelName calls).map Cost.cost).sum
  costs : current.costs = baseline.costs ++ addedCosts baseline.modelName calls
  latencies : current.responseLatencies =
    baseline.responseLatencies ++ addedLatencies baseline.modelName calls
  usages : current.tokenUsages = baseline.tokenUsages ++ addedUsages baseline.modelName calls
  counters : ∀ base ∈ baseline.accumulatedTokenUsage,
    ∃ usage ∈ current.accumulatedTokenUsage, CountersLe base.usage usage.usage

theorem recorded_nil (baseline : CallMetrics) : Recorded baseline [] baseline where
  modelName := rfl
  cost := (add_zero _).symm
  costs := (List.append_nil _).symm
  latencies := (List.append_nil _).symm
  usages := (List.append_nil _).symm
  counters base hbase := ⟨base, hbase, .refl _⟩

variable {baseline current : CallMetrics} {calls : List MetricsCall}

/-- One more call, by what it adds. -/
theorem Recorded.extend (hrecorded : Recorded baseline calls current) {call : MetricsCall}
    {next : CallMetrics} (hname : next.modelName = current.modelName)
    (hcost : next.accumulatedCost =
      current.accumulatedCost + ((addedCosts current.modelName [call]).map Cost.cost).sum)
    (hcosts : next.costs = current.costs ++ addedCosts current.modelName [call])
    (hlatencies : next.responseLatencies =
      current.responseLatencies ++ addedLatencies current.modelName [call])
    (husages : next.tokenUsages = current.tokenUsages ++ addedUsages current.modelName [call])
    (hcounters : ∀ usage ∈ current.accumulatedTokenUsage,
      ∃ later ∈ next.accumulatedTokenUsage, ∃ added, later.usage = usage.usage.add added ∨
        later.usage = usage.usage) :
    Recorded baseline (calls ++ [call]) next where
  modelName := hname.trans hrecorded.modelName
  cost := by
    rw [hcost, hrecorded.cost, hrecorded.modelName, addedCosts, addedCosts, addedCosts,
      List.filterMap_append, List.map_append, List.sum_append, add_assoc]
  costs := by
    rw [hcosts, hrecorded.costs, hrecorded.modelName, addedCosts, addedCosts, addedCosts,
      List.filterMap_append, List.append_assoc]
  latencies := by
    rw [hlatencies, hrecorded.latencies, hrecorded.modelName, addedLatencies, addedLatencies,
      addedLatencies, List.filterMap_append, List.append_assoc]
  usages := by
    rw [husages, hrecorded.usages, hrecorded.modelName, addedUsages, addedUsages, addedUsages,
      List.filterMap_append, List.append_assoc]
  counters := by
    intro base hbase
    obtain ⟨usage, husage, hle⟩ := hrecorded.counters base hbase
    obtain ⟨later, hlater, added, hadded | hsame⟩ := hcounters usage husage
    · exact ⟨later, hlater, hadded ▸ hle.add added⟩
    · exact ⟨later, hlater, hsame ▸ hle⟩

theorem Recorded.record (hrecorded : Recorded baseline calls current) (call : MetricsCall) :
    Recorded baseline (calls ++ [call]) (current.record call) := by
  have hkept : ∀ usage ∈ current.accumulatedTokenUsage,
      ∃ later ∈ current.accumulatedTokenUsage, ∃ added, later.usage = usage.usage.add added ∨
        later.usage = usage.usage :=
    fun usage husage => ⟨usage, husage, {}, .inr rfl⟩
  cases call with
  | addCost value timestamp =>
      rw [CallMetrics.record, addCost]
      by_cases hnegative : value < 0
      · rw [if_pos hnegative]
        refine hrecorded.extend rfl ?_ ?_ (List.append_nil _).symm (List.append_nil _).symm hkept
        · simp [addedCosts, hnegative]
        · simp [addedCosts, hnegative]
      · rw [if_neg hnegative]
        refine hrecorded.extend rfl ?_ ?_ (List.append_nil _).symm (List.append_nil _).symm hkept
        · simp [addedCosts, hnegative]
        · simp [addedCosts, hnegative]
  | addResponseLatency value responseId =>
      exact hrecorded.extend rfl (add_zero _).symm (List.append_nil _).symm rfl
        (List.append_nil _).symm hkept
  | addTokenUsage prompt completion cacheRead cacheWrite contextWindow reasoning responseId =>
      rw [CallMetrics.record]
      cases husage : tokenUsage? prompt completion cacheRead cacheWrite contextWindow reasoning with
      | none =>
          refine hrecorded.extend rfl (add_zero _).symm (List.append_nil _).symm
            (List.append_nil _).symm ?_ hkept
          simp [addedUsages, husage]
      | some usage =>
          refine hrecorded.extend rfl (add_zero _).symm (List.append_nil _).symm
            (List.append_nil _).symm ?_ ?_
          · simp [addedUsages, husage, addUsage]
          · intro accumulated haccumulated
            have hsome := Option.mem_def.mp haccumulated
            refine ⟨accumulated.add { model := current.modelName, usage, responseId := "" }, ?_,
              usage, .inl rfl⟩
            simp [addUsage, hsome]

theorem recorded_recordAll (baseline : CallMetrics) (calls : List MetricsCall) :
    Recorded baseline calls (baseline.recordAll calls) := by
  induction calls using List.reverseRecOn with
  | nil => exact recorded_nil baseline
  | append_singleton calls call ih =>
      rw [recordAll, List.foldl_append]
      exact ih.record call

/-! ## The law -/

/-- No cost of the baseline is later than its last one, and every added cost is. -/
def LaterCosts (baseline : CallMetrics) (calls : List MetricsCall) : Prop :=
  ∀ last ∈ baseline.costs.getLast?,
    (∀ cost ∈ baseline.costs, cost.timestamp ≤ last.timestamp) ∧
      ∀ cost ∈ addedCosts baseline.modelName calls, last.timestamp < cost.timestamp

theorem costsSince_eq_iff (hrecorded : Recorded baseline calls current) :
    current.costsSince baseline = addedCosts baseline.modelName calls ↔
      LaterCosts baseline calls := by
  rw [LaterCosts, costsSince, hrecorded.costs]
  cases hlast : baseline.costs.getLast? with
  | none =>
      rw [List.getLast?_eq_none_iff.mp hlast, List.nil_append]
      exact iff_of_true rfl fun last hmem => absurd hmem (Option.not_mem_none last)
  | some last =>
      simp only [Option.mem_some_iff, forall_eq', List.filter_append]
      constructor
      · intro heq
        -- what is selected is later, so that the added costs are all selected by themselves
        have hadded : ∀ cost ∈ addedCosts baseline.modelName calls,
            last.timestamp < cost.timestamp := by
          intro cost hcost
          rw [← heq, ← List.filter_append] at hcost
          exact of_decide_eq_true (List.mem_filter.mp hcost).2
        have hself : (addedCosts baseline.modelName calls).filter (fun cost =>
            decide (last.timestamp < cost.timestamp)) = addedCosts baseline.modelName calls :=
          List.filter_eq_self.mpr fun cost hcost => decide_eq_true (hadded cost hcost)
        rw [hself, List.append_left_eq_self, List.filter_eq_nil_iff] at heq
        exact ⟨fun cost hcost => not_lt.mp fun hlt => heq cost hcost (decide_eq_true hlt), hadded⟩
      · rintro ⟨hbase, hadded⟩
        have hnone : (baseline.costs.filter fun cost =>
            decide (last.timestamp < cost.timestamp)) = [] :=
          List.filter_eq_nil_iff.mpr fun cost hcost hlt =>
            absurd (of_decide_eq_true hlt) (not_lt.mpr (hbase cost hcost))
        rw [hnone, List.nil_append]
        exact List.filter_eq_self.mpr fun cost hcost => decide_eq_true (hadded cost hcost)

/-- The counters since the baseline, together with those of the baseline, are the current ones. -/
theorem usageDiff?_spec {base usage : TokenUsage} (hle : CountersLe base usage) :
    ∃ difference, usageDiff? usage base = some difference ∧
      SameCounters (base.add difference) usage := by
  have hprompt := hle.promptTokens
  have hcompletion := hle.completionTokens
  have hcacheRead := hle.cacheReadTokens
  have hcacheWrite := hle.cacheWriteTokens
  have hreasoning := hle.reasoningTokens
  rw [usageDiff?, tokenUsage?, if_pos (by omega)]
  refine ⟨_, rfl, ?_⟩
  constructor
  · simp only [TokenUsage.add]
    omega
  · simp only [TokenUsage.add]
    omega
  · simp only [TokenUsage.add]
    omega
  · simp only [TokenUsage.add]
    omega
  · simp only [TokenUsage.add]
    omega

theorem accumulatedUsageDiff_spec (hrecorded : Recorded baseline calls current) :
    ∃ difference, current.accumulatedUsageDiff baseline = some difference ∧
      ∀ metrics : CallMetrics, metrics.accumulatedTokenUsage = difference →
        SameCounters (baseline.merge metrics).usage current.usage := by
  cases hbase : baseline.accumulatedTokenUsage with
  | none =>
      cases husage : current.accumulatedTokenUsage with
      | none =>
          refine ⟨none, by rw [accumulatedUsageDiff, husage], fun metrics hmetrics => ?_⟩
          simp only [usage, merge, hbase, hmetrics, husage]
          exact ⟨rfl, rfl, rfl, rfl, rfl⟩
      | some accumulated =>
          refine ⟨some accumulated, by rw [accumulatedUsageDiff, husage, hbase],
            fun metrics hmetrics => ?_⟩
          simp only [usage, merge, hbase, hmetrics, husage]
          exact ⟨rfl, rfl, rfl, rfl, rfl⟩
  | some base =>
      obtain ⟨accumulated, haccumulated, hle⟩ := hrecorded.counters base hbase
      have husage := Option.mem_def.mp haccumulated
      obtain ⟨difference, hdifference, hsame⟩ := usageDiff?_spec hle
      refine ⟨some { model := current.modelName, usage := difference, responseId := "" }, ?_,
        fun metrics hmetrics => ?_⟩
      · rw [accumulatedUsageDiff, husage, hbase]
        simp only [hdifference, Option.map_some]
      · simp only [usage, merge, hbase, hmetrics, husage]
        exact hsame

/-- The law holds exactly if the clock has told the added costs from the others. -/
theorem diffLaw_iff (baseline : CallMetrics) (calls : List MetricsCall) :
    DiffLaw baseline calls ↔ LaterCosts baseline calls := by
  have hrecorded := recorded_recordAll baseline calls
  obtain ⟨usage, husage, hcounters⟩ := accumulatedUsageDiff_spec hrecorded
  rw [← costsSince_eq_iff hrecorded, DiffLaw, diff, husage, Option.map_some]
  constructor
  · rintro ⟨difference, hdifference, hrestores⟩
    obtain rfl := Option.some.inj hdifference
    exact hrestores.costs
  · intro hcosts
    have hlatencies : (baseline.recordAll calls).responseLatencies.drop
        baseline.responseLatencies.length = addedLatencies baseline.modelName calls := by
      rw [hrecorded.latencies, List.drop_left]
    have husages : (baseline.recordAll calls).tokenUsages.drop baseline.tokenUsages.length =
        addedUsages baseline.modelName calls := by
      rw [hrecorded.usages, List.drop_left]
    exact ⟨_, rfl,
      { costs := hcosts
        responseLatencies := hlatencies
        tokenUsages := husages
        sum := by
          rw [hcosts, hrecorded.cost, add_sub_cancel_left]
        mergedCost := by
          rw [merge, add_sub_cancel]
        mergedCosts := by
          rw [merge, hcosts, hrecorded.costs]
        mergedLatencies := by
          rw [merge, hlatencies, hrecorded.latencies]
        mergedUsages := by
          rw [merge, husages, hrecorded.usages]
        mergedCounters := hcounters _ rfl }⟩

/-- A cost that is added before the clock goes on. -/
def tickingMetrics : CallMetrics where
  modelName := "model"
  accumulatedCost := 1
  maxBudgetPerTask := none
  accumulatedTokenUsage := none
  costs := [{ model := "model", cost := 1, timestamp := 5 }]
  responseLatencies := []
  tokenUsages := []

theorem not_diffLaw_sameReading : ¬ DiffLaw tickingMetrics [.addCost 2 5] := by
  rintro ⟨difference, hdifference, hrestores⟩
  have hcosts := hrestores.costs
  obtain rfl := Option.some.inj hdifference
  revert hcosts
  decide +kernel

end CallMetrics

end ShuttleFlow
