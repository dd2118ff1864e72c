import Mathlib.Algebra.Order.Ring.NNRat
import ShuttleFlow.AppServer.ConversationStats
import ShuttleFlow.AppServer.MetadataWriters
import ShuttleFlow.Library.Sums

/-! # Whether the two webhooks store the same

One of them stores the metrics of all usages, and the other one those of the agent. They are the
same when all others are empty.
-/

namespace ShuttleFlow

open scoped NNRat

/-! ## Combined metrics -/

namespace Metrics

variable {metrics : Metrics} {rest : List Metrics}

/-- A field that merging adds up. -/
theorem foldl_merge_eq_sum {M : Type} [AddCommMonoid M] {field : Metrics → M}
    (hmerge : ∀ first second : Metrics, field (first.merge second) = field first + field second)
    (metrics : Metrics) (rest : List Metrics) :
    field (rest.foldl merge metrics) = field metrics + (rest.map field).sum := by
  induction rest generalizing metrics with
  | nil => exact (add_zero _).symm
  | cons other rest ih =>
      rw [List.foldl_cons, ih, hmerge, List.map_cons, List.sum_cons, add_assoc]

theorem contextWindow_foldl_merge (metrics : Metrics) (rest : List Metrics) :
    (rest.foldl merge metrics).accumulatedTokenUsage.contextWindow =
      (rest.map fun other => other.accumulatedTokenUsage.contextWindow).foldl max
        metrics.accumulatedTokenUsage.contextWindow := by
  induction rest generalizing metrics with
  | nil => rfl
  | cons other rest ih =>
      rw [List.foldl_cons, ih]
      rfl

theorem perTurnToken_foldl_merge (metrics : Metrics) (rest : List Metrics) :
    (rest.foldl merge metrics).accumulatedTokenUsage.perTurnToken =
      (rest.getLast?.getD metrics).accumulatedTokenUsage.perTurnToken := by
  induction rest using List.reverseRecOn with
  | nil => rfl
  | append_singleton front last _ =>
      rw [List.foldl_append, List.getLast?_append_of_ne_nil _ (List.cons_ne_nil _ _)]
      rfl

end Metrics

theorem foldl_max_le_iff (start bound : Nat) (values : List Nat) :
    values.foldl max start ≤ bound ↔ start ≤ bound ∧ ∀ value ∈ values, value ≤ bound := by
  induction values generalizing start with
  | nil => simp
  | cons value rest ih =>
      rw [List.foldl_cons, ih, max_le_iff, List.forall_mem_cons, and_assoc]

theorem le_foldl_max {start value : Nat} {values : List Nat} (hmem : value ∈ values) :
    value ≤ values.foldl max start :=
  ((foldl_max_le_iff start _ values).mp (Nat.le_refl _)).2 value hmem

/-- A sum over the values is one of them when the others are zero. -/
theorem sum_values_eq_iff {M : Type} [AddCommMonoid M] [PartialOrder M] [CanonicallyOrderedAdd M]
    [IsOrderedAddMonoid M] [IsLeftCancelAdd M] {dict : Dict String Metrics} {agent : Metrics}
    (hagent : dict.get? "agent" = some agent) (field : Metrics → M) :
    (dict.values.map field).sum = field agent ↔
      ∀ id other, dict.get? id = some other → id ≠ "agent" → field other = 0 := by
  rw [Dict.sum_values_erase dict "agent", hagent, Option.map_some, Option.getD_some,
    add_comm, add_eq_left, List.sum_eq_zero_iff]
  constructor
  · intro hall id other hget hne
    apply hall
    apply List.mem_map_of_mem
    apply Dict.mem_values_iff.mpr
    refine ⟨id, ?_⟩
    rw [Dict.get?_erase, if_neg hne]
    exact hget
  · intro hall value hmem
    obtain ⟨other, hother, rfl⟩ := List.mem_map.mp hmem
    obtain ⟨id, hget⟩ := Dict.mem_values_iff.mp hother
    rw [Dict.get?_erase] at hget
    split at hget
    next => cases hget
    next hne => exact hall id other hget hne

/-! ## One delivery -/

/-- A usage that adds nothing to the metrics of the agent. -/
structure Metrics.AddsNothing (other agent : Metrics) : Prop where
  accumulatedCost : other.accumulatedCost = 0
  promptTokens : other.accumulatedTokenUsage.promptTokens = 0
  completionTokens : other.accumulatedTokenUsage.completionTokens = 0
  cacheReadTokens : other.accumulatedTokenUsage.cacheReadTokens = 0
  cacheWriteTokens : other.accumulatedTokenUsage.cacheWriteTokens = 0
  contextWindow :
    other.accumulatedTokenUsage.contextWindow ≤ agent.accumulatedTokenUsage.contextWindow

namespace StatisticsRow

variable {Time : Type} {host : MetadataHost} {update : ConversationUpdate Time}
  {stats : ConversationStats} {row after : StatisticsRow Time} {now utcNow : Time}

/-- The row has the combined metrics already. -/
def HasCombined (stats : ConversationStats) (row : StatisticsRow Time) : Prop :=
  let stored := stats.getCombinedMetrics.toSnapshot.toStored
  row.metadata.metrics = { stored with maxBudgetPerTask := row.metadata.metrics.maxBudgetPerTask }

/-- All usages but that of the agent are empty, the last one says the same about the turn, and
the columns that only one webhook writes have been right before. Without a usage of the agent the
row has the combined metrics already. -/
def Agrees (stats : ConversationStats) (row : StatisticsRow Time) : Prop :=
  match stats.usageToMetrics.get? "agent" with
  | none => row.HasCombined stats
  | some agent =>
      (∀ id other, stats.usageToMetrics.get? id = some other → id ≠ "agent" →
        other.AddsNothing agent) ∧
      (stats.usageToMetrics.values.getLast?.map (·.accumulatedTokenUsage.perTurnToken)) =
        some agent.accumulatedTokenUsage.perTurnToken ∧
      row.metadata.metrics.totalTokens = some 0 ∧
      row.reasoningTokens = some agent.accumulatedTokenUsage.reasoningTokens

/-- What an update stores. -/
theorem onConversationUpdate_eq_some
    (hafter : row.onConversationUpdate host update stats now = some after) :
    after.metadata.metrics = stats.getCombinedMetrics.toSnapshot.toStored ∧
      after.reasoningTokens = row.reasoningTokens := by
  unfold onConversationUpdate at hafter
  obtain ⟨existing, -, hsaved⟩ := Option.bind_eq_some_iff.mp hafter
  obtain ⟨info, hinfo, rfl⟩ := Option.map_eq_some_iff.mp hsaved
  unfold MetadataHost.save at hinfo
  dsimp only at hinfo
  split at hinfo
  next => cases hinfo
  next =>
    cases hinfo
    exact ⟨rfl, rfl⟩

theorem processStatsEvent_of_none (hnone : stats.usageToMetrics.get? "agent" = none) :
    row.processStatsEvent stats utcNow = row := by
  unfold processStatsEvent updateConversationStatistics
  rw [hnone]
  exact ite_self _

theorem processStatsEvent_of_some {agent : Metrics}
    (hagent : stats.usageToMetrics.get? "agent" = some agent) :
    row.processStatsEvent stats utcNow = row.updateConversationStatistics stats utcNow := by
  unfold processStatsEvent
  apply if_neg
  intro hempty
  have hmem := Dict.mem_entries_of_get? hagent
  rw [hempty] at hmem
  cases hmem

end StatisticsRow

namespace ConversationStats

variable {stats : ConversationStats} {agent : Metrics}

theorem sum_eq_agent_iff {M : Type} [AddCommMonoid M] [PartialOrder M] [CanonicallyOrderedAdd M]
    [IsOrderedAddMonoid M] [IsLeftCancelAdd M]
    (hagent : stats.usageToMetrics.get? "agent" = some agent) {field : Metrics → M}
    (hmerge : ∀ first second : Metrics, field (first.merge second) = field first + field second)
    (hzero : field {} = 0) :
    field stats.getCombinedMetrics = field agent ↔
      ∀ id other, stats.usageToMetrics.get? id = some other → id ≠ "agent" → field other = 0 := by
  unfold getCombinedMetrics
  rw [Metrics.foldl_merge_eq_sum hmerge, hzero, zero_add, sum_values_eq_iff hagent]

theorem contextWindow_eq_agent_iff (hagent : stats.usageToMetrics.get? "agent" = some agent) :
    stats.getCombinedMetrics.accumulatedTokenUsage.contextWindow =
        agent.accumulatedTokenUsage.contextWindow ↔
      ∀ id other, stats.usageToMetrics.get? id = some other → id ≠ "agent" →
        other.accumulatedTokenUsage.contextWindow ≤
          agent.accumulatedTokenUsage.contextWindow := by
  have hmem : agent.accumulatedTokenUsage.contextWindow ∈
      stats.usageToMetrics.values.map fun other => other.accumulatedTokenUsage.contextWindow :=
    List.mem_map_of_mem (Dict.mem_values_iff.mpr ⟨_, hagent⟩)
  unfold getCombinedMetrics
  rw [Metrics.contextWindow_foldl_merge, ← Nat.le_antisymm_iff.trans
    (and_iff_left (le_foldl_max hmem)) |>.symm, foldl_max_le_iff]
  constructor
  · rintro ⟨-, hall⟩ id other hget _
    exact hall _ (List.mem_map_of_mem (Dict.mem_values_iff.mpr ⟨id, hget⟩))
  · intro hall
    refine ⟨Nat.zero_le _, fun value hvalue => ?_⟩
    obtain ⟨other, hother, rfl⟩ := List.mem_map.mp hvalue
    obtain ⟨id, hget⟩ := Dict.mem_values_iff.mp hother
    by_cases hid : id = "agent"
    · rw [hid, hagent] at hget
      cases hget
      exact Nat.le_refl _
    · exact hall id other hget hid

theorem perTurnToken_eq_agent_iff (hagent : stats.usageToMetrics.get? "agent" = some agent) :
    stats.getCombinedMetrics.accumulatedTokenUsage.perTurnToken =
        agent.accumulatedTokenUsage.perTurnToken ↔
      (stats.usageToMetrics.values.getLast?.map (·.accumulatedTokenUsage.perTurnToken)) =
        some agent.accumulatedTokenUsage.perTurnToken := by
  have hmem : agent ∈ stats.usageToMetrics.values := Dict.mem_values_iff.mpr ⟨_, hagent⟩
  unfold getCombinedMetrics
  rw [Metrics.perTurnToken_foldl_merge]
  cases hlast : stats.usageToMetrics.values.getLast? with
  | none =>
      rw [List.getLast?_eq_none_iff.mp hlast] at hmem
      cases hmem
  | some last => exact Option.some_inj.symm

end ConversationStats

namespace StatisticsRow

variable {Time : Type} {host : MetadataHost} {update : ConversationUpdate Time}
  {stats : ConversationStats} {row after : StatisticsRow Time} {now utcNow : Time}

/-- An update and an event with the same statistics store the same exactly when they agree. -/
theorem counters_eq_iff (hafter : row.onConversationUpdate host update stats now = some after) :
    after.counters = (row.processStatsEvent stats utcNow).counters ↔ row.Agrees stats := by
  obtain ⟨hmetrics, hreasoning⟩ := onConversationUpdate_eq_some hafter
  unfold Agrees
  cases hagent : stats.usageToMetrics.get? "agent" with
  | none =>
      rw [processStatsEvent_of_none hagent]
      unfold counters HasCombined
      rw [hmetrics, hreasoning]
      obtain ⟨stored, hstored⟩ : ∃ stored, stats.getCombinedMetrics.toSnapshot.toStored = stored :=
        ⟨_, rfl⟩
      rw [hstored]
      cases row.metadata.metrics
      simp only [StoredCounters.mk.injEq, StoredMetrics.mk.injEq]
      constructor
      · rintro ⟨h1, h2, h3, h4, h5, h6, -, h8, h9⟩
        exact ⟨h1.symm, h2.symm, h3.symm, h4.symm, trivial, h5.symm, h6.symm, h8.symm, h9.symm⟩
      · rintro ⟨h1, h2, h3, h4, -, h5, h6, h8, h9⟩
        exact ⟨h1.symm, h2.symm, h3.symm, h4.symm, h5.symm, h6.symm, trivial, h8.symm, h9.symm⟩
  | some agent =>
      have hcost := ConversationStats.sum_eq_agent_iff hagent
        (fun first second => rfl : ∀ first second : Metrics,
          (first.merge second).accumulatedCost = _) rfl
      have hprompt := @ConversationStats.sum_eq_agent_iff stats agent ℕ _ _ _ _ _ hagent
        (fun metrics => metrics.accumulatedTokenUsage.promptTokens) (fun _ _ => rfl) rfl
      have hcompletion := @ConversationStats.sum_eq_agent_iff stats agent ℕ _ _ _ _ _ hagent
        (fun metrics => metrics.accumulatedTokenUsage.completionTokens) (fun _ _ => rfl) rfl
      have hread := @ConversationStats.sum_eq_agent_iff stats agent ℕ _ _ _ _ _ hagent
        (fun metrics => metrics.accumulatedTokenUsage.cacheReadTokens) (fun _ _ => rfl) rfl
      have hwrite := @ConversationStats.sum_eq_agent_iff stats agent ℕ _ _ _ _ _ hagent
        (fun metrics => metrics.accumulatedTokenUsage.cacheWriteTokens) (fun _ _ => rfl) rfl
      have hcontext := ConversationStats.contextWindow_eq_agent_iff hagent
      have hturn := ConversationStats.perTurnToken_eq_agent_iff hagent
      rw [processStatsEvent_of_some hagent]
      unfold counters updateConversationStatistics
      rw [hmetrics, hreasoning, hagent]
      simp only [Metrics.toSnapshot, MetricsSnapshot.toStored, Option.getD_some,
        StoredCounters.mk.injEq, Option.some.injEq, NNRat.coe_inj]
      rw [hcost, hprompt, hcompletion, hread, hwrite, hcontext, hturn]
      constructor
      · rintro ⟨h1, h2, h3, h4, h5, h6, h7, h8, h9⟩
        exact ⟨fun id other hget hne => ⟨h1 id other hget hne, h2 id other hget hne,
          h3 id other hget hne, h5 id other hget hne, h6 id other hget hne,
          h8 id other hget hne⟩, h9, h4.symm, h7⟩
      · rintro ⟨hothers, h9, h4, h7⟩
        exact ⟨fun id other hget hne => (hothers id other hget hne).accumulatedCost,
          fun id other hget hne => (hothers id other hget hne).promptTokens,
          fun id other hget hne => (hothers id other hget hne).completionTokens, h4.symm,
          fun id other hget hne => (hothers id other hget hne).cacheReadTokens,
          fun id other hget hne => (hothers id other hget hne).cacheWriteTokens, h7,
          fun id other hget hne => (hothers id other hget hne).contextWindow, h9⟩

end StatisticsRow

/-! ## A run -/

/-- No usage gets cheaper. -/
def ConversationStats.Grows (before after : ConversationStats) : Prop :=
  ∀ id metrics, before.usageToMetrics.get? id = some metrics →
    ∃ later, after.usageToMetrics.get? id = some later ∧
      metrics.accumulatedCost ≤ later.accumulatedCost

theorem ConversationStats.getCombinedMetrics_accumulatedCost (stats : ConversationStats) :
    stats.getCombinedMetrics.accumulatedCost =
      (stats.usageToMetrics.values.map Metrics.accumulatedCost).sum := by
  have hsum := @Metrics.foldl_merge_eq_sum ℚ≥0 _ Metrics.accumulatedCost (fun _ _ => rfl) {}
    stats.usageToMetrics.values
  rw [getCombinedMetrics, hsum]
  exact zero_add _

theorem ConversationStats.Grows.combined_le {before after : ConversationStats}
    (hgrows : before.Grows after) :
    before.getCombinedMetrics.accumulatedCost ≤ after.getCombinedMetrics.accumulatedCost := by
  rw [getCombinedMetrics_accumulatedCost, getCombinedMetrics_accumulatedCost]
  exact Dict.sum_values_le_of_get? hgrows

namespace StatisticsRow

variable {Time : Type} {host : MetadataHost} {stats : ConversationStats}
  {row : StatisticsRow Time}

def cost (row : StatisticsRow Time) : Option ℚ := row.metadata.metrics.accumulatedCost

/-- An update is stored, and an event agrees with the row. -/
def Meets (host : MetadataHost) (row : StatisticsRow Time) : StatsDelivery Time → Prop
  | .update update stats now => (row.onConversationUpdate host update stats now).isSome
  | .statsEvent stats _ => row.Agrees stats

/-- Deliveries in the order of the statistics, each of which meets the condition. -/
inductive Delivers (host : MetadataHost) (first : ConversationStats) (start : StatisticsRow Time) :
    ConversationStats → StatisticsRow Time → Prop
  | refl : Delivers host first start first start
  | tail {last : ConversationStats} {row : StatisticsRow Time} (delivery : StatsDelivery Time) :
      Delivers host first start last row → last.Grows delivery.stats → row.Meets host delivery →
      Delivers host first start delivery.stats (row.deliver host delivery)

/-- A delivery stores the combined cost. -/
theorem cost_deliver {delivery : StatsDelivery Time} (hmeets : row.Meets host delivery) :
    (row.deliver host delivery).cost =
      some (delivery.stats.getCombinedMetrics.accumulatedCost : ℚ) := by
  cases delivery with
  | update update stats now =>
      obtain ⟨after, hafter⟩ := Option.isSome_iff_exists.mp hmeets
      unfold deliver cost
      dsimp only
      rw [hafter, Option.getD_some, (onConversationUpdate_eq_some hafter).1]
      rfl
  | statsEvent stats utcNow =>
      change (row.processStatsEvent stats utcNow).cost = _
      change row.Agrees stats at hmeets
      unfold Agrees at hmeets
      unfold cost
      cases hagent : stats.usageToMetrics.get? "agent" with
      | none =>
          rw [hagent] at hmeets
          rw [processStatsEvent_of_none hagent, hmeets]
          rfl
      | some agent =>
          rw [hagent] at hmeets
          have hcost := @ConversationStats.sum_eq_agent_iff stats agent ℚ≥0 _ _ _ _ _ hagent
            Metrics.accumulatedCost (fun _ _ => rfl) rfl
          have hsame := hcost.mpr fun id other hget hne =>
            (hmeets.1 id other hget hne).accumulatedCost
          rw [processStatsEvent_of_some hagent, updateConversationStatistics, hagent]
          change some (agent.accumulatedCost : ℚ) = some _
          rw [← hsame]
          rfl

theorem Delivers.cost_eq {first last : ConversationStats} {start : StatisticsRow Time}
    (hdelivers : Delivers host first start last row)
    (hstart : start.cost = some (first.getCombinedMetrics.accumulatedCost : ℚ)) :
    row.cost = some (last.getCombinedMetrics.accumulatedCost : ℚ) := by
  cases hdelivers with
  | refl => exact hstart
  | tail delivery _ _ hmeets => exact cost_deliver hmeets

/-- Both webhooks store the same exactly when they agree, and in a run in which they do the stored
cost does not fall and is the combined cost of the last statistics. -/
theorem storesCombined (host : MetadataHost) (row : StatisticsRow Time) :
    (∀ update stats now utcNow after,
      row.onConversationUpdate host update stats now = some after →
      (after.counters = (row.processStatsEvent stats utcNow).counters ↔ row.Agrees stats)) ∧
    ∀ first start last,
      start.cost = some (first.getCombinedMetrics.accumulatedCost : ℚ) →
      Delivers host first start last row →
      row.cost = some (last.getCombinedMetrics.accumulatedCost : ℚ) ∧
      ∀ delivery, last.Grows delivery.stats → row.Meets host delivery →
        ∃ before after, row.cost = some before ∧ (row.deliver host delivery).cost = some after ∧
          before ≤ after := by
  refine ⟨fun update stats now utcNow after hafter => counters_eq_iff hafter,
    fun first start last hstart hdelivers => ?_⟩
  have hcost := hdelivers.cost_eq hstart
  refine ⟨hcost, fun delivery hgrows hmeets => ?_⟩
  refine ⟨_, _, hcost, cost_deliver hmeets, ?_⟩
  exact NNRat.coe_le_coe.mpr hgrows.combined_le

open Sample

def sharedStatistics : StatisticsRow Nat where
  metadata := sharedRow
  reasoningTokens := some 0
  isV1 := rfl

def agentStats : ConversationStats where
  usageToMetrics := Dict.empty.set "agent" { accumulatedCost := 1 }

/-- The condenser uses a model too. -/
def condenserStats : ConversationStats where
  usageToMetrics := agentStats.usageToMetrics.set "condenser" { accumulatedCost := 2 }

theorem storesCombined_agent :
    (∃ after, sharedStatistics.onConversationUpdate metadataHost webhook agentStats 8 =
        some after ∧
      (after.counters = (sharedStatistics.processStatsEvent agentStats 9).counters ↔
        sharedStatistics.Agrees agentStats)) ∧
    sharedStatistics.cost = some (({} : ConversationStats).getCombinedMetrics.accumulatedCost : ℚ) ∧
    sharedStatistics.Meets metadataHost (.update webhook agentStats 8) := by
  obtain ⟨hsame, hruns⟩ := storesCombined metadataHost sharedStatistics
  have hstart : sharedStatistics.cost =
      some (({} : ConversationStats).getCombinedMetrics.accumulatedCost : ℚ) := by decide +kernel
  have hmeets :
      (sharedStatistics.onConversationUpdate metadataHost webhook agentStats 8).isSome := by
    decide +kernel
  obtain ⟨after, hafter⟩ := Option.isSome_iff_exists.mp hmeets
  refine ⟨⟨after, hafter, hsame webhook agentStats 8 9 after hafter⟩, ?_, hmeets⟩
  exact (hruns {} sharedStatistics {} hstart .refl).1

/-- The event leaves out what the condenser costs. -/
theorem not_storesCombined_condenser : ¬ ∀ (row : StatisticsRow Nat)
    (update : ConversationUpdate Nat) (stats : ConversationStats) (now utcNow : Nat)
    (after : StatisticsRow Nat),
    row.onConversationUpdate metadataHost update stats now = some after →
    after.counters = (row.processStatsEvent stats utcNow).counters := by
  intro hall
  have hcosts : (sharedStatistics.onConversationUpdate metadataHost webhook condenserStats 8).map
      (fun after => (after.counters.accumulatedCost, (sharedStatistics.processStatsEvent
        condenserStats 9).counters.accumulatedCost)) = some (some 3, some 1) := by decide +kernel
  obtain ⟨after, hafter, hpair⟩ := Option.map_eq_some_iff.mp hcosts
  obtain ⟨hupdate, hevent⟩ := Prod.mk.inj hpair
  rw [hall sharedStatistics webhook condenserStats 8 9 after hafter, hevent] at hupdate
  exact absurd (Option.some.inj hupdate) (by decide +kernel)

end StatisticsRow

end ShuttleFlow
