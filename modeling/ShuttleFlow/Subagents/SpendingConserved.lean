import Mathlib.Algebra.Order.Ring.NNRat
import ShuttleFlow.Library.Sums
import ShuttleFlow.Subagents.SubagentSpending

/-! # Whether spending is conserved

To replace the metrics under a usage id changes the total by what the conversation of the sub-agent
has spent only if it had cost before what the old metrics say.
-/

namespace ShuttleFlow

namespace SubagentStats

theorem run_cost (stats : SubagentStats) (steps : List SubagentStatsStep) :
    (stats.run steps).cost = stats.cost + subagentCost steps := by
  induction steps generalizing stats with
  | nil => exact (add_zero _).symm
  | cons step rest ih =>
      change ((stats.apply step).run rest).cost = _
      rw [ih]
      cases step with
      | completion cost => exact add_assoc ..
      | save =>
          simp only [subagentCost, List.map_cons, List.sum_cons, zero_add]
          rfl

end SubagentStats

namespace SpendingParent

variable {parent : SpendingParent}

/-- The objects are apart: each is under one usage id, and that of an LLM under no other. -/
structure Apart (parent : SpendingParent) : Prop where
  metricsOld : ∀ usageId metrics, parent.usageToMetrics.get? usageId = some metrics →
    metrics < parent.nextObject
  llmsOld : ∀ usageId metrics, parent.llms.get? usageId = some metrics →
    metrics < parent.nextObject
  distinct : ∀ first second metrics, parent.usageToMetrics.get? first = some metrics →
    parent.usageToMetrics.get? second = some metrics → first = second
  llms : ∀ usageId other metrics, parent.llms.get? usageId = some metrics →
    parent.usageToMetrics.get? other = some metrics → other = usageId

def delegateCost (parent : SpendingParent) (agentId : String) : ℚ≥0 :=
  ((parent.subAgents.get? agentId).map SubagentStats.cost).getD 0

/-- What a delegate has cost is under its usage id, or more. -/
structure Sound (parent : SpendingParent) : Prop extends Apart parent where
  delegates : ∀ agentId stats, parent.subAgents.get? agentId = some stats →
    stats.cost ≤ parent.costUnder (delegateUsage agentId)

/-! ## New metrics -/

theorem Apart.notMem (hapart : Apart parent) :
    parent.nextObject ∉ parent.usageToMetrics.values := by
  intro hmem
  obtain ⟨usageId, hget⟩ := Dict.mem_values_iff.mp hmem
  exact absurd (hapart.metricsOld usageId _ hget) (Nat.lt_irrefl _)

theorem setMetrics_combinedCost (hapart : Apart parent) (usageId : String) (cost : ℚ≥0) :
    (parent.setMetrics usageId cost).combinedCost + parent.costUnder usageId =
      parent.combinedCost + cost := by
  have hsum := Dict.sum_values_set parent.usageToMetrics usageId parent.nextObject
    (Function.update parent.accumulatedCost parent.nextObject cost)
  rw [sum_map_update_of_notMem hapart.notMem, Function.update_self] at hsum
  unfold combinedCost costUnder
  rw [← hsum]
  congr 2
  cases hget : parent.usageToMetrics.get? usageId with
  | none => rfl
  | some metrics =>
      have hne : metrics ≠ parent.nextObject := (hapart.metricsOld usageId metrics hget).ne
      simp [hne]

theorem setMetrics_costUnder (hapart : Apart parent) (usageId : String) (cost : ℚ≥0)
    (other : String) : (parent.setMetrics usageId cost).costUnder other =
      if other = usageId then cost else parent.costUnder other := by
  unfold costUnder setMetrics
  rw [Dict.get?_set]
  split
  next => simp
  next =>
    cases hget : parent.usageToMetrics.get? other with
    | none => rfl
    | some metrics =>
        have hne : metrics ≠ parent.nextObject := (hapart.metricsOld other metrics hget).ne
        simp [hne]

theorem Apart.setMetrics (hapart : Apart parent) (usageId : String) (cost : ℚ≥0) :
    Apart (parent.setMetrics usageId cost) where
  metricsOld other metrics hget := by
    rw [SpendingParent.setMetrics, Dict.get?_set] at hget
    split at hget
    next =>
      cases hget
      exact Nat.lt_succ_self _
    next => exact Nat.lt_succ_of_lt (hapart.metricsOld other metrics hget)
  llmsOld other metrics hget := Nat.lt_succ_of_lt (hapart.llmsOld other metrics hget)
  distinct first second metrics hfirst hsecond := by
    rw [SpendingParent.setMetrics, Dict.get?_set] at hfirst hsecond
    split at hfirst <;> split at hsecond
    next heq hother => rw [heq, hother]
    next =>
      cases hfirst
      exact absurd (hapart.metricsOld second _ hsecond) (Nat.lt_irrefl _)
    next =>
      cases hsecond
      exact absurd (hapart.metricsOld first _ hfirst) (Nat.lt_irrefl _)
    next => exact hapart.distinct first second metrics hfirst hsecond
  llms llmUsage other metrics hllm hget := by
    rw [SpendingParent.setMetrics, Dict.get?_set] at hget
    split at hget
    next =>
      cases hget
      exact absurd (hapart.llmsOld llmUsage _ hllm) (Nat.lt_irrefl _)
    next => exact hapart.llms llmUsage other metrics hllm hget

/-- The metrics of a delegate may only be replaced by what it has cost. -/
theorem Sound.setMetrics (hsound : Sound parent) (usageId : String) (cost : ℚ≥0)
    (hdelegate : ∀ agentId stats, delegateUsage agentId = usageId →
      parent.subAgents.get? agentId = some stats → stats.cost ≤ cost) :
    Sound (parent.setMetrics usageId cost) where
  toApart := hsound.toApart.setMetrics usageId cost
  delegates agentId stats hget := by
    rw [setMetrics_costUnder hsound.toApart]
    split
    next heq => exact hdelegate agentId stats heq hget
    next => exact hsound.delegates agentId stats hget

/-! ## The LLMs of the parent -/

theorem costUnder_of_none {usageId : String}
    (hnone : parent.usageToMetrics.get? usageId = none) : parent.costUnder usageId = 0 := by
  rw [costUnder, hnone]
  rfl

theorem delegateUsage_inj {agentId other : String} :
    delegateUsage agentId = delegateUsage other ↔ agentId = other := by
  simp [delegateUsage]

theorem Apart.register (hapart : Apart parent) {usageId : String} {metrics : Nat}
    (hget : parent.usageToMetrics.get? usageId = some metrics) :
    Apart { parent with llms := parent.llms.set usageId metrics } where
  metricsOld := hapart.metricsOld
  llmsOld other found hfound := by
    rw [Dict.get?_set] at hfound
    split at hfound
    next =>
      cases hfound
      exact hapart.metricsOld usageId metrics hget
    next => exact hapart.llmsOld other found hfound
  distinct := hapart.distinct
  llms llmUsage other found hfound hother := by
    rw [Dict.get?_set] at hfound
    split at hfound
    next heq =>
      cases hfound
      rw [heq]
      exact hapart.distinct other usageId metrics hother hget
    next => exact hapart.llms llmUsage other found hfound hother

theorem registerLlm_step {usageId : String} {next : SpendingParent} (hsound : Sound parent)
    (hconserved : parent.Conserved) (hnext : parent.registerLlm usageId = some next) :
    Sound next ∧ next.Conserved := by
  obtain ⟨-, hnext⟩ := Option.ite_none_left_eq_some.mp hnext
  split at hnext
  next metrics hget =>
    cases hnext
    exact ⟨⟨hsound.toApart.register hget, hsound.delegates⟩, hconserved⟩
  next hnone =>
    cases hnext
    have hnew : Sound (parent.setMetrics usageId 0) := by
      apply hsound.setMetrics
      rintro agentId stats rfl hget
      have hle := hsound.delegates agentId stats hget
      rw [costUnder_of_none hnone] at hle
      exact hle
    have hcombined := setMetrics_combinedCost hsound.toApart usageId 0
    rw [costUnder_of_none hnone, add_zero, add_zero] at hcombined
    refine ⟨⟨hnew.toApart.register ?_, hnew.delegates⟩, hcombined.trans hconserved⟩
    rw [setMetrics, Dict.get?_set, if_pos rfl]

/-- The LLM counts into its own metrics, which may be under its usage id no more. -/
theorem completion_combinedCost (hapart : Apart parent) {usageId : String} {metrics : Nat}
    (hllm : parent.llms.get? usageId = some metrics) (cost : ℚ≥0) :
    (parent.usageToMetrics.values.map (Function.update parent.accumulatedCost metrics
        (parent.accumulatedCost metrics + cost))).sum =
      parent.combinedCost +
        if parent.usageToMetrics.get? usageId = parent.llms.get? usageId then cost else 0 := by
  split
  next heq =>
    apply sum_map_update_add (Dict.nodup_values hapart.distinct)
    exact Dict.mem_values_iff.mpr ⟨usageId, heq.trans hllm⟩
  next hne =>
    rw [add_zero]
    apply sum_map_update_of_notMem
    intro hmem
    obtain ⟨other, hother⟩ := Dict.mem_values_iff.mp hmem
    apply hne
    rw [hllm, ← hapart.llms usageId other metrics hllm hother, hother]

theorem Sound.completion (hsound : Sound parent) (metrics : Nat) (cost spent : ℚ≥0) :
    Sound { parent with
      accumulatedCost := Function.update parent.accumulatedCost metrics
        (parent.accumulatedCost metrics + cost)
      spent } where
  toApart := ⟨hsound.metricsOld, hsound.llmsOld, hsound.distinct, hsound.llms⟩
  delegates agentId stats hget := by
    apply (hsound.delegates agentId stats hget).trans
    unfold costUnder
    cases parent.usageToMetrics.get? (delegateUsage agentId) with
    | none => exact le_rfl
    | some object =>
        simp only [Option.map_some, Option.getD_some, Function.update_apply]
        split
        next heq =>
          rw [heq]
          exact le_self_add
        next => exact le_rfl

theorem completion_step {usageId : String} {cost : ℚ≥0} {next : SpendingParent}
    (hsound : Sound parent) (hconserved : parent.Conserved)
    (hnext : parent.completion usageId cost = some next) :
    Sound next ∧ (next.Conserved ↔ parent.isClean (.completion usageId cost)) := by
  obtain ⟨metrics, hllm, rfl⟩ := Option.map_eq_some_iff.mp hnext
  refine ⟨hsound.completion metrics cost _, ?_⟩
  have hcombined := completion_combinedCost hsound.toApart hllm cost
  change _ = parent.spent + cost + parent.subagentsSpent ↔ _
  rw [combinedCost, hcombined, add_right_comm, ← hconserved, add_right_inj]
  simp only [isClean, Bool.or_eq_true, decide_eq_true_eq]
  split
  next heq => simp [heq]
  next hne => simp [hne, eq_comm]

/-! ## Tasks -/

theorem taskUsage_ne (id agentId : String) : delegateUsage agentId ≠ taskUsage id := by
  intro heq
  have hhead := congrArg (fun text => text.toList.head?) heq
  simp [delegateUsage, taskUsage] at hhead

theorem runTask_step (hsound : Sound parent) (hconserved : parent.Conserved) (id : String)
    (stats : SubagentStats) (steps : List SubagentStatsStep) :
    Sound (parent.runTask id stats steps) ∧
      ((parent.runTask id stats steps).Conserved ↔
        parent.costUnder (taskUsage id) = stats.cost) := by
  have hset : Sound (parent.setMetrics (taskUsage id) (stats.run steps).cost) := by
    apply hsound.setMetrics
    intro agentId _ heq
    exact absurd heq (taskUsage_ne id agentId)
  refine ⟨⟨⟨hset.metricsOld, hset.llmsOld, hset.distinct, hset.llms⟩, hset.delegates⟩, ?_⟩
  have hcombined := setMetrics_combinedCost hsound.toApart (taskUsage id) (stats.run steps).cost
  rw [SubagentStats.run_cost] at hcombined
  change (parent.setMetrics (taskUsage id) (stats.run steps).cost).combinedCost =
    parent.spent + (parent.subagentsSpent + subagentCost steps) ↔ _
  rw [SubagentStats.run_cost, ← add_assoc, ← hconserved]
  constructor
  · intro hnext
    rw [hnext] at hcombined
    grind
  · intro heq
    rw [heq] at hcombined
    grind

theorem startTask_step (hsound : Sound parent) (hconserved : parent.Conserved)
    (resume : Option String) (steps : Option (List SubagentStatsStep)) :
    Sound (parent.startTask resume steps) ∧
      ((parent.startTask resume steps).Conserved ↔
        parent.isClean (.startTask resume steps)) := by
  cases steps with
  | none => exact ⟨hsound, iff_of_true hconserved rfl⟩
  | some steps =>
      cases hopen : parent.openTask resume with
      | none =>
          simp only [startTask, isClean, hopen]
          exact ⟨hsound, iff_of_true hconserved rfl⟩
      | some opened =>
          simp only [startTask, isClean, hopen]
          obtain ⟨hnext, hiff⟩ := runTask_step hsound hconserved opened.1 opened.2 steps
          refine ⟨hnext, hiff.trans ?_⟩
          simp

/-! ## Delegates -/

/-- A change of the delegates, none of which has cost more than it should. -/
theorem Sound.withSubAgents (hsound : Sound parent) (subAgents : Dict String SubagentStats)
    (subagentsSpent : ℚ≥0) (hdelegates : ∀ agentId stats, subAgents.get? agentId = some stats →
      stats.cost ≤ parent.costUnder (delegateUsage agentId)) :
    Sound { parent with subAgents, subagentsSpent } where
  toApart := ⟨hsound.metricsOld, hsound.llmsOld, hsound.distinct, hsound.llms⟩
  delegates := hdelegates

theorem get?_spawn (agentIds : List String) (agents : Dict String SubagentStats) (agentId : String)
    {stats : SubagentStats}
    (hget : (agentIds.foldl (fun agents id => agents.set id {}) agents).get? agentId =
      some stats) : agents.get? agentId = some stats ∨ stats = {} := by
  induction agentIds generalizing agents with
  | nil => exact .inl hget
  | cons first rest ih =>
      rcases ih (agents.set first {}) hget with hold | hnew
      · rw [Dict.get?_set] at hold
        split at hold
        next => exact .inr (Option.some.inj hold).symm
        next => exact .inl hold
      · exact .inr hnew

theorem Sound.spawn (hsound : Sound parent) (agentIds : List String) :
    Sound (parent.spawn agentIds) := by
  apply hsound.withSubAgents
  intro agentId stats hget
  rcases get?_spawn agentIds parent.subAgents agentId hget with hold | rfl
  · exact hsound.delegates agentId stats hold
  · exact zero_le

theorem spawnAgents_eq (maxChildren : Nat) (ids : List String)
    (agentTypes : Option (List String)) (failure : Option (Nat × String)) :
    ∃ agentIds, (parent.spawnAgents maxChildren ids agentTypes failure).2 =
      parent.spawn agentIds := by
  unfold spawnAgents
  split
  · exact ⟨[], rfl⟩
  split
  · exact ⟨[], rfl⟩
  split
  · exact ⟨[], rfl⟩
  cases failure with
  | none => exact ⟨ids, rfl⟩
  | some failed => exact ⟨ids.take failed.1, rfl⟩

/-- The stats of a delegate, when the delegates of a request have run. -/
theorem get?_runDelegates {tasks : List (String × List SubagentStatsStep)}
    (hnodup : (tasks.map Prod.fst).Nodup) (agents : Dict String SubagentStats)
    (agentId : String) :
    (tasks.foldl runDelegate agents).get? agentId =
      (agents.get? agentId).map fun stats =>
        ((tasks.find? fun task => task.1 = agentId).map Prod.snd).elim stats stats.run := by
  induction tasks generalizing agents with
  | nil => simp
  | cons task rest ih =>
      obtain ⟨hnew, hrest⟩ := List.nodup_cons.mp hnodup
      rw [List.foldl_cons, ih hrest]
      by_cases htask : task.1 = agentId
      · have hnone : rest.find? (fun other => other.1 = agentId) = none := by
          apply List.find?_eq_none.mpr
          intro other hother heq
          apply hnew
          rw [htask, ← of_decide_eq_true heq]
          exact List.mem_map_of_mem hother
        rw [hnone, List.find?_cons_of_pos (by simpa using htask)]
        cases hget : agents.get? agentId with
        | none => simp [runDelegate, htask, hget]
        | some stats => simp [runDelegate, htask, hget, Dict.get?_set]
      · rw [List.find?_cons_of_neg (by simpa using htask)]
        congr 1
        unfold runDelegate
        split
        next => rfl
        next => rw [Dict.get?_set, if_neg (Ne.symm htask)]

/-- Agents have been synced, each under a usage id of its own. -/
structure Synced (parent : SpendingParent) (agentIds : List String) (synced : SpendingParent) :
    Prop where
  apart : Apart synced
  subAgents : synced.subAgents = parent.subAgents
  spent : synced.spent = parent.spent
  subagentsSpent : synced.subagentsSpent = parent.subagentsSpent
  here : ∀ agentId ∈ agentIds,
    synced.costUnder (delegateUsage agentId) = parent.delegateCost agentId
  elsewhere : ∀ usageId, (∀ agentId ∈ agentIds, usageId ≠ delegateUsage agentId) →
    synced.costUnder usageId = parent.costUnder usageId
  combined : synced.combinedCost +
      (agentIds.map fun agentId => parent.costUnder (delegateUsage agentId)).sum =
    parent.combinedCost + (agentIds.map parent.delegateCost).sum

theorem synced_foldl {agentIds : List String} (hnodup : agentIds.Nodup) (hapart : Apart parent)
    (hknown : ∀ agentId ∈ agentIds, (parent.subAgents.get? agentId).isSome) :
    Synced parent agentIds (agentIds.foldl syncDelegate parent) := by
  induction agentIds generalizing parent with
  | nil => exact ⟨hapart, rfl, rfl, rfl, nofun, fun _ _ => rfl, rfl⟩
  | cons first rest ih =>
      obtain ⟨hfirst, hrest⟩ := List.nodup_cons.mp hnodup
      obtain ⟨stats, hstats⟩ := Option.isSome_iff_exists.mp (hknown first List.mem_cons_self)
      have hsync : parent.syncDelegate first =
          parent.setMetrics (delegateUsage first) (parent.delegateCost first) := by
        rw [syncDelegate, delegateCost, hstats]
        rfl
      have hunder := setMetrics_costUnder hapart (delegateUsage first)
        (parent.delegateCost first)
      have hcombined := setMetrics_combinedCost hapart (delegateUsage first)
        (parent.delegateCost first)
      have hsynced := ih hrest (hapart.setMetrics (delegateUsage first)
        (parent.delegateCost first)) fun agentId hmem => hknown agentId (.tail _ hmem)
      rw [List.foldl_cons, hsync]
      have hlater : ∀ agentId ∈ rest, delegateUsage agentId ≠ delegateUsage first := by
        intro agentId hmem heq
        rw [delegateUsage_inj.mp heq] at hmem
        exact hfirst hmem
      refine ⟨hsynced.apart, hsynced.subAgents, hsynced.spent, hsynced.subagentsSpent, ?_, ?_, ?_⟩
      · intro agentId hmem
        rcases List.mem_cons.mp hmem with rfl | hmem
        · rw [hsynced.elsewhere _ fun other hother => (hlater other hother).symm, hunder,
            if_pos rfl]
        · exact hsynced.here agentId hmem
      · intro usageId hother
        rw [hsynced.elsewhere usageId fun agentId hmem => hother agentId (.tail _ hmem), hunder,
          if_neg (hother first List.mem_cons_self)]
      · have hsame : (rest.map fun agentId =>
            (parent.setMetrics (delegateUsage first) (parent.delegateCost first)).costUnder
              (delegateUsage agentId)) =
            rest.map fun agentId => parent.costUnder (delegateUsage agentId) := by
          apply List.map_congr_left
          intro agentId hmem
          rw [hunder, if_neg (hlater agentId hmem)]
        have htotal := hsynced.combined
        rw [hsame] at htotal
        rw [List.map_cons, List.map_cons, List.sum_cons, List.sum_cons, add_left_comm, htotal,
          ← add_assoc, add_comm (parent.costUnder _), hcombined, add_assoc]
        rfl

theorem delegateCost_runDelegates (tasks : Dict String (List SubagentStatsStep))
    {task : String × List SubagentStatsStep} (htask : task ∈ tasks.entries)
    (hknown : (parent.subAgents.get? task.1).isSome) :
    (parent.runDelegates tasks.entries).delegateCost task.1 =
      parent.delegateCost task.1 + subagentCost task.2 := by
  obtain ⟨stats, hstats⟩ := Option.isSome_iff_exists.mp hknown
  have hfound : ((tasks.entries.find? fun other => other.1 = task.1).map Prod.snd) = some task.2 :=
    Dict.get?_of_mem_entries htask
  rw [delegateCost, delegateCost, hstats, runDelegates,
    get?_runDelegates tasks.nodup parent.subAgents task.1, hstats, hfound]
  exact stats.run_cost task.2

theorem delegateCost_le (hsound : Sound parent) (agentId : String) :
    parent.delegateCost agentId ≤ parent.costUnder (delegateUsage agentId) := by
  unfold delegateCost
  cases hget : parent.subAgents.get? agentId with
  | none => exact zero_le
  | some stats => exact hsound.delegates agentId stats hget

theorem isSome_of_accepts {tasks : Dict String (List SubagentStatsStep)}
    (haccepts : parent.accepts tasks) {agentId : String} (hmem : agentId ∈ tasks.keys) :
    (parent.subAgents.get? agentId).isSome := by
  rw [accepts, Bool.and_eq_true, List.all_eq_true] at haccepts
  exact Dict.isSome_get?_iff.mpr (of_decide_eq_true (haccepts.2 agentId hmem))

theorem synced_delegateTasks (hapart : Apart parent)
    {tasks : Dict String (List SubagentStatsStep)} (haccepts : parent.accepts tasks) :
    Synced (parent.runDelegates tasks.entries) tasks.keys (parent.delegateTasks tasks) := by
  have hran : Apart (parent.runDelegates tasks.entries) :=
    ⟨hapart.metricsOld, hapart.llmsOld, hapart.distinct, hapart.llms⟩
  have hnodup : tasks.keys.Nodup := tasks.nodup
  rw [delegateTasks, if_pos haccepts]
  apply synced_foldl hnodup hran
  intro agentId hmem
  rw [runDelegates, get?_runDelegates tasks.nodup, Option.isSome_map]
  exact isSome_of_accepts haccepts hmem

theorem Sound.delegateTasks (hsound : Sound parent)
    {tasks : Dict String (List SubagentStatsStep)} (haccepts : parent.accepts tasks) :
    Sound (parent.delegateTasks tasks) := by
  have hsynced := synced_delegateTasks hsound.toApart haccepts
  refine ⟨hsynced.apart, fun agentId stats hstats => ?_⟩
  rw [hsynced.subAgents] at hstats
  by_cases hmem : agentId ∈ tasks.keys
  · rw [hsynced.here agentId hmem, delegateCost, hstats]
    exact le_rfl
  · have hunder := hsynced.elsewhere (delegateUsage agentId) fun other hother heq => by
      rw [delegateUsage_inj.mp heq] at hmem
      exact hmem hother
    -- An agent that is not in the request has not run.
    have hnone : (tasks.entries.find? fun other => other.1 = agentId).map Prod.snd = none :=
      Dict.get?_eq_none_iff.mpr hmem
    rw [runDelegates, get?_runDelegates tasks.nodup, hnone] at hstats
    obtain ⟨old, hget, rfl⟩ := Option.map_eq_some_iff.mp hstats
    rw [hunder]
    exact hsound.delegates agentId old hget

/-- What the agents have spent by now comes in with their metrics. -/
theorem sum_delegateCost_runDelegates {tasks : Dict String (List SubagentStatsStep)}
    (haccepts : parent.accepts tasks) :
    (tasks.keys.map (parent.runDelegates tasks.entries).delegateCost).sum =
      (tasks.keys.map parent.delegateCost).sum +
        (tasks.entries.map fun task => subagentCost task.2).sum := by
  unfold Dict.keys
  rw [List.map_map, List.map_map, ← List.sum_map_add]
  congr 1
  apply List.map_congr_left
  intro task htask
  exact delegateCost_runDelegates tasks htask
    (isSome_of_accepts haccepts (List.mem_map_of_mem htask))

theorem delegateTasks_conserved_iff (hapart : Apart parent) (hconserved : parent.Conserved)
    {tasks : Dict String (List SubagentStatsStep)} (haccepts : parent.accepts tasks) :
    (parent.delegateTasks tasks).Conserved ↔
      (tasks.keys.map fun agentId => parent.costUnder (delegateUsage agentId)).sum =
        (tasks.keys.map parent.delegateCost).sum := by
  have hsynced := synced_delegateTasks hapart haccepts
  have hcombined := hsynced.combined
  rw [sum_delegateCost_runDelegates haccepts] at hcombined
  change _ + (tasks.keys.map fun agentId => parent.costUnder (delegateUsage agentId)).sum =
    parent.combinedCost + _ at hcombined
  unfold Conserved
  rw [hsynced.spent, hsynced.subagentsSpent]
  change _ = parent.spent + (parent.subagentsSpent +
    (tasks.entries.map fun task => subagentCost task.2).sum) ↔ _
  rw [← add_assoc, ← hconserved]
  constructor
  · intro hnext
    rw [hnext] at hcombined
    grind
  · intro heq
    rw [heq] at hcombined
    grind

theorem delegateTasks_step (hsound : Sound parent) (hconserved : parent.Conserved)
    (tasks : Dict String (List SubagentStatsStep)) :
    Sound (parent.delegateTasks tasks) ∧
      ((parent.delegateTasks tasks).Conserved ↔ parent.isClean (.delegateTasks tasks)) := by
  by_cases haccepts : parent.accepts tasks
  · refine ⟨hsound.delegateTasks haccepts,
      (delegateTasks_conserved_iff hsound.toApart hconserved haccepts).trans ?_⟩
    have hclean := sum_eq_sum_iff_of_le fun agentId (_ : agentId ∈ tasks.keys) =>
      delegateCost_le hsound agentId
    refine hclean.trans ?_
    simp [isClean, haccepts, delegateCost]
  · rw [delegateTasks, if_neg haccepts]
    refine ⟨hsound, iff_of_true hconserved ?_⟩
    simp [isClean, haccepts]

/-! ## Persistence -/

theorem restart_values : parent.restart.usageToMetrics.values =
    List.range parent.persisted.values.length := by
  unfold restart Dict.values
  rw [List.length_map]
  exact List.map_snd_zip (by simp [Dict.keys])

theorem restart_combinedCost : parent.restart.combinedCost = parent.persisted.values.sum := by
  unfold combinedCost
  rw [restart_values]
  exact congrArg List.sum (map_getD_range parent.persisted.values 0)

theorem sound_restart : Sound parent.restart where
  metricsOld usageId metrics hget := by
    have hmem : metrics ∈ parent.restart.usageToMetrics.values :=
      Dict.mem_values_iff.mpr ⟨usageId, hget⟩
    rw [restart_values, List.mem_range, Dict.values, List.length_map] at hmem
    exact hmem
  llmsOld := nofun
  distinct first second metrics hfirst hsecond := by
    apply Dict.eq_of_get?_eq _ hfirst hsecond
    rw [restart_values]
    exact List.nodup_range
  llms := nofun
  delegates := nofun

theorem apply_step (maxChildren : Nat) {label : SpendingStep} {next : SpendingParent}
    (hsound : Sound parent) (hconserved : parent.Conserved)
    (hnext : parent.apply maxChildren label = some next) :
    Sound next ∧ (next.Conserved ↔ parent.isClean label) := by
  cases label with
  | registerLlm usageId =>
      obtain ⟨hsoundNext, hconservedNext⟩ := registerLlm_step hsound hconserved hnext
      exact ⟨hsoundNext, iff_of_true hconservedNext rfl⟩
  | completion usageId cost => exact completion_step hsound hconserved hnext
  | startTask resume steps =>
      cases hnext
      exact startTask_step hsound hconserved resume steps
  | spawnAgents ids agentTypes failure =>
      cases hnext
      obtain ⟨agentIds, heq⟩ := spawnAgents_eq maxChildren ids agentTypes failure
      rw [heq]
      exact ⟨hsound.spawn agentIds, iff_of_true hconserved rfl⟩
  | delegateTasks tasks =>
      cases hnext
      exact delegateTasks_step hsound hconserved tasks
  | save =>
      cases hnext
      refine ⟨⟨⟨hsound.metricsOld, hsound.llmsOld, hsound.distinct, hsound.llms⟩,
        hsound.delegates⟩, iff_of_true hconserved rfl⟩
  | restart =>
      cases hnext
      refine ⟨sound_restart, ?_⟩
      unfold Conserved
      rw [restart_combinedCost]
      change _ = parent.spent + parent.subagentsSpent ↔ _
      rw [← hconserved]
      simp [isClean]

/-- Spending is conserved as long as each step is clean, and a step that is not ends it. -/
theorem conserved_of_runs (maxChildren : Nat) {trace : List Unit} {parent : SpendingParent}
    (hruns : ((system maxChildren).restrict isClean).Runs {} trace parent) :
    parent.Conserved ∧ ∀ label next, parent.apply maxChildren label = some next →
      (next.Conserved ↔ parent.isClean label) := by
  have hkept : Sound parent ∧ parent.Conserved := by
    apply hruns.invariant_restrict fun _ parent => Sound parent ∧ parent.Conserved
    · exact ⟨⟨⟨nofun, nofun, nofun, nofun⟩, nofun⟩, (add_zero _).symm⟩
    · intro _ parent label next _ hkept hclean hstep
      obtain ⟨middle, hnext, heq⟩ := Option.map_eq_some_iff.mp hstep
      cases heq
      obtain ⟨hsound, hiff⟩ := apply_step maxChildren hkept.1 hkept.2 hnext
      exact ⟨hsound, hiff.mpr hclean⟩
  exact ⟨hkept.2, fun label next hnext => (apply_step maxChildren hkept.1 hkept.2 hnext).2⟩

/-- The parent, a task that is resumed, and a delegate, up to a restart. -/
theorem conserved_of_runs_restarted : ∃ trace parent,
    ((system 5).restrict isClean).Runs {} trace parent ∧ parent.subagentsSpent = 7 ∧
      parent.Conserved := by
  have hresult : (((system 5).restrict isClean).run {}
      [.registerLlm "agent", .completion "agent" 3,
        .startTask none (some [.completion 1, .save]),
        .startTask (some "task_00000001") (some [.completion 2, .save]),
        .spawnAgents ["lodging"] none none,
        .delegateTasks ⟨[("lodging", [.completion 4])], by decide⟩, .save, .restart]).map
      (fun result => result.1.subagentsSpent) = some 7 := by decide +kernel
  obtain ⟨⟨parent, trace⟩, hrun, hend⟩ := Option.map_eq_some_iff.mp hresult
  have hruns := TransitionSystem.Runs.of_run _ hrun
  exact ⟨trace, parent, hruns, hend, (conserved_of_runs 5 hruns).1⟩

/-- After a restart the first task has the id of the first task before. -/
theorem not_conserved_after_restart : ¬ ∀ trace parent,
    (system 5).Runs {} trace parent → parent.Conserved := by
  intro hall
  have hresult : ((system 5).run {}
      [.startTask none (some [.completion 1, .save]), .save, .restart,
        .startTask none (some [.completion 2, .save])]).map
      (fun result => (result.1.combinedCost, result.1.spent + result.1.subagentsSpent)) =
      some (2, 3) := by decide +kernel
  obtain ⟨⟨parent, trace⟩, hrun, hend⟩ := Option.map_eq_some_iff.mp hresult
  have hconserved := hall trace parent (.of_run _ hrun)
  obtain ⟨hcombined, hspent⟩ := Prod.mk.inj hend
  exact absurd (hcombined.symm.trans (hconserved.trans hspent)) (by decide +kernel)

end SpendingParent

end ShuttleFlow
