import ShuttleFlow.Library.Sums
import ShuttleFlow.Llm.LlmRegistry

/-! # Whether all spending is tracked

A registered LLM counts into the metrics that the stats hold for its usage id. What other LLMs
count into is only known as far as it bears on their registration.
-/

namespace ShuttleFlow

namespace LlmWorld

variable {Usage : Type} [DecidableEq Usage]

def Registered (world : LlmWorld Usage) (llm : Nat) : Prop :=
  ∃ usageId, world.usageToLlm.get? usageId = some llm

/-- Whether the telemetry is the one of a registered LLM. -/
def InUse (world : LlmWorld Usage) (telemetry : Nat) : Prop :=
  ∃ usageId llm object, world.usageToLlm.get? usageId = some llm ∧
    world.llms llm = some object ∧ object.telemetry = telemetry

/-- The invariant of clean runs. -/
structure Kept (restored : ℚ) (world : LlmWorld Usage) : Prop where
  metricsOld : ∀ metrics ∈ world.usageToMetrics.values, metrics < world.nextObject
  llmOld : ∀ llm object, world.llms llm = some object → llm < world.nextObject ∧
    object.metrics < world.nextObject ∧ object.telemetry < world.nextObject
  registered : ∀ usageId llm, world.usageToLlm.get? usageId = some llm →
    ∃ object, world.llms llm = some object ∧ object.usageId = usageId ∧
      world.usageToMetrics.get? usageId = some object.metrics ∧
      world.telemetryMetrics object.telemetry = object.metrics
  nodup : world.usageToMetrics.values.Nodup
  /-- The registry knows the metrics of a copy, or the stats do. -/
  copied : ∀ llm object, world.llms llm = some object → ¬ world.Registered llm →
    world.InUse object.telemetry →
    object.metrics ∈ world.metricsIds ∨ object.metrics ∈ world.usageToMetrics.values
  apart : ∀ llm object, world.llms llm = some object → ¬ world.Registered llm →
    ¬ world.InUse object.telemetry → world.telemetryMetrics object.telemetry = object.metrics
  restoredOnce : ∀ usageId ∈ world.restoredUsageIds, (world.usageToLlm.get? usageId).isSome
  total : world.combinedCost = restored + world.spent

variable {restored : ℚ} {world : LlmWorld Usage} {llm : Nat} {object : LlmObject Usage}

theorem isRegistered_iff : world.isRegistered llm ↔ world.Registered llm := by
  rw [isRegistered, decide_eq_true_iff, Dict.mem_values_iff]
  rfl

/-- An LLM of a usage id that is not registered is not registered. -/
theorem Kept.not_registered (hkept : Kept restored world) (hllm : world.llms llm = some object)
    (hnew : world.usageToLlm.get? object.usageId = none) : ¬ world.Registered llm := by
  rintro ⟨usageId, hget⟩
  obtain ⟨found, hfound, rfl, -⟩ := hkept.registered usageId llm hget
  rw [hllm] at hfound
  cases hfound
  rw [hnew] at hget
  cases hget

theorem Kept.metrics_mem (hkept : Kept restored world) (hllm : world.llms llm = some object)
    (hregistered : world.Registered llm) :
    object.metrics ∈ world.usageToMetrics.values ∧
      world.telemetryMetrics object.telemetry = object.metrics := by
  obtain ⟨usageId, hget⟩ := hregistered
  obtain ⟨found, hfound, -, hmetrics, htelemetry⟩ := hkept.registered usageId llm hget
  rw [hllm] at hfound
  cases hfound
  exact ⟨Dict.mem_values_iff.mpr ⟨usageId, hmetrics⟩, htelemetry⟩

theorem Kept.tracked (hkept : Kept restored world) : Tracked restored world where
  recorded usageId llm object hget hllm := by
    obtain ⟨found, hfound, -, hmetrics, htelemetry⟩ := hkept.registered usageId llm hget
    rw [hllm] at hfound
    cases hfound
    rw [hmetrics, htelemetry]
  distinct first second metrics hfirst hsecond :=
    Dict.eq_of_get?_eq hkept.nodup hfirst hsecond
  total := hkept.total

/-- A new object is not among the metrics of the stats. -/
theorem Kept.fresh_metrics (hkept : Kept restored world) {fresh : Nat}
    (hfresh : world.nextObject ≤ fresh) : fresh ∉ world.usageToMetrics.values := by
  intro hmem
  exact absurd (hkept.metricsOld fresh hmem) (by omega)

omit [DecidableEq Usage] in
theorem combinedCost_congr {cost : Nat → ℚ}
    (hcost : ∀ metrics ∈ world.usageToMetrics.values,
      cost metrics = world.accumulatedCost metrics) :
    (world.usageToMetrics.values.map cost).sum = world.combinedCost :=
  congrArg List.sum (List.map_congr_left hcost)

/-- An LLM that is not registered may be replaced, and objects may be added. -/
theorem Kept.replace (hkept : Kept restored world) (hnew : ¬ world.Registered llm)
    {telemetryMetrics : Nat → Nat} {accumulatedCost : Nat → ℚ} {nextObject : Nat}
    (hlater : world.nextObject ≤ nextObject)
    (hold : llm < nextObject ∧ object.metrics < nextObject ∧ object.telemetry < nextObject)
    (htelemetry : ∀ telemetry < world.nextObject,
      telemetryMetrics telemetry = world.telemetryMetrics telemetry)
    (hcost : ∀ metrics < world.nextObject,
      accumulatedCost metrics = world.accumulatedCost metrics)
    (hcopied : world.InUse object.telemetry →
      object.metrics ∈ world.metricsIds ∨ object.metrics ∈ world.usageToMetrics.values)
    (hapart : ¬ world.InUse object.telemetry →
      telemetryMetrics object.telemetry = object.metrics) :
    Kept restored
      { world with
        llms := Function.update world.llms llm (some object)
        telemetryMetrics, accumulatedCost, nextObject } := by
  have hsame : ∀ other, world.Registered other →
      Function.update world.llms llm (some object) other = world.llms other := by
    intro other hother
    apply Function.update_of_ne
    rintro rfl
    exact hnew hother
  have huse : ∀ telemetry, (∃ usageId other found, world.usageToLlm.get? usageId = some other ∧
      Function.update world.llms llm (some object) other = some found ∧
      found.telemetry = telemetry) ↔ world.InUse telemetry := by
    intro telemetry
    unfold InUse
    apply exists_congr
    intro usageId
    apply exists_congr
    intro other
    apply exists_congr
    intro found
    apply and_congr_right
    intro hget
    rw [hsame other ⟨usageId, hget⟩]
  have hcases : ∀ other found, Function.update world.llms llm (some object) other = some found →
      other = llm ∧ found = object ∨ world.llms other = some found := by
    intro other found hfound
    rw [Function.update_apply] at hfound
    split at hfound
    next hother =>
      cases hfound
      exact .inl ⟨hother, rfl⟩
    next => exact .inr hfound
  refine ⟨?_, ?_, ?_, hkept.nodup, ?_, ?_, hkept.restoredOnce, ?_⟩
  · intro metrics hmem
    exact (hkept.metricsOld metrics hmem).trans_le hlater
  · intro other found hfound
    rcases hcases other found hfound with ⟨rfl, rfl⟩ | hfound
    · exact hold
    · obtain ⟨hother, hmetrics, htelemetry⟩ := hkept.llmOld other found hfound
      exact ⟨hother.trans_le hlater, hmetrics.trans_le hlater, htelemetry.trans_le hlater⟩
  · intro usageId other hget
    obtain ⟨found, hfound, husage, hmetrics, htarget⟩ := hkept.registered usageId other hget
    refine ⟨found, ?_, husage, hmetrics, ?_⟩
    · exact (hsame other ⟨usageId, hget⟩).trans hfound
    · exact (htelemetry _ (hkept.llmOld other found hfound).2.2).trans htarget
  · intro other found hfound hother hinUse
    replace hinUse := (huse _).mp hinUse
    rcases hcases other found hfound with ⟨rfl, rfl⟩ | hfound
    · exact hcopied hinUse
    · exact hkept.copied other found hfound hother hinUse
  · intro other found hfound hother hunused
    replace hunused := fun hinUse => hunused ((huse _).mpr hinUse)
    rcases hcases other found hfound with ⟨rfl, rfl⟩ | hfound
    · exact hapart hunused
    · rw [← hkept.apart other found hfound hother hunused]
      exact htelemetry _ (hkept.llmOld other found hfound).2.2
  · rw [← hkept.total]
    have hsum : (world.usageToMetrics.values.map accumulatedCost).sum = world.combinedCost := by
      apply combinedCost_congr
      intro metrics hmem
      exact hcost metrics (hkept.metricsOld metrics hmem)
    exact hsum

/-- A telemetry that is in use belongs to an LLM of before. -/
theorem Kept.lt_of_inUse (hkept : Kept restored world) {telemetry : Nat}
    (hinUse : world.InUse telemetry) : telemetry < world.nextObject := by
  obtain ⟨usageId, llm, object, -, hllm, rfl⟩ := hinUse
  exact (hkept.llmOld llm object hllm).2.2

theorem Kept.lt_of_registered (hkept : Kept restored world) (hregistered : world.Registered llm) :
    llm < world.nextObject := by
  obtain ⟨usageId, hget⟩ := hregistered
  obtain ⟨object, hllm, -⟩ := hkept.registered usageId llm hget
  exact (hkept.llmOld llm object hllm).1

theorem Kept.construct (hkept : Kept restored world) (usageId : Usage) :
    Kept restored (world.construct usageId) := by
  apply hkept.replace
  · intro hregistered
    have := hkept.lt_of_registered hregistered
    omega
  · exact Nat.le_add_right ..
  · refine ⟨?_, ?_, ?_⟩
    · omega
    · dsimp only
      omega
    · dsimp only
      omega
  · intro telemetry hold
    apply Function.update_of_ne
    omega
  · intro metrics hold
    apply Function.update_of_ne
    omega
  · intro hinUse
    have : world.nextObject + 1 < world.nextObject := hkept.lt_of_inUse hinUse
    omega
  · intro _
    exact Function.update_self ..

/-- A copy of a registered LLM shares the metrics of the stats. -/
theorem Kept.modelCopy (hkept : Kept restored world) (hllm : world.llms llm = some object)
    (usageId : Usage) : Kept restored (world.modelCopy object usageId) := by
  obtain ⟨-, hmetrics, htelemetry⟩ := hkept.llmOld llm object hllm
  apply hkept.replace
  · intro hregistered
    have := hkept.lt_of_registered hregistered
    omega
  · exact Nat.le_succ _
  · exact ⟨Nat.lt_succ_self _, Nat.lt_succ_of_lt hmetrics, Nat.lt_succ_of_lt htelemetry⟩
  · exact fun _ _ => rfl
  · exact fun _ _ => rfl
  · intro hinUse
    by_cases hregistered : world.Registered llm
    · exact .inr (hkept.metrics_mem hllm hregistered).1
    · exact hkept.copied llm object hllm hregistered hinUse
  · intro hunused
    by_cases hregistered : world.Registered llm
    · exact (hkept.metrics_mem hllm hregistered).2
    · exact hkept.apart llm object hllm hregistered hunused

theorem Kept.resetMetrics (hkept : Kept restored world) (hllm : world.llms llm = some object)
    (hnew : ¬ world.Registered llm) : Kept restored (world.resetMetrics llm object).1 := by
  obtain ⟨hold, -, -⟩ := hkept.llmOld llm object hllm
  apply hkept.replace hnew
  · exact Nat.le_add_right ..
  · refine ⟨?_, ?_, ?_⟩
    · omega
    · dsimp only
      omega
    · dsimp only
      omega
  · intro telemetry hold
    apply Function.update_of_ne
    omega
  · intro metrics hold
    apply Function.update_of_ne
    omega
  · intro hinUse
    have : world.nextObject + 1 < world.nextObject := hkept.lt_of_inUse hinUse
    omega
  · intro _
    exact Function.update_self ..

/-- The registry remembers further metrics. -/
theorem Kept.remember (hkept : Kept restored world) (metricsId : Nat) :
    Kept restored { world with metricsIds := metricsId :: world.metricsIds } :=
  { hkept with
    copied llm object hllm hnew hinUse :=
      (hkept.copied llm object hllm hnew hinUse).imp_left (List.mem_cons_of_mem _) }

/-- An LLM that may be registered. -/
structure Ready (world : LlmWorld Usage) (llm : Nat) (object : LlmObject Usage) : Prop where
  llms : world.llms llm = some object
  new : world.usageToLlm.get? object.usageId = none
  unused : ¬ world.InUse object.telemetry
  target : world.telemetryMetrics object.telemetry = object.metrics
  known : object.metrics ∈ world.metricsIds
  notMem : object.metrics ∉ world.usageToMetrics.values
  /-- Where the metrics become those of a new usage id, nothing was counted yet. -/
  unspent : (world.usageToMetrics.get? object.usageId).isSome ∨
    world.accumulatedCost object.metrics = 0

/-- Metrics that the registry does not know, nor the stats, are those of no registered LLM. -/
theorem Kept.not_inUse (hkept : Kept restored world) (hllm : world.llms llm = some object)
    (hnew : ¬ world.Registered llm) (hunknown : object.metrics ∉ world.metricsIds)
    (hmem : object.metrics ∉ world.usageToMetrics.values) : ¬ world.InUse object.telemetry := by
  intro hinUse
  rcases hkept.copied llm object hllm hnew hinUse with hknown | hstats
  · exact hunknown hknown
  · exact hmem hstats

/-- Nobody uses the telemetry that is made anew. -/
theorem Kept.not_inUse_resetMetrics (hkept : Kept restored world)
    (hnew : ¬ world.Registered llm) :
    ¬ (world.resetMetrics llm object).1.InUse (world.nextObject + 1) := by
  rintro ⟨usageId, other, found, hget, hfound, htelemetry⟩
  have hother : other ≠ llm := by
    rintro rfl
    exact hnew ⟨usageId, hget⟩
  have hfound : world.llms other = some found :=
    (Function.update_of_ne hother ..).symm.trans hfound
  have := (hkept.llmOld other found hfound).2.2
  omega

/-- After a clean check of its metrics an LLM is ready. -/
theorem Kept.ready (hkept : Kept restored world) (hllm : world.llms llm = some object)
    (hnew : world.usageToLlm.get? object.usageId = none) {idReused : Bool}
    (hclean : world.registersCleanly object idReused) :
    Kept restored (world.ensureIndependentMetrics llm object idReused).1 ∧
      Ready (world.ensureIndependentMetrics llm object idReused).1 llm
        (world.ensureIndependentMetrics llm object idReused).2 := by
  have hunregistered := hkept.not_registered hllm hnew
  by_cases hreset : idReused || object.metrics ∈ world.metricsIds
  · have hcheck : world.ensureIndependentMetrics llm object idReused =
        ({ (world.resetMetrics llm object).1 with
            metricsIds := world.nextObject :: world.metricsIds },
          (world.resetMetrics llm object).2) := by
      unfold ensureIndependentMetrics
      rw [if_pos hreset]
      rfl
    rw [hcheck]
    have hreplaced := hkept.resetMetrics hllm hunregistered
    refine ⟨hreplaced.remember _, Function.update_self .., hnew, ?_, Function.update_self ..,
      List.mem_cons_self, ?_, .inr (Function.update_self ..)⟩
    · exact hkept.not_inUse_resetMetrics hunregistered
    · exact hkept.fresh_metrics le_rfl
  · have hcheck : world.ensureIndependentMetrics llm object idReused =
        ({ world with metricsIds := object.metrics :: world.metricsIds }, object) := by
      unfold ensureIndependentMetrics
      rw [if_neg hreset]
    rw [hcheck]
    have hunknown : object.metrics ∉ world.metricsIds := fun hknown =>
      hreset (by simp [hknown])
    have hrest := (Bool.or_eq_true_iff.mp (Bool.and_eq_true_iff.mp hclean).2).resolve_left hreset
    rw [Bool.and_eq_true, Bool.or_eq_true, decide_eq_true_iff, decide_eq_true_iff] at hrest
    obtain ⟨hmem, hunspent⟩ := hrest
    have hunused := hkept.not_inUse hllm hunregistered hunknown hmem
    refine ⟨hkept.remember _, hllm, hnew, hunused, ?_, List.mem_cons_self, hmem, hunspent⟩
    exact hkept.apart llm object hllm hunregistered hunused

theorem Ready.not_registered (hready : Ready world llm object) (hkept : Kept restored world) :
    ¬ world.Registered llm :=
  hkept.not_registered hready.llms hready.new

/-- What a registration makes of the registry and the stats. -/
def enroll (world : LlmWorld Usage) (llm : Nat) (object : LlmObject Usage) (metrics : Nat)
    (usageToMetrics : Dict Usage Nat) (restoredUsageIds : List Usage) : LlmWorld Usage :=
  { world with
    llms := Function.update world.llms llm (some { object with metrics })
    telemetryMetrics := Function.update world.telemetryMetrics object.telemetry metrics
    usageToLlm := world.usageToLlm.set object.usageId llm
    usageToMetrics, restoredUsageIds }

section Enroll

variable {metrics : Nat} {usageToMetrics : Dict Usage Nat} {restoredUsageIds : List Usage}

theorem get?_enroll (usageId : Usage) :
    (world.enroll llm object metrics usageToMetrics restoredUsageIds).usageToLlm.get? usageId =
      if usageId = object.usageId then some llm else world.usageToLlm.get? usageId :=
  Dict.get?_set ..

theorem llms_enroll_self :
    (world.enroll llm object metrics usageToMetrics restoredUsageIds).llms llm =
      some { object with metrics } :=
  Function.update_self ..

theorem llms_enroll_of_ne {other : Nat} (hother : other ≠ llm) :
    (world.enroll llm object metrics usageToMetrics restoredUsageIds).llms other =
      world.llms other :=
  Function.update_of_ne hother ..

/-- An LLM that is still not registered is as it was. -/
theorem Ready.of_not_registered_enroll (hready : Ready world llm object) {other : Nat}
    (hother :
      ¬ (world.enroll llm object metrics usageToMetrics restoredUsageIds).Registered other) :
    other ≠ llm ∧ ¬ world.Registered other := by
  refine ⟨?_, ?_⟩
  · rintro rfl
    apply hother
    refine ⟨object.usageId, ?_⟩
    rw [get?_enroll, if_pos rfl]
  · rintro ⟨usageId, hget⟩
    apply hother
    refine ⟨usageId, ?_⟩
    rw [get?_enroll, if_neg, hget]
    rintro rfl
    rw [hready.new] at hget
    cases hget

/-- A registered LLM has nothing in common with one that is ready. -/
theorem Ready.separate (hready : Ready world llm object) (hkept : Kept restored world)
    {usageId : Usage} {other : Nat} {found : LlmObject Usage}
    (hget : world.usageToLlm.get? usageId = some other) (hfound : world.llms other = some found) :
    usageId ≠ object.usageId ∧ other ≠ llm ∧ found.telemetry ≠ object.telemetry := by
  refine ⟨?_, ?_, ?_⟩
  · rintro rfl
    rw [hready.new] at hget
    cases hget
  · rintro rfl
    exact hready.not_registered hkept ⟨usageId, hget⟩
  · intro hsame
    exact hready.unused ⟨usageId, other, found, hget, hfound, hsame⟩

theorem Ready.inUse_enroll_iff (hready : Ready world llm object) (hkept : Kept restored world)
    {telemetry : Nat} (hne : telemetry ≠ object.telemetry) :
    (world.enroll llm object metrics usageToMetrics restoredUsageIds).InUse telemetry ↔
      world.InUse telemetry := by
  constructor
  · rintro ⟨usageId, other, found, hget, hfound, rfl⟩
    rw [get?_enroll] at hget
    split at hget
    next =>
      cases hget
      rw [llms_enroll_self] at hfound
      cases hfound
      exact absurd rfl hne
    next =>
      have hother : other ≠ llm := by
        rintro rfl
        exact hready.not_registered hkept ⟨usageId, hget⟩
      rw [llms_enroll_of_ne hother] at hfound
      exact ⟨usageId, other, found, hget, hfound, rfl⟩
  · rintro ⟨usageId, other, found, hget, hfound, rfl⟩
    obtain ⟨husage, hother, -⟩ := hready.separate hkept hget hfound
    refine ⟨usageId, other, found, ?_, ?_, rfl⟩
    · rw [get?_enroll, if_neg husage, hget]
    · rw [llms_enroll_of_ne hother, hfound]

/-- The metrics of an LLM that is ready become those of its usage id. -/
theorem Kept.enroll (hkept : Kept restored world) (hready : Ready world llm object)
    (hgiven : usageToMetrics.get? object.usageId = some metrics)
    (hkeeps : ∀ usageId metrics, world.usageToMetrics.get? usageId = some metrics →
      usageToMetrics.get? usageId = some metrics)
    (hold : ∀ metrics ∈ usageToMetrics.values, metrics < world.nextObject)
    (hnodup : usageToMetrics.values.Nodup)
    (honce : ∀ usageId ∈ restoredUsageIds,
      usageId = object.usageId ∨ usageId ∈ world.restoredUsageIds)
    (htotal : (usageToMetrics.values.map world.accumulatedCost).sum = world.combinedCost) :
    Kept restored (world.enroll llm object metrics usageToMetrics restoredUsageIds) := by
  refine ⟨hold, ?_, ?_, hnodup, ?_, ?_, ?_, htotal.trans hkept.total⟩
  · intro other found hfound
    obtain ⟨hllm, -, htelemetry⟩ := hkept.llmOld llm object hready.llms
    by_cases hother : other = llm
    · subst hother
      rw [llms_enroll_self] at hfound
      cases hfound
      exact ⟨hllm, hold metrics (Dict.mem_values_iff.mpr ⟨_, hgiven⟩), htelemetry⟩
    · rw [llms_enroll_of_ne hother] at hfound
      exact hkept.llmOld other found hfound
  · intro usageId other hget
    rw [get?_enroll] at hget
    split at hget
    next husage =>
      cases hget
      subst husage
      exact ⟨_, llms_enroll_self, rfl, hgiven, Function.update_self ..⟩
    next husage =>
      obtain ⟨found, hfound, husage, hmetrics, htarget⟩ := hkept.registered usageId other hget
      obtain ⟨-, hother, htelemetry⟩ := hready.separate hkept hget hfound
      refine ⟨found, ?_, husage, hkeeps usageId _ hmetrics, ?_⟩
      · rw [llms_enroll_of_ne hother, hfound]
      · exact (Function.update_of_ne htelemetry ..).trans htarget
  · intro other found hfound hother hinUse
    obtain ⟨hne, hnotYet⟩ := hready.of_not_registered_enroll hother
    rw [llms_enroll_of_ne hne] at hfound
    by_cases hshared : found.telemetry = object.telemetry
    · -- a copy of the LLM that is registered now
      left
      have htarget : world.telemetryMetrics found.telemetry = found.metrics := by
        apply hkept.apart other found hfound hnotYet
        rw [hshared]
        exact hready.unused
      rw [← htarget, hshared, hready.target]
      exact hready.known
    · replace hinUse := (hready.inUse_enroll_iff hkept hshared).mp hinUse
      apply (hkept.copied other found hfound hnotYet hinUse).imp_right
      intro hmem
      obtain ⟨usageId, hget⟩ := Dict.mem_values_iff.mp hmem
      exact Dict.mem_values_iff.mpr ⟨usageId, hkeeps usageId _ hget⟩
  · intro other found hfound hother hunused
    obtain ⟨hne, hnotYet⟩ := hready.of_not_registered_enroll hother
    rw [llms_enroll_of_ne hne] at hfound
    have hshared : found.telemetry ≠ object.telemetry := by
      intro hshared
      apply hunused
      refine ⟨object.usageId, llm, _, ?_, llms_enroll_self, hshared.symm⟩
      rw [get?_enroll, if_pos rfl]
    refine (Function.update_of_ne hshared ..).trans ?_
    apply hkept.apart other found hfound hnotYet
    intro hinUse
    exact hunused ((hready.inUse_enroll_iff hkept hshared).mpr hinUse)
  · intro usageId hmem
    rw [get?_enroll]
    split
    next => rfl
    next hne =>
      exact hkept.restoredOnce usageId ((honce usageId hmem).resolve_left hne)

end Enroll

/-- The stats give back the restored metrics of a usage id, or take the metrics of a new one. -/
theorem Kept.registerLlm (hkept : Kept restored world) (hready : Ready world llm object) :
    Kept restored
      ({ world with usageToLlm := world.usageToLlm.set object.usageId llm }.registerLlm
        llm object) := by
  unfold LlmWorld.registerLlm
  dsimp only
  split
  next metrics hget =>
    have hnotYet : object.usageId ∉ world.restoredUsageIds := by
      intro hmem
      have hsome := hkept.restoredOnce object.usageId hmem
      rw [hready.new] at hsome
      cases hsome
    rw [if_neg hnotYet]
    apply hkept.enroll hready hget (fun _ _ hkept => hkept) hkept.metricsOld hkept.nodup
    · intro usageId hmem
      exact List.mem_cons.mp hmem
    · rfl
  next hnone =>
    have hcost : world.accumulatedCost object.metrics = 0 := by
      apply hready.unspent.resolve_left
      rw [hnone]
      exact Bool.false_ne_true
    have henroll : { world with
          usageToLlm := world.usageToLlm.set object.usageId llm
          usageToMetrics := world.usageToMetrics.set object.usageId object.metrics } =
        world.enroll llm object object.metrics
          (world.usageToMetrics.set object.usageId object.metrics) world.restoredUsageIds := by
      unfold LlmWorld.enroll
      rw [Function.update_eq_self_iff.mpr hready.llms.symm,
        Function.update_eq_self_iff.mpr hready.target.symm]
    rw [henroll]
    apply hkept.enroll hready
    · rw [Dict.get?_set, if_pos rfl]
    · intro usageId metrics hget
      rw [Dict.get?_set, if_neg, hget]
      rintro rfl
      rw [hnone] at hget
      cases hget
    · intro metrics hmem
      rcases Dict.mem_values_set hmem with rfl | hmem
      · exact (hkept.llmOld llm object hready.llms).2.1
      · exact hkept.metricsOld metrics hmem
    · rw [Dict.values_set_of_get?_none hnone, List.nodup_append]
      refine ⟨hkept.nodup, List.nodup_singleton _, ?_⟩
      intro metrics hmem other hother
      rw [List.mem_singleton.mp hother]
      exact ne_of_mem_of_not_mem hmem hready.notMem
    · exact fun usageId hmem => .inr hmem
    · rw [Dict.values_set_of_get?_none hnone, List.map_append, List.sum_append, List.map_singleton,
        List.sum_singleton, hcost, add_zero]
      rfl

omit [DecidableEq Usage] in
theorem subscribed_ensureIndependentMetrics (idReused : Bool) :
    (world.ensureIndependentMetrics llm object idReused).1.subscribed = world.subscribed := by
  unfold ensureIndependentMetrics
  by_cases hreset : idReused || object.metrics ∈ world.metricsIds
  · rw [if_pos hreset]
    rfl
  · rw [if_neg hreset]

theorem Kept.add (hkept : Kept restored world) (hllm : world.llms llm = some object)
    {idReused : Bool} (hclean : (world.usageToLlm.get? object.usageId).isSome ||
      world.registersCleanly object idReused) {next : LlmWorld Usage}
    (hadd : world.add llm idReused = some next) : Kept restored next := by
  unfold LlmWorld.add at hadd
  rw [hllm, Option.bind_some] at hadd
  split at hadd
  next => cases hadd
  next hnew =>
    rw [Bool.eq_false_iff.mpr hnew, Bool.false_or] at hclean
    rw [Bool.not_eq_true, Option.isSome_eq_false_iff, Option.isNone_iff_eq_none] at hnew
    obtain ⟨hchecked, hready⟩ := hkept.ready hllm hnew hclean
    have hsubscribed : (world.ensureIndependentMetrics llm object idReused).1.subscribed := by
      rw [subscribed_ensureIndependentMetrics]
      exact (Bool.and_eq_true_iff.mp hclean).1
    generalize world.ensureIndependentMetrics llm object idReused = checked at *
    have hnext := Option.some.inj hadd
    rw [if_pos hsubscribed] at hnext
    rw [← hnext]
    exact hchecked.registerLlm hready

/-- Only LLMs that are registered spend what the stats track. -/
theorem Kept.addCost (hkept : Kept restored world) {metrics : Nat}
    (hregistered : world.Registered llm → metrics ∈ world.usageToMetrics.values)
    (hclean : world.spendsCleanly llm metrics) {cost : ℚ} {next : LlmWorld Usage}
    (hadd : world.addCost llm metrics cost = some next) : Kept restored next := by
  unfold LlmWorld.addCost at hadd
  split at hadd
  next => cases hadd
  next =>
    cases hadd
    refine { hkept with total := ?_ }
    unfold combinedCost
    dsimp only
    by_cases hllm : world.Registered llm
    · rw [sum_map_update_add hkept.nodup (hregistered hllm), if_pos (isRegistered_iff.mpr hllm),
        ← add_assoc, ← hkept.total]
      rfl
    · have hnot : ¬ world.isRegistered llm := fun h => hllm (isRegistered_iff.mp h)
      rw [spendsCleanly, Bool.or_eq_true, decide_eq_true_iff] at hclean
      rw [sum_map_update_of_notMem (hclean.resolve_left hnot), if_neg hnot, add_zero,
        ← hkept.total]
      rfl

theorem Kept.apply (hkept : Kept restored world) {label : LlmStep Usage}
    (hclean : world.clean label) {next : LlmWorld Usage} (happly : world.apply label = some next) :
    Kept restored next := by
  cases label with
  | construct usageId =>
      cases happly
      exact hkept.construct usageId
  | modelCopy llm usageId =>
      obtain ⟨source, hllm, rfl⟩ := Option.map_eq_some_iff.mp happly
      exact hkept.modelCopy hllm usageId
  | subscribe =>
      cases happly
      exact { hkept with }
  | add llm idReused =>
      obtain ⟨object, hllm, -⟩ := Option.bind_eq_some_iff.mp happly
      refine hkept.add hllm ?_ happly
      simpa [clean, hllm] using hclean
  | switchLlm llm idReused =>
      obtain ⟨object, hllm, hswitch⟩ := Option.bind_eq_some_iff.mp happly
      split at hswitch
      next =>
        cases hswitch
        exact hkept
      next =>
        refine hkept.add hllm ?_ hswitch
        simpa [clean, hllm] using hclean
  | completion llm cost =>
      obtain ⟨object, hllm, hadd⟩ := Option.bind_eq_some_iff.mp happly
      refine hkept.addCost ?_ ?_ hadd
      · intro hregistered
        obtain ⟨hmem, htarget⟩ := hkept.metrics_mem hllm hregistered
        rw [htarget]
        exact hmem
      · simpa [clean, hllm] using hclean
  | fallback llm cost =>
      obtain ⟨object, hllm, hadd⟩ := Option.bind_eq_some_iff.mp happly
      refine hkept.addCost ?_ ?_ hadd
      · exact fun hregistered => (hkept.metrics_mem hllm hregistered).1
      · simpa [clean, hllm] using hclean

/-- The restored totals, each in an object of its own. -/
theorem kept_init (restored : Dict Usage ℚ) : Kept restored.values.sum (init restored) := by
  have hvalues : (init restored).usageToMetrics.values = List.range restored.values.length := by
    unfold init Dict.values
    rw [List.length_map]
    exact List.map_snd_zip (by simp [Dict.keys])
  refine ⟨?_, nofun, nofun, ?_, nofun, nofun, nofun, ?_⟩
  · rw [hvalues]
    intro metrics hmem
    have := List.mem_range.mp hmem
    rw [Dict.values, List.length_map] at this
    exact this
  · rw [hvalues]
    exact List.nodup_range
  · unfold combinedCost
    rw [hvalues]
    have hcosts : (List.range restored.values.length).map (init restored).accumulatedCost =
        restored.values := map_getD_range restored.values 0
    rw [hcosts]
    exact (add_zero _).symm

/-- Whatever LLMs are made, copied, registered and used: all that the registered ones spend is
counted once, as long as no LLM is registered whose metrics already count for a usage id, unseen by
the registry. -/
theorem tracked_of_runs {restored : Dict Usage ℚ} {trace : List Unit}
    (hruns : (system.restrict clean).Runs (init restored) trace world) :
    Tracked restored.values.sum world := by
  have hkept : Kept restored.values.sum world := by
    apply hruns.invariant_restrict fun _ world => Kept restored.values.sum world
    · exact kept_init restored
    · intro _ world label next seen hkept hclean hstep
      obtain ⟨next, happly, heq⟩ := Option.map_eq_some_iff.mp hstep
      cases heq
      exact hkept.apply hclean happly
  exact hkept.tracked

/-- A copy that was made before its original was registered gets metrics of its own. -/
theorem tracked_of_runs_copy : ∃ trace world,
    (system.restrict clean).Runs (init (Dict.empty.set "agent" 1)) trace world ∧
      world.spent = 5 ∧ Tracked (Dict.empty.set "agent" 1).values.sum world := by
  let labels : List (LlmStep String) :=
    [.construct "agent", .subscribe, .modelCopy 3 "condenser", .add 3 false, .add 4 false,
      .completion 3 2, .fallback 4 3]
  have hspent : ((system.restrict clean).run (init (Dict.empty.set "agent" 1)) labels).map
      (fun result => result.1.spent) = some 5 := by decide +kernel
  obtain ⟨⟨world, trace⟩, hrun, hspent⟩ := Option.map_eq_some_iff.mp hspent
  have hruns := TransitionSystem.Runs.of_run labels hrun
  exact ⟨trace, world, hruns, hspent, tracked_of_runs hruns⟩

/-- A copy of an LLM whose metrics were restored counts into the metrics of the original. -/
theorem not_tracked_of_copy : ¬ ∀ trace world,
    system.Runs (init (Dict.empty.set "agent" 1)) trace world →
      Tracked (Dict.empty.set "agent" 1).values.sum world := by
  let labels : List (LlmStep String) :=
    [.construct "agent", .subscribe, .add 3 false, .modelCopy 3 "critic", .switchLlm 4 false]
  have hshared : (system.run (init (Dict.empty.set "agent" 1)) labels).map
      (fun result => (result.1.usageToMetrics.get? "agent", result.1.usageToMetrics.get? "critic"))
        = some (some 0, some 0) := by decide +kernel
  obtain ⟨⟨world, trace⟩, hrun, hshared⟩ := Option.map_eq_some_iff.mp hshared
  obtain ⟨hagent, hcritic⟩ := Prod.mk.inj hshared
  intro htracked
  have hdistinct := (htracked trace world (.of_run labels hrun)).distinct
  exact absurd (hdistinct "agent" "critic" 0 hagent hcritic) (by decide)

end LlmWorld

end ShuttleFlow
