import Mathlib.Algebra.Order.Ring.Rat
import Mathlib.Data.List.Nodup
import Mathlib.Logic.Function.Basic
import ShuttleFlow.Library.Dict
import ShuttleFlow.Library.Transitions

/-! # The registry of LLMs

An LLM records costs through its telemetry, which refers to a `Metrics` object. A copy of an LLM
refers to the same objects as the original. The stats of a conversation hold one `Metrics` object
for each usage id, and restored ones are given to the LLMs that are registered later.
-/

namespace ShuttleFlow

structure LlmObject (Usage : Type) where
  usageId : Usage
  metrics : Nat
  telemetry : Nat

/-- The objects are numbered as they are created. -/
structure LlmWorld (Usage : Type) where
  llms : Nat → Option (LlmObject Usage)
  telemetryMetrics : Nat → Nat
  accumulatedCost : Nat → ℚ
  nextObject : Nat
  usageToLlm : Dict Usage Nat := .empty
  metricsIds : List Nat := []
  /-- The stats listen to the registry. -/
  subscribed : Bool := false
  usageToMetrics : Dict Usage Nat
  restoredUsageIds : List Usage := []
  /-- What registered LLMs have cost. -/
  spent : ℚ := 0

inductive LlmStep (Usage : Type)
  | construct (usageId : Usage)
  | modelCopy (llm : Nat) (usageId : Usage)
  | subscribe
  /-- The `id` of the metrics may be the one of an object that is gone. -/
  | add (llm : Nat) (idReused : Bool)
  | switchLlm (llm : Nat) (idReused : Bool)
  | completion (llm : Nat) (cost : ℚ)
  /-- Another LLM answers, and what it costs is merged. -/
  | fallback (llm : Nat) (cost : ℚ)

namespace LlmWorld

variable {Usage : Type} [DecidableEq Usage]

/-- The stats of a conversation that is restored. -/
def init (restored : Dict Usage ℚ) : LlmWorld Usage where
  llms _ := none
  telemetryMetrics _ := 0
  accumulatedCost object := (restored.values[object]?).getD 0
  nextObject := restored.entries.length
  usageToMetrics :=
    { entries := restored.keys.zip (List.range restored.entries.length)
      nodup := by
        rw [List.map_fst_zip (by simp [Dict.keys])]
        exact restored.nodup }

def construct (world : LlmWorld Usage) (usageId : Usage) : LlmWorld Usage :=
  let metrics := world.nextObject
  let telemetry := world.nextObject + 1
  { world with
    llms := Function.update world.llms (world.nextObject + 2)
      (some { usageId, metrics, telemetry })
    telemetryMetrics := Function.update world.telemetryMetrics telemetry metrics
    accumulatedCost := Function.update world.accumulatedCost metrics 0
    nextObject := world.nextObject + 3 }

/-- Private attributes are not copied. -/
def modelCopy (world : LlmWorld Usage) (source : LlmObject Usage) (usageId : Usage) :
    LlmWorld Usage :=
  { world with
    llms := Function.update world.llms world.nextObject (some { source with usageId })
    nextObject := world.nextObject + 1 }

/-- The metrics and the telemetry are made anew when they are needed. -/
def resetMetrics (world : LlmWorld Usage) (llm : Nat) (object : LlmObject Usage) :
    LlmWorld Usage × LlmObject Usage :=
  let metrics := world.nextObject
  let telemetry := world.nextObject + 1
  let object := { object with metrics, telemetry }
  ({ world with
      llms := Function.update world.llms llm (some object)
      telemetryMetrics := Function.update world.telemetryMetrics telemetry metrics
      accumulatedCost := Function.update world.accumulatedCost metrics 0
      nextObject := world.nextObject + 2 }, object)

def ensureIndependentMetrics (world : LlmWorld Usage) (llm : Nat) (object : LlmObject Usage)
    (idReused : Bool) : LlmWorld Usage × LlmObject Usage :=
  let (world, object) :=
    if idReused || object.metrics ∈ world.metricsIds then world.resetMetrics llm object
    else (world, object)
  ({ world with metricsIds := object.metrics :: world.metricsIds }, object)

def restoreMetrics (world : LlmWorld Usage) (llm : Nat) (object : LlmObject Usage)
    (metrics : Nat) : LlmWorld Usage :=
  { world with
    llms := Function.update world.llms llm (some { object with metrics })
    telemetryMetrics := Function.update world.telemetryMetrics object.telemetry metrics }

/-- The stats take over the metrics of a new usage id, and give back restored ones. -/
def registerLlm (world : LlmWorld Usage) (llm : Nat) (object : LlmObject Usage) :
    LlmWorld Usage :=
  match world.usageToMetrics.get? object.usageId with
  | some metrics =>
      if object.usageId ∈ world.restoredUsageIds then world
      else
        { world.restoreMetrics llm object metrics with
          restoredUsageIds := object.usageId :: world.restoredUsageIds }
  | none =>
      { world with usageToMetrics := world.usageToMetrics.set object.usageId object.metrics }

/-- A usage id is only registered once. -/
def add (world : LlmWorld Usage) (llm : Nat) (idReused : Bool) : Option (LlmWorld Usage) :=
  (world.llms llm).bind fun object =>
    if (world.usageToLlm.get? object.usageId).isSome then none
    else
      let (world, object) := world.ensureIndependentMetrics llm object idReused
      let world := { world with usageToLlm := world.usageToLlm.set object.usageId llm }
      some (if world.subscribed then world.registerLlm llm object else world)

/-- A cached LLM is reused. -/
def switchLlm (world : LlmWorld Usage) (llm : Nat) (idReused : Bool) : Option (LlmWorld Usage) :=
  (world.llms llm).bind fun object =>
    if (world.usageToLlm.get? object.usageId).isSome then some world
    else world.add llm idReused

def isRegistered (world : LlmWorld Usage) (llm : Nat) : Bool :=
  llm ∈ world.usageToLlm.values

/-- Negative costs are refused. -/
def addCost (world : LlmWorld Usage) (llm metrics : Nat) (cost : ℚ) : Option (LlmWorld Usage) :=
  if cost < 0 then none
  else
    some
      { world with
        accumulatedCost := Function.update world.accumulatedCost metrics
          (world.accumulatedCost metrics + cost)
        spent := world.spent + if world.isRegistered llm then cost else 0 }

/-- Telemetry counts what a completion costs. The costs of a fallback are merged into the metrics
of the LLM. -/
def apply (world : LlmWorld Usage) : LlmStep Usage → Option (LlmWorld Usage)
  | .construct usageId => some (world.construct usageId)
  | .modelCopy llm usageId => (world.llms llm).map fun source => world.modelCopy source usageId
  | .subscribe => some { world with subscribed := true }
  | .add llm idReused => world.add llm idReused
  | .switchLlm llm idReused => world.switchLlm llm idReused
  | .completion llm cost =>
      (world.llms llm).bind fun object =>
        world.addCost llm (world.telemetryMetrics object.telemetry) cost
  | .fallback llm cost =>
      (world.llms llm).bind fun object => world.addCost llm object.metrics cost

def system : TransitionSystem (LlmWorld Usage) (LlmStep Usage) Unit where
  step world label := (world.apply label).map fun next => (next, [])

omit [DecidableEq Usage] in
def combinedCost (world : LlmWorld Usage) : ℚ :=
  (world.usageToMetrics.values.map world.accumulatedCost).sum

/-- The stats track all that the registered LLMs spend, once. -/
structure Tracked (restored : ℚ) (world : LlmWorld Usage) : Prop where
  recorded : ∀ usageId llm object, world.usageToLlm.get? usageId = some llm →
    world.llms llm = some object →
    world.usageToMetrics.get? usageId = some (world.telemetryMetrics object.telemetry)
  distinct : ∀ first second metrics, world.usageToMetrics.get? first = some metrics →
    world.usageToMetrics.get? second = some metrics → first = second
  total : world.combinedCost = restored + world.spent

/-- A registration that the stats hear of, of an LLM whose metrics are replaced, or belong to no
usage id and are unused where the usage id is new. -/
def registersCleanly (world : LlmWorld Usage) (object : LlmObject Usage) (idReused : Bool) :
    Bool :=
  world.subscribed &&
    (idReused || object.metrics ∈ world.metricsIds ||
      (object.metrics ∉ world.usageToMetrics.values &&
        ((world.usageToMetrics.get? object.usageId).isSome ||
          world.accumulatedCost object.metrics = 0)))

/-- Other LLMs than the registered ones do not spend on the account of a usage id. -/
def spendsCleanly (world : LlmWorld Usage) (llm metrics : Nat) : Bool :=
  world.isRegistered llm || metrics ∉ world.usageToMetrics.values

def clean (world : LlmWorld Usage) : LlmStep Usage → Bool
  | .add llm idReused | .switchLlm llm idReused =>
      (world.llms llm).all fun object =>
        (world.usageToLlm.get? object.usageId).isSome || world.registersCleanly object idReused
  | .completion llm _ =>
      (world.llms llm).all fun object =>
        world.spendsCleanly llm (world.telemetryMetrics object.telemetry)
  | .fallback llm _ => (world.llms llm).all fun object => world.spendsCleanly llm object.metrics
  | _ => true

end LlmWorld

end ShuttleFlow
