import Mathlib.Algebra.Field.Rat
import Mathlib.Logic.Function.Basic
import ShuttleFlow.Library.PythonText
import ShuttleFlow.Subagents.TaskManager

/-! # What sub-agents cost

The stats of a conversation hold one `Metrics` object for each usage id. The LLMs of the parent
count into theirs. For a task or a delegate there is a copy of what its conversation has cost, and
a later copy replaces it.
-/

namespace ShuttleFlow

/-- What the stats of a sub-agent's conversation add up to, and what they do on disk. -/
structure SubagentStats where
  cost : ℚ≥0 := 0
  saved : ℚ≥0 := 0
  deriving DecidableEq

inductive SubagentStatsStep
  | completion (cost : ℚ≥0)
  | save
  deriving DecidableEq

namespace SubagentStats

def apply (stats : SubagentStats) : SubagentStatsStep → SubagentStats
  | .completion cost => { stats with cost := stats.cost + cost }
  | .save => { stats with saved := stats.cost }

def run (stats : SubagentStats) (steps : List SubagentStatsStep) : SubagentStats :=
  steps.foldl apply stats

/-- A conversation that is opened again restores its stats from disk. -/
def restored (stats : SubagentStats) : SubagentStats :=
  { stats with cost := stats.saved }

end SubagentStats

/-- What is spent while a sub-agent runs. -/
def subagentCost (steps : List SubagentStatsStep) : ℚ≥0 :=
  (steps.map fun
    | .completion cost => cost
    | .save => 0).sum

/-- A parent with the task manager and the delegate executor of its process. -/
structure SpendingParent where
  accumulatedCost : Nat → ℚ≥0 := fun _ => 0
  nextObject : Nat := 0
  usageToMetrics : Dict String Nat := .empty
  /-- The metrics of the LLMs that are registered, by usage id. -/
  llms : Dict String Nat := .empty
  /-- The stats on disk. -/
  persisted : Dict String ℚ≥0 := .empty
  /-- The tasks, with the stats of their conversations. -/
  tasks : Dict String SubagentStats := .empty
  /-- The delegates, with the stats of their conversations. -/
  subAgents : Dict String SubagentStats := .empty
  /-- What the completions of the parent have cost. -/
  spent : ℚ≥0 := 0
  /-- What the completions of sub-agents have cost. -/
  subagentsSpent : ℚ≥0 := 0

inductive SpendingStep
  | registerLlm (usageId : String)
  | completion (usageId : String) (cost : ℚ≥0)
  /-- The call raises, or the conversation of the task runs, whatever comes of it. -/
  | startTask (resume : Option String) (steps : Option (List SubagentStatsStep))
  /-- Spawning may fail after some of the agents. -/
  | spawnAgents (ids : List String) (agentTypes : Option (List String))
      (failure : Option (Nat × String))
  | delegateTasks (tasks : Dict String (List SubagentStatsStep))
  | save
  | restart

namespace SpendingParent

variable (parent : SpendingParent)

def combinedCost : ℚ≥0 := (parent.usageToMetrics.values.map parent.accumulatedCost).sum

/-- What the stats hold under a usage id. -/
def costUnder (usageId : String) : ℚ≥0 :=
  ((parent.usageToMetrics.get? usageId).map parent.accumulatedCost).getD 0

/-- The metrics are put there, whatever was there. -/
def setMetrics (usageId : String) (cost : ℚ≥0) : SpendingParent :=
  { parent with
    accumulatedCost := Function.update parent.accumulatedCost parent.nextObject cost
    nextObject := parent.nextObject + 1
    usageToMetrics := parent.usageToMetrics.set usageId parent.nextObject }

/-- An LLM takes over the metrics of its usage id, or brings new ones. A usage id is only registered
once. -/
def registerLlm (usageId : String) : Option SpendingParent :=
  if (parent.llms.get? usageId).isSome then none
  else
    match parent.usageToMetrics.get? usageId with
    | some metrics => some { parent with llms := parent.llms.set usageId metrics }
    | none =>
        some { parent.setMetrics usageId 0 with
          llms := parent.llms.set usageId parent.nextObject }

def completion (usageId : String) (cost : ℚ≥0) : Option SpendingParent :=
  (parent.llms.get? usageId).map fun metrics =>
    { parent with
      accumulatedCost := Function.update parent.accumulatedCost metrics
        (parent.accumulatedCost metrics + cost)
      spent := parent.spent + cost }

/-! ## Tasks -/

def taskUsage (id : String) : String := "task:" ++ id

/-- Run the conversation of a task, and take over its metrics. -/
def runTask (id : String) (stats : SubagentStats) (steps : List SubagentStatsStep) :
    SpendingParent :=
  { parent.setMetrics (taskUsage id) (stats.run steps).cost with
    tasks := parent.tasks.set id (stats.run steps)
    subagentsSpent := parent.subagentsSpent + subagentCost steps }

/-- The task that a call creates or resumes, and the stats of its conversation when it is opened.
The empty text does not resume anything. -/
def openTask (resume : Option String) : Option (String × SubagentStats) :=
  match resume.filter (· ≠ "") with
  | none => some (TaskManager.taskId (parent.tasks.keys.length + 1), {})
  | some id => (parent.tasks.get? id).map fun stats => (id, stats.restored)

def startTask (resume : Option String) (steps : Option (List SubagentStatsStep)) :
    SpendingParent :=
  match steps, parent.openTask resume with
  | some steps, some (id, stats) => parent.runTask id stats steps
  | _, _ => parent

/-! ## Delegates -/

def delegateUsage (agentId : String) : String := "delegate:" ++ agentId

def formatAgentLabel (agentId agentType : String) : String :=
  agentId ++ if agentType = "default" then " (default)" else " (" ++ agentType ++ ")"

/-- Agents without a type are of the default type. -/
def resolveAgentType (agentTypes : Option (List String)) (index : Nat) : String :=
  match (agentTypes.getD [])[index]? with
  | none => "default"
  | some agentType =>
      if PythonText.strip agentType = "" then "default" else PythonText.strip agentType

/-- A new conversation takes the place of an old one. -/
def spawn (agentIds : List String) : SpendingParent :=
  { parent with subAgents := agentIds.foldl (fun agents id => agents.set id {}) parent.subAgents }

def spawnAgents (maxChildren : Nat) (ids : List String) (agentTypes : Option (List String))
    (failure : Option (Nat × String)) : SubagentObservation × SpendingParent :=
  if ids = [] then
    ({ text := "At least one ID is required for spawn action", isError := true }, parent)
  else if (agentTypes.getD []).length > ids.length then
    ({ text := "agent_types length (" ++ toString (agentTypes.getD []).length ++
        ") cannot exceed ids length (" ++ toString ids.length ++ ")", isError := true }, parent)
  else if parent.subAgents.keys.length + ids.length > maxChildren then
    ({ text := "Cannot spawn " ++ toString ids.length ++ " agents. Already have " ++
        toString parent.subAgents.keys.length ++ " agents, maximum is " ++ toString maxChildren
       isError := true }, parent)
  else
    match failure with
    | some (count, error) =>
        ({ text := "failed to spawn agents: " ++ error, isError := true },
          parent.spawn (ids.take count))
    | none =>
        let labels := ids.zipIdx.map fun entry =>
          formatAgentLabel entry.1 (resolveAgentType agentTypes entry.2)
        ({ text := "Successfully spawned " ++ toString ids.length ++ " sub-agents: " ++
            ", ".intercalate labels }, parent.spawn ids)

def runDelegate (agents : Dict String SubagentStats)
    (task : String × List SubagentStatsStep) : Dict String SubagentStats :=
  match agents.get? task.1 with
  | none => agents
  | some stats => agents.set task.1 (stats.run task.2)

def runDelegates (tasks : List (String × List SubagentStatsStep)) : SpendingParent :=
  { parent with
    subAgents := tasks.foldl runDelegate parent.subAgents
    subagentsSpent := parent.subagentsSpent + (tasks.map fun task => subagentCost task.2).sum }

def syncDelegate (agentId : String) : SpendingParent :=
  match parent.subAgents.get? agentId with
  | none => parent
  | some stats => parent.setMetrics (delegateUsage agentId) stats.cost

/-- Every agent is known. -/
def accepts (tasks : Dict String (List SubagentStatsStep)) : Bool :=
  tasks.keys ≠ [] && tasks.keys.all fun agentId => agentId ∈ parent.subAgents.keys

/-- All agents run, and then their metrics are taken over. -/
def delegateTasks (tasks : Dict String (List SubagentStatsStep)) : SpendingParent :=
  if parent.accepts tasks then
    tasks.keys.foldl syncDelegate (parent.runDelegates tasks.entries)
  else parent

/-! ## Persistence -/

def save : SpendingParent :=
  { parent with
    persisted := parent.usageToMetrics.filterMap fun _ metrics =>
      some (parent.accumulatedCost metrics) }

/-- The stats are restored, and the task manager and the delegate executor are new. -/
def restart : SpendingParent where
  accumulatedCost object := (parent.persisted.values[object]?).getD 0
  nextObject := parent.persisted.entries.length
  usageToMetrics :=
    { entries := parent.persisted.keys.zip (List.range parent.persisted.entries.length)
      nodup := by
        rw [List.map_fst_zip (by simp [Dict.keys])]
        exact parent.persisted.nodup }
  persisted := parent.persisted
  spent := parent.spent
  subagentsSpent := parent.subagentsSpent

def apply (maxChildren : Nat) : SpendingStep → Option SpendingParent
  | .registerLlm usageId => parent.registerLlm usageId
  | .completion usageId cost => parent.completion usageId cost
  | .startTask resume steps => some (parent.startTask resume steps)
  | .spawnAgents ids agentTypes failure =>
      some (parent.spawnAgents maxChildren ids agentTypes failure).2
  | .delegateTasks tasks => some (parent.delegateTasks tasks)
  | .save => some parent.save
  | .restart => some parent.restart

def system (maxChildren : Nat) : TransitionSystem SpendingParent SpendingStep Unit where
  step parent label := (parent.apply maxChildren label).map fun next => (next, [])

/-- Everything that was spent is counted once. -/
def Conserved : Prop := parent.combinedCost = parent.spent + parent.subagentsSpent

/-- Where metrics are replaced they are what the conversation had cost before, an LLM counts into
the metrics under its usage id, and at a restart the stats have been saved. -/
def isClean : SpendingStep → Bool
  | .completion usageId cost =>
      cost = 0 || parent.usageToMetrics.get? usageId = parent.llms.get? usageId
  | .startTask resume steps =>
      steps.isNone || (parent.openTask resume).all fun opened =>
        parent.costUnder (taskUsage opened.1) = opened.2.cost
  | .delegateTasks tasks =>
      !parent.accepts tasks || tasks.keys.all fun agentId =>
        parent.costUnder (delegateUsage agentId) =
          ((parent.subAgents.get? agentId).map SubagentStats.cost).getD 0
  | .restart => parent.persisted.values.sum = parent.combinedCost
  | _ => true

end SpendingParent

end ShuttleFlow
