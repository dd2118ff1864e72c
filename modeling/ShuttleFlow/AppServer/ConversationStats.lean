import Mathlib.Algebra.Field.Rat
import ShuttleFlow.AppServer.ConversationMetadata

/-! # The statistics of a conversation

They come to the app server by two webhooks. An update of the conversation stores the combined
metrics of all usages, and a state update event those of the agent.
-/

namespace ShuttleFlow

structure TokenUsage where
  promptTokens : Nat := 0
  completionTokens : Nat := 0
  cacheReadTokens : Nat := 0
  cacheWriteTokens : Nat := 0
  reasoningTokens : Nat := 0
  contextWindow : Nat := 0
  perTurnToken : Nat := 0
  deriving DecidableEq

/-- The usage of one turn is that of the later one. -/
def TokenUsage.add (first second : TokenUsage) : TokenUsage where
  promptTokens := first.promptTokens + second.promptTokens
  completionTokens := first.completionTokens + second.completionTokens
  cacheReadTokens := first.cacheReadTokens + second.cacheReadTokens
  cacheWriteTokens := first.cacheWriteTokens + second.cacheWriteTokens
  reasoningTokens := first.reasoningTokens + second.reasoningTokens
  contextWindow := max first.contextWindow second.contextWindow
  perTurnToken := second.perTurnToken

/-- A missing usage of tokens is filled in when metrics are made. -/
structure Metrics where
  accumulatedCost : ℚ≥0 := 0
  maxBudgetPerTask : Option ℚ := none
  accumulatedTokenUsage : TokenUsage := {}
  deriving DecidableEq

namespace Metrics

def merge (metrics other : Metrics) : Metrics where
  accumulatedCost := metrics.accumulatedCost + other.accumulatedCost
  maxBudgetPerTask := metrics.maxBudgetPerTask.or other.maxBudgetPerTask
  accumulatedTokenUsage := metrics.accumulatedTokenUsage.add other.accumulatedTokenUsage

/-- What the app server keeps of metrics. -/
def toSnapshot (metrics : Metrics) : MetricsSnapshot where
  accumulatedCost := metrics.accumulatedCost
  maxBudgetPerTask := metrics.maxBudgetPerTask
  accumulatedTokenUsage :=
    let usage := metrics.accumulatedTokenUsage
    some
      { promptTokens := usage.promptTokens
        completionTokens := usage.completionTokens
        cacheReadTokens := usage.cacheReadTokens
        cacheWriteTokens := usage.cacheWriteTokens
        contextWindow := usage.contextWindow
        perTurnToken := usage.perTurnToken }

end Metrics

structure ConversationStats where
  usageToMetrics : Dict String Metrics := .empty
  deriving DecidableEq

def ConversationStats.getCombinedMetrics (stats : ConversationStats) : Metrics :=
  stats.usageToMetrics.values.foldl Metrics.merge {}

/-- A row of the database. The service sees those of version 1 only. Saving an info leaves the
reasoning tokens as they are. -/
structure StatisticsRow (Time : Type) where
  metadata : StoredConversationMetadata Time
  reasoningTokens : Option Nat
  isV1 : metadata.conversationVersion = "V1"

/-- The columns of cost and tokens. -/
structure StoredCounters where
  accumulatedCost : Option ℚ
  promptTokens : Option Nat
  completionTokens : Option Nat
  totalTokens : Option Nat
  cacheReadTokens : Option Nat
  cacheWriteTokens : Option Nat
  reasoningTokens : Option Nat
  contextWindow : Option Nat
  perTurnToken : Option Nat
  deriving DecidableEq

namespace StatisticsRow

variable {Time : Type}

def counters (row : StatisticsRow Time) : StoredCounters :=
  let metrics := row.metadata.metrics
  { accumulatedCost := metrics.accumulatedCost
    promptTokens := metrics.promptTokens
    completionTokens := metrics.completionTokens
    totalTokens := metrics.totalTokens
    cacheReadTokens := metrics.cacheReadTokens
    cacheWriteTokens := metrics.cacheWriteTokens
    reasoningTokens := row.reasoningTokens
    contextWindow := metrics.contextWindow
    perTurnToken := metrics.perTurnToken }

/-- Only the metrics of the agent are stored. -/
def updateConversationStatistics (stats : ConversationStats) (utcNow : Time)
    (row : StatisticsRow Time) : StatisticsRow Time :=
  match stats.usageToMetrics.get? "agent" with
  | none => row
  | some metrics =>
      let usage := metrics.accumulatedTokenUsage
      let stored := row.metadata.metrics
      { row with
        metadata :=
          { row.metadata with
            lastUpdatedAt := some utcNow
            metrics :=
              { stored with
                accumulatedCost := some metrics.accumulatedCost
                maxBudgetPerTask := metrics.maxBudgetPerTask.or stored.maxBudgetPerTask
                promptTokens := some usage.promptTokens
                completionTokens := some usage.completionTokens
                cacheReadTokens := some usage.cacheReadTokens
                cacheWriteTokens := some usage.cacheWriteTokens
                contextWindow := some usage.contextWindow
                perTurnToken := some usage.perTurnToken } }
        reasoningTokens := some usage.reasoningTokens }

/-- Without any usages there is nothing to do. -/
def processStatsEvent (stats : ConversationStats) (utcNow : Time) (row : StatisticsRow Time) :
    StatisticsRow Time :=
  if stats.usageToMetrics.entries = [] then row
  else row.updateConversationStatistics stats utcNow

def saveAppConversationInfo (info : AppConversationInfo Time) (row : StatisticsRow Time) :
    StatisticsRow Time where
  metadata := info.toStored
  reasoningTokens := row.reasoningTokens
  isV1 := rfl

/-- The row after an update, unless it is one that is not stored. -/
def onConversationUpdate (host : MetadataHost) (update : ConversationUpdate Time)
    (stats : ConversationStats) (now : Time) (row : StatisticsRow Time) :
    Option (StatisticsRow Time) :=
  let metrics := stats.getCombinedMetrics.toSnapshot
  (row.metadata.toInfo now).bind fun existing =>
    (host.save existing (.onConversationUpdate { update with metrics })).map fun info =>
      row.saveAppConversationInfo info

end StatisticsRow

/-- What the webhooks deliver. -/
inductive StatsDelivery (Time : Type)
  | update (update : ConversationUpdate Time) (stats : ConversationStats) (now : Time)
  | statsEvent (stats : ConversationStats) (utcNow : Time)

def StatsDelivery.stats {Time : Type} : StatsDelivery Time → ConversationStats
  | update _ stats _ => stats
  | statsEvent stats _ => stats

/-- An update that is not stored leaves the row as it is. -/
def StatisticsRow.deliver {Time : Type} (host : MetadataHost) (row : StatisticsRow Time) :
    StatsDelivery Time → StatisticsRow Time
  | .update update stats now => (row.onConversationUpdate host update stats now).getD row
  | .statsEvent stats utcNow => row.processStatsEvent stats utcNow

end ShuttleFlow
