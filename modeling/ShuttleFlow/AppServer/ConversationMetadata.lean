import Mathlib.Data.Rat.Defs
import ShuttleFlow.AppServer.EventStorage
import ShuttleFlow.Library.Dict
import ShuttleFlow.Library.Transitions

/-! # The metadata of a conversation

A row of the database is read as an info, and an info is saved as a whole row. The ids and the
owner of the conversation do not change.
-/

namespace ShuttleFlow

inductive ConversationTrigger
  | resolver | gui | suggestedTask | remoteApiKey | slack | microagentManagement | jira | jiraDc
  | linear | bitbucket | automation
  deriving DecidableEq

inductive ProviderType
  | github | gitlab | bitbucket | bitbucketDataCenter | forgejo | azureDevops | enterpriseSso
  deriving DecidableEq

structure SnapshotTokenUsage where
  promptTokens : Nat := 0
  completionTokens : Nat := 0
  cacheReadTokens : Nat := 0
  cacheWriteTokens : Nat := 0
  contextWindow : Nat := 0
  perTurnToken : Nat := 0
  deriving DecidableEq

structure MetricsSnapshot where
  accumulatedCost : ℚ := 0
  maxBudgetPerTask : Option ℚ := none
  accumulatedTokenUsage : Option SnapshotTokenUsage := none
  deriving DecidableEq

structure AppConversationInfo (Time : Type) where
  sandboxId : String
  selectedRepository : Option String := none
  selectedBranch : Option String := none
  gitProvider : Option ProviderType := none
  title : Option String := none
  trigger : Option ConversationTrigger := none
  prNumber : List Int := []
  llmModel : Option String := none
  agentKind : String := "openhands"
  metrics : Option MetricsSnapshot := none
  parentConversationId : Option UUID := none
  isPublic : Option Bool := none
  tags : Dict String String := .empty
  createdAt : Time
  updatedAt : Time

/-- The columns that concern metrics. -/
structure StoredMetrics where
  accumulatedCost : Option ℚ
  promptTokens : Option Nat
  completionTokens : Option Nat
  totalTokens : Option Nat
  maxBudgetPerTask : Option ℚ
  cacheReadTokens : Option Nat
  cacheWriteTokens : Option Nat
  contextWindow : Option Nat
  perTurnToken : Option Nat
  deriving DecidableEq

structure StoredConversationMetadata (Time : Type) where
  selectedRepository : Option String
  selectedBranch : Option String
  gitProvider : Option ProviderType
  title : Option String
  lastUpdatedAt : Option Time
  createdAt : Option Time
  trigger : Option ConversationTrigger
  prNumber : Option (List Int)
  metrics : StoredMetrics
  llmModel : Option String
  agentKind : Option String
  conversationVersion : String
  sandboxId : Option String
  parentConversationId : Option UUID
  isPublic : Option Bool
  tags : Option (Dict String String)
  deriving DecidableEq

variable {Time : Type}

def MetricsSnapshot.toStored (metrics : MetricsSnapshot) : StoredMetrics :=
  let usage := metrics.accumulatedTokenUsage.getD {}
  { accumulatedCost := some metrics.accumulatedCost
    promptTokens := some usage.promptTokens
    completionTokens := some usage.completionTokens
    totalTokens := some 0
    maxBudgetPerTask := metrics.maxBudgetPerTask
    cacheReadTokens := some usage.cacheReadTokens
    cacheWriteTokens := some usage.cacheWriteTokens
    contextWindow := some usage.contextWindow
    perTurnToken := some usage.perTurnToken }

def StoredMetrics.toMetrics (stored : StoredMetrics) : MetricsSnapshot where
  accumulatedCost := stored.accumulatedCost.getD 0
  maxBudgetPerTask := stored.maxBudgetPerTask
  accumulatedTokenUsage := some
    { promptTokens := stored.promptTokens.getD 0
      completionTokens := stored.completionTokens.getD 0
      cacheReadTokens := stored.cacheReadTokens.getD 0
      cacheWriteTokens := stored.cacheWriteTokens.getD 0
      contextWindow := stored.contextWindow.getD 0
      perTurnToken := stored.perTurnToken.getD 0 }

/-- The row that `save_app_conversation_info` writes. -/
def AppConversationInfo.toStored (info : AppConversationInfo Time) :
    StoredConversationMetadata Time where
  selectedRepository := info.selectedRepository
  selectedBranch := info.selectedBranch
  gitProvider := info.gitProvider
  title := info.title
  lastUpdatedAt := some info.updatedAt
  createdAt := some info.createdAt
  trigger := info.trigger
  prNumber := some info.prNumber
  metrics := (info.metrics.getD {}).toStored
  llmModel := info.llmModel
  agentKind := some info.agentKind
  conversationVersion := "V1"
  sandboxId := some info.sandboxId
  parentConversationId := info.parentConversationId
  isPublic := info.isPublic
  tags := if info.tags.entries = [] then none else some info.tags

/-- A missing or empty text counts as missing. -/
def nonEmpty (text : Option String) : Option String :=
  text.filter (· ≠ "")

/-- The current time stands in for one that is missing. There is no info without a sandbox. -/
def StoredConversationMetadata.toInfo (now : Time) (stored : StoredConversationMetadata Time) :
    Option (AppConversationInfo Time) :=
  stored.sandboxId.map fun sandboxId =>
    { sandboxId
      selectedRepository := stored.selectedRepository
      selectedBranch := stored.selectedBranch
      gitProvider := stored.gitProvider
      title := stored.title
      trigger := stored.trigger
      prNumber := stored.prNumber.getD []
      llmModel := stored.llmModel
      agentKind := (nonEmpty stored.agentKind).getD "openhands"
      metrics := some stored.metrics.toMetrics
      parentConversationId := stored.parentConversationId
      isPublic := stored.isPublic
      tags := stored.tags.getD .empty
      createdAt := stored.createdAt.getD now
      updatedAt := stored.lastUpdatedAt.getD now }

/-! ## The three writers -/

/-- What a sandbox says about its conversation. The times are the ones at which the new info is
made. -/
structure ConversationUpdate (Time : Type) where
  sandboxId : String
  isDeleting : Bool
  agentKind : String
  llmModel : String
  metrics : MetricsSnapshot
  tags : Option (Dict String String)
  createdNow : Time
  updatedNow : Time

/-- Fields that are not given are not updated. -/
structure AppConversationUpdateRequest where
  title : Option (Option String) := none
  isPublic : Option (Option Bool) := none
  selectedRepository : Option (Option String) := none
  selectedBranch : Option (Option String) := none
  gitProvider : Option (Option ProviderType) := none

inductive MetadataOperation (Time : Type)
  | onConversationUpdate (update : ConversationUpdate Time)
  /-- The title that polling finds, if any. -/
  | setTitle (title : Option String)
  | updateAppConversation (request : AppConversationUpdateRequest)

/-- The conversation, and what the server takes for the name of a branch. -/
structure MetadataHost where
  conversationId : UUID
  isValidGitBranchName : String → Bool

def mergeConversationTags (existing : Dict String String)
    (incoming : Option (Dict String String)) : Dict String String :=
  (incoming.getD .empty).entries.foldl (fun tags entry => tags.set entry.1 entry.2) existing

def detectAutomationTrigger (current : Option ConversationTrigger)
    (tags : Dict String String) : Option ConversationTrigger :=
  let given := fun key => nonEmpty (tags.get? key)
  current.or <|
    if ((given "automationtrigger").or
      ((given "automationid").or (given "automationrunid"))).isSome then
      some .automation
    else none

namespace MetadataHost

variable (host : MetadataHost)

def defaultTitle : String :=
  "Conversation " ++ String.ofList host.conversationId.hex

def dangerous : List Char := [';', '&', '|', '$', '`', '\n', '\r']

/-- Whether the fields that concern the repository go together. -/
def validateRepositoryUpdate (request : AppConversationUpdateRequest) : Bool :=
  let repository :=
    match request.selectedRepository with
    | none => true
    | some (some repository) =>
        repository.toList.count '/' = 1 &&
          dangerous.all fun char => char ∉ repository.toList
    | some none => request.selectedBranch.all Option.isNone && request.gitProvider.all Option.isNone
  repository && request.selectedBranch.all fun branch => branch.all host.isValidGitBranchName

/-- The info that the operation saves, if it saves any. -/
def save (info : AppConversationInfo Time) :
    MetadataOperation Time → Option (AppConversationInfo Time)
  | .onConversationUpdate update =>
      if update.isDeleting then none
      else
        let mergedTags := mergeConversationTags info.tags update.tags
        let isAcp := update.agentKind = "acp"
        some
          { title := some ((nonEmpty info.title).getD host.defaultTitle)
            sandboxId := update.sandboxId
            llmModel := if isAcp then none else some update.llmModel
            agentKind := if isAcp then "acp" else "openhands"
            selectedRepository := info.selectedRepository
            selectedBranch := info.selectedBranch
            gitProvider := info.gitProvider
            trigger := detectAutomationTrigger info.trigger mergedTags
            prNumber := info.prNumber
            parentConversationId := info.parentConversationId
            metrics := some update.metrics
            tags := mergedTags
            createdAt := update.createdNow
            updatedAt := update.updatedNow }
  | .setTitle title =>
      (nonEmpty title).map fun title => { info with title := some title }
  | .updateAppConversation request =>
      if host.validateRepositoryUpdate request then
        some
          { info with
            title := request.title.getD info.title
            isPublic := request.isPublic.getD info.isPublic
            selectedRepository := request.selectedRepository.getD info.selectedRepository
            selectedBranch := request.selectedBranch.getD info.selectedBranch
            gitProvider := request.gitProvider.getD info.gitProvider }
      else none

end MetadataHost

/-! ## Operations at the same time -/

/-- The row, and the operations that have read it. -/
structure MetadataStore (Time : Type) where
  row : StoredConversationMetadata Time
  pending : List (MetadataOperation Time × AppConversationInfo Time) := []

inductive MetadataStep (Time : Type)
  | read (operation : MetadataOperation Time) (now : Time)
  | finish (index : Nat)

/-- An operation that saves, with the row before and after it. -/
structure SavedMetadata (Time : Type) where
  operation : MetadataOperation Time
  before : StoredConversationMetadata Time
  after : StoredConversationMetadata Time

namespace MetadataStore

def step (host : MetadataHost) (store : MetadataStore Time) :
    MetadataStep Time → Option (MetadataStore Time × List (SavedMetadata Time))
  | .read operation now =>
      (store.row.toInfo now).map fun info =>
        ({ store with pending := store.pending ++ [(operation, info)] }, [])
  | .finish index =>
      match store.pending[index]? with
      | none => none
      | some (operation, info) =>
          let pending := store.pending.eraseIdx index
          match host.save info operation with
          | none => some ({ store with pending }, [])
          | some saved =>
              some ({ row := saved.toStored, pending },
                [⟨operation, store.row, saved.toStored⟩])

def system (host : MetadataHost) :
    TransitionSystem (MetadataStore Time) (MetadataStep Time) (SavedMetadata Time) where
  step := step host

end MetadataStore

end ShuttleFlow
