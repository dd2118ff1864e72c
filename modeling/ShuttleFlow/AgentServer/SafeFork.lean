import ShuttleFlow.AgentServer.CrashRecovery
import ShuttleFlow.Conversation.Fork
import ShuttleFlow.Conversation.SafetySettings

/-! # The settings of forks

A fork is assembled from a new conversation. The server opens it once more, from a stored
request that names nothing but its agent and workspace. The id of a fork is new: nothing is
on disk under it before.
-/

namespace ShuttleFlow

structure PluginSource where
  source : String
  ref : Option String := none
  repoPath : Option String := none
  deriving DecidableEq, Repr

/-- What is saved of a conversation, and its log. -/
structure BaseState (Source : Type) extends ConversationState, SafetySettings Source where
  maxIterations : Nat := 500
  stuckDetection : Bool := true
  activatedKnowledgeSkills : List String := []
  tags : Dict String String := .empty

/-- A conversation that is open. -/
structure Conversation (Source : Type) where
  state : BaseState Source
  maxIterationPerRun : Nat := 500
  stuckDetector : Bool := true
  pluginSpecs : List PluginSource := []
  pendingHookConfig : Option HookConfig := none
  /-- The hooks that were set up on first use. -/
  hookProcessor : Option HookConfig := none
  pluginsLoaded : Bool := false

/-- What the server stores of the request for a conversation. -/
structure StoredConversation (Source : Type) where
  confirmationPolicy : ConfirmationPolicy := .neverConfirm
  securityAnalyzer : Option SecurityAnalyzer := none
  maxIterations : Nat := 500
  stuckDetection : Bool := true
  secrets : Dict (List Char) Source := .empty
  plugins : List PluginSource := []
  hookConfig : Option HookConfig := none
  tags : Dict String String := .empty

namespace BaseState

variable {Source : Type}

/-- What is read back from disk. The values of secrets are not saved; `redact` is what
becomes of a source. -/
def reload (redact : Source → Source) (state : BaseState Source) : BaseState Source :=
  { state with
    secretRegistry :=
      { secretSources := state.secretRegistry.secretSources.entries.foldl
          (fun sources secret => sources.set secret.1 (redact secret.2)) .empty
        exportedValues := .empty } }

/-- A conversation is resumed if it was saved. -/
def create (saved : Option (BaseState Source)) (maxIterations : Nat) (stuckDetection : Bool)
    (tags : Dict String String) : BaseState Source :=
  match saved with
  | some saved => { saved with maxIterations }
  | none => { maxIterations, stuckDetection, tags }

end BaseState

namespace Conversation

variable {Source : Type}

/-- Open a conversation. -/
def init (saved : Option (BaseState Source)) (plugins : List PluginSource)
    (hookConfig : Option HookConfig) (maxIterationPerRun : Nat) (stuckDetection : Bool)
    (secrets : Dict (List Char) Source) (tags : Dict String String) : Conversation Source :=
  let state := BaseState.create saved maxIterationPerRun stuckDetection tags
  { state := { state with secretRegistry := state.secretRegistry.updateSecrets secrets }
    maxIterationPerRun
    stuckDetector := stuckDetection
    pluginSpecs := plugins
    pendingHookConfig := hookConfig }

def setConfirmationPolicy (policy : ConfirmationPolicy) (conversation : Conversation Source) :
    Conversation Source :=
  { conversation with state := { conversation.state with confirmationPolicy := policy } }

def setSecurityAnalyzer (analyzer : Option SecurityAnalyzer)
    (conversation : Conversation Source) : Conversation Source :=
  { conversation with state := { conversation.state with securityAnalyzer := analyzer } }

/-- The explicit hooks come before those of the plugins. -/
def finalHookConfig (pending : Option HookConfig) (pluginHooks : List HookConfig) :
    Option HookConfig :=
  if pluginHooks = [] then pending
  else
    (HookConfig.merge pluginHooks).elim pending fun plugin =>
      pending.elim (some plugin) fun explicit => HookConfig.merge [explicit, plugin]

/-- The hooks of the plugins that have some. -/
def pluginHooks (load : PluginSource → Option HookConfig) (plugins : List PluginSource) :
    List HookConfig :=
  (plugins.filterMap load).filter fun config => !config.isEmpty

/-- Plugins are loaded, and hooks set up, on first use. -/
def ensurePluginsLoaded (load : PluginSource → Option HookConfig)
    (conversation : Conversation Source) : Conversation Source :=
  if conversation.pluginsLoaded then conversation
  else
    let final := finalHookConfig conversation.pendingHookConfig
      (pluginHooks load conversation.pluginSpecs)
    { conversation with
      state :=
        { conversation.state with hookConfig := final.or conversation.state.hookConfig }
      hookProcessor := final.or conversation.hookProcessor
      pluginsLoaded := true }

/-- The events are copied to a new conversation, which keeps the plugins. -/
def fork (source : Conversation Source) (title : Option String) (tags : Dict String String) :
    Conversation Source :=
  let forked := init none source.pluginSpecs none source.maxIterationPerRun source.stuckDetector
    .empty tags
  { forked with
    state :=
      { forked.state with
        events := source.state.events
        activatedKnowledgeSkills := source.state.activatedKnowledgeSkills
        tags := title.elim tags (tags.set "title")
        drawn := source.state.drawn } }

end Conversation

namespace EventService

variable {Source : Type}

/-- The settings of the stored request take the place of the saved ones. -/
def startConversation (ids : IdSource) (stored : StoredConversation Source)
    (saved : Option (BaseState Source)) : Conversation Source :=
  let conversation := ((Conversation.init saved stored.plugins stored.hookConfig
    stored.maxIterations stored.stuckDetection stored.secrets stored.tags).setConfirmationPolicy
      stored.confirmationPolicy).setSecurityAnalyzer stored.securityAnalyzer
  { conversation with
    state :=
      { conversation.state with
        toConversationState := recover ids {} conversation.state.toConversationState } }

end EventService

/-- The fork is saved, and opened again from a request with defaults. -/
def ConversationService.forkConversation {Source : Type} (ids : IdSource)
    (redact : Source → Source) (source : Conversation Source) (title : Option String)
    (tags : Dict String String) : Conversation Source :=
  EventService.startConversation ids {} (some ((source.fork title tags).state.reload redact))

/-! ## What a fork decides -/

/-- What the settings of a conversation decide for the next response, action or prompt. -/
structure Decisions where
  /-- Whether the user is asked before actions are executed. -/
  asks : List ActionEvent → Bool
  /-- What hooks make of the next events. -/
  hooks : HookManager
  /-- Why a pending action is not executed. -/
  blockedAction : EventID → Option String
  /-- Why the last prompt is not processed. -/
  blockedPrompt : Option String
  masked : List Char → List Char

namespace Conversation

variable {Source : Type} (executor : HookExecutor) (load : PluginSource → Option HookConfig)

/-- What a step of the agent meets. -/
def environment (outside : Environment) (conversation : Conversation Source) : Environment :=
  { outside with
    hooks := conversation.hookProcessor.elim {} executor.manager
    shouldConfirm := conversation.state.shouldConfirm }

def decisions (outside : Environment) (conversation : Conversation Source) : Decisions where
  asks := Agent.requiresUserConfirmation (conversation.environment executor outside)
  hooks := (conversation.environment executor outside).hooks
  blockedAction actionId := (conversation.state.popBlockedAction actionId).1
  blockedPrompt := (Agent.popBlockedUserMessage conversation.state.toConversationState).1
  masked text := conversation.state.secretRegistry.maskSecretsInOutput text

/-- The fork has the events and the settings of its source, and decides as it does. -/
structure Keeps (source forked : Conversation Source) : Prop where
  events : forked.state.events = source.state.events
  settings : forked.state.toSafetySettings = source.state.toSafetySettings
  blockedActions : forked.state.blockedActions = source.state.blockedActions
  blockedMessages : forked.state.blockedMessages = source.state.blockedMessages
  lastUserMessageId : forked.state.lastUserMessageId = source.state.lastUserMessageId
  hooks : (forked.ensurePluginsLoaded load).hookProcessor =
    (source.ensurePluginsLoaded load).hookProcessor
  decisions : ∀ outside, (forked.ensurePluginsLoaded load).decisions executor outside =
    (source.ensurePluginsLoaded load).decisions executor outside

/-- Nothing is set that a fork would lose. -/
structure Unprotected (source : Conversation Source) : Prop where
  settings : source.state.toSafetySettings = {}
  blockedActions : source.state.blockedActions = fun _ => none
  blockedMessages : source.state.blockedMessages = fun _ => none
  lastUserMessageId : source.state.lastUserMessageId = none
  hooks : (source.ensurePluginsLoaded load).hookProcessor = none
  plugins : pluginHooks load source.pluginSpecs = []

variable {executor load} {source forked : Conversation Source} {ids : IdSource}
  {redact : Source → Source} {title : Option String} {tags : Dict String String}

theorem fst_popBlockedUserMessage (state : ConversationState) :
    (Agent.popBlockedUserMessage state).1 =
      state.lastUserMessageId.bind state.blockedMessages := by
  rw [Agent.popBlockedUserMessage]
  cases state.lastUserMessageId with
  | none => rfl
  | some messageId =>
      rw [Option.bind_some]
      change (state.popBlockedMessage messageId).1 = _
      rw [ConversationState.popBlockedMessage]
      cases state.blockedMessages messageId <;> rfl

theorem fst_popBlockedAction (state : ConversationState) (actionId : EventID) :
    (state.popBlockedAction actionId).1 = state.blockedActions actionId := by
  rw [ConversationState.popBlockedAction]
  cases state.blockedActions actionId <;> rfl

/-- Beside the hooks that were set up, the first use does not matter. -/
theorem decisions_ensurePluginsLoaded (conversation : Conversation Source)
    (outside : Environment) :
    (conversation.ensurePluginsLoaded load).decisions executor outside =
      { conversation with
        hookProcessor := (conversation.ensurePluginsLoaded load).hookProcessor }.decisions
          executor outside := by
  rw [ensurePluginsLoaded]
  split <;> rfl

/-- The settings and what is blocked decide. -/
theorem decisions_congr (hsettings : forked.state.toSafetySettings = source.state.toSafetySettings)
    (hactions : forked.state.blockedActions = source.state.blockedActions)
    (hmessages : forked.state.blockedMessages = source.state.blockedMessages)
    (hlast : forked.state.lastUserMessageId = source.state.lastUserMessageId)
    (hhooks : forked.hookProcessor = source.hookProcessor) (outside : Environment) :
    forked.decisions executor outside = source.decisions executor outside := by
  simp only [decisions, environment, fst_popBlockedAction, fst_popBlockedUserMessage, hsettings,
    hactions, hmessages, hlast, hhooks]

theorem Keeps.of_settings (hevents : forked.state.events = source.state.events)
    (hsettings : forked.state.toSafetySettings = source.state.toSafetySettings)
    (hactions : forked.state.blockedActions = source.state.blockedActions)
    (hmessages : forked.state.blockedMessages = source.state.blockedMessages)
    (hlast : forked.state.lastUserMessageId = source.state.lastUserMessageId)
    (hhooks : (forked.ensurePluginsLoaded load).hookProcessor =
      (source.ensurePluginsLoaded load).hookProcessor) : Keeps executor load source forked where
  events := hevents
  settings := hsettings
  blockedActions := hactions
  blockedMessages := hmessages
  lastUserMessageId := hlast
  hooks := hhooks
  decisions outside := by
    rw [decisions_ensurePluginsLoaded, decisions_ensurePluginsLoaded]
    exact @decisions_congr _ executor
      { source with hookProcessor := (source.ensurePluginsLoaded load).hookProcessor }
      { forked with hookProcessor := (forked.ensurePluginsLoaded load).hookProcessor }
      hsettings hactions hmessages hlast hhooks outside

theorem finalHookConfig_none_iff {plugins : List PluginSource} :
    finalHookConfig none (pluginHooks load plugins) = none ↔ pluginHooks load plugins = [] := by
  by_cases hsome : pluginHooks load plugins = []
  · rw [finalHookConfig, if_pos hsome]
    exact iff_of_true rfl hsome
  · rw [finalHookConfig, if_neg hsome]
    obtain ⟨config, hconfig⟩ := List.exists_mem_of_ne_nil _ hsome
    have hfull : config.isEmpty = false := by simpa using List.of_mem_filter hconfig
    have hmerge : HookConfig.merge (pluginHooks load plugins) ≠ none := by
      rw [Ne, HookConfig.merge_eq_none_iff]
      intro hall
      cases (hall config hconfig).symm.trans hfull
    obtain ⟨plugin, hplugin⟩ := Option.ne_none_iff_exists'.mp hmerge
    rw [hplugin]
    exact iff_of_false nofun hsome

/-- The hooks of a fork are those of its plugins. -/
theorem hookProcessor_fork :
    ((source.fork title tags).ensurePluginsLoaded load).hookProcessor =
      finalHookConfig none (pluginHooks load source.pluginSpecs) :=
  Option.or_none

/-- The fork that the server opens has no hooks. -/
theorem hookProcessor_forkConversation :
    ((ConversationService.forkConversation ids redact source title tags).ensurePluginsLoaded
      load).hookProcessor = none := rfl

/-- A fork is as safe as its source exactly where the source has nothing set. -/
theorem keeps_iff_unprotected :
    (Keeps executor load source (source.fork title tags) ∧
      Keeps executor load source
        (ConversationService.forkConversation ids redact source title tags)) ↔
      Unprotected load source := by
  constructor
  · rintro ⟨hlocal, hserver⟩
    have hnone : (source.ensurePluginsLoaded load).hookProcessor = none :=
      hserver.hooks.symm.trans hookProcessor_forkConversation
    exact
      { settings := hlocal.settings.symm
        blockedActions := hlocal.blockedActions.symm
        blockedMessages := hlocal.blockedMessages.symm
        lastUserMessageId := hlocal.lastUserMessageId.symm
        hooks := hnone
        plugins := finalHookConfig_none_iff.mp
          (hookProcessor_fork.symm.trans (hlocal.hooks.trans hnone)) }
  · intro hunprotected
    have hplugins : finalHookConfig none (pluginHooks load source.pluginSpecs) = none :=
      finalHookConfig_none_iff.mpr hunprotected.plugins
    constructor
    · exact .of_settings rfl hunprotected.settings.symm hunprotected.blockedActions.symm
        hunprotected.blockedMessages.symm hunprotected.lastUserMessageId.symm
        (hookProcessor_fork.trans (hplugins.trans hunprotected.hooks.symm))
    · exact .of_settings rfl hunprotected.settings.symm hunprotected.blockedActions.symm
        hunprotected.blockedMessages.symm hunprotected.lastUserMessageId.symm
        (hookProcessor_forkConversation.trans hunprotected.hooks.symm)

/-- The fork of a conversation in which every action is confirmed asks for nothing. -/
theorem not_keeps_confirmationPolicy : ¬ ∀ (executor : HookExecutor)
    (load : PluginSource → Option HookConfig) (ids : IdSource) (source : Conversation Unit),
      Keeps executor load source (source.fork none .empty) ∧
        Keeps executor load source
          (ConversationService.forkConversation ids id source none .empty) := by
  intro hkeeps
  have hsource := (hkeeps ⟨fun _ _ => none, fun _ _ => [], fun _ _ => [], fun _ _ => []⟩
    (fun _ => none) Sample.ids
    { state := { confirmationPolicy := .alwaysConfirm, tags := .empty } }).1.settings
  cases congrArg SafetySettings.confirmationPolicy hsource

end Conversation

end ShuttleFlow
