import Mathlib.Data.List.Basic
import ShuttleFlow.Library.Dict

/-! # Profiles of LLM settings

A user saves settings under names, and activates one of them. The active profile is a copy, and
its base url may be filled in.
-/

namespace ShuttleFlow

/-- Settings of an LLM. Those that no request looks at are one value. -/
structure ProfileLlm (Other : Type) where
  model : List Char
  baseUrl : Option (List Char) := none
  apiKey : Option String := none
  apiVersion : Option String := none
  other : Other
  /-- Settings that come with a request are of a class of their own. -/
  strict : Bool := false
  deriving DecidableEq

namespace ProfileLlm

variable {Other : Type}

/-- A missing text or an empty one is replaced. -/
def orText {Text : Type} [DecidableEq Text] (empty default : Text) (text : Option Text) : Text :=
  match text with
  | none => default
  | some text => if text = empty then default else text

def isManaged (llm : ProfileLlm Other) : Bool :=
  "openhands/".toList.isPrefixOf llm.model

/-- The url of the provider is the default of the client, which has a longer path. -/
def isDirectOpenai (llm : ProfileLlm Other) : Bool :=
  "openai/".toList.isPrefixOf llm.model &&
    (llm.baseUrl = some "https://api.openai.com".toList ||
      llm.baseUrl = some "https://api.openai.com/".toList)

/-- Validation, which is made whenever settings are read. -/
def coerceInputs (llm : ProfileLlm Other) : ProfileLlm Other :=
  { llm with
    model :=
      if llm.isManaged then "litellm_proxy/".toList ++ llm.model.drop "openhands/".toList.length
      else llm.model
    baseUrl :=
      if llm.isManaged then
        some (orText [] "https://llm-proxy.app.all-hands.dev/".toList llm.baseUrl)
      else if llm.isDirectOpenai then none
      else llm.baseUrl
    apiVersion :=
      if "azure".toList.isPrefixOf llm.model then
        some (orText "" "2024-12-01-preview" llm.apiVersion)
      else llm.apiVersion }

/-- What is read of settings that were written. -/
def reload (llm : ProfileLlm Other) : ProfileLlm Other :=
  { llm.coerceInputs with strict := false }

end ProfileLlm

/-- What the server knows about providers. -/
structure ProviderHost where
  managedProxyUrl : List Char
  getProviderApiBase : List Char → Option (List Char)

def isOpenhandsModel (model : List Char) : Bool :=
  "openhands/".toList.isPrefixOf model || "litellm_proxy/".toList.isPrefixOf model

namespace ProviderHost

variable (host : ProviderHost)

def resolveLlmBaseUrl (model : List Char) (baseUrl : Option (List Char)) : Option (List Char) :=
  match baseUrl with
  | some [] => none
  | some url => some url
  | none =>
      if model = [] then none
      else if isOpenhandsModel model then some host.managedProxyUrl
      else host.getProviderApiBase model

def withBaseUrl {Other : Type} (llm : ProfileLlm Other) : ProfileLlm Other :=
  { llm with baseUrl := host.resolveLlmBaseUrl llm.model llm.baseUrl }

end ProviderHost

inductive ProfileError
  | settingsNotFound
  | profileNotFound (name : String)
  | limitExceeded (limit : Nat)
  | alreadyExists (name : String)
  /-- The payload of other settings is refused. -/
  | invalidPayload
  deriving DecidableEq, Repr

namespace ProfileError

def statusCode : ProfileError → Nat
  | settingsNotFound | profileNotFound _ => 404
  | limitExceeded _ | alreadyExists _ => 409
  | invalidPayload => 500

def detail : ProfileError → String
  | settingsNotFound => "Settings not found"
  | profileNotFound name => s!"Profile '{name}' not found"
  | limitExceeded limit =>
      s!"Profile limit reached ({limit}). Delete a profile before saving a new one."
  | alreadyExists name => s!"Profile '{name}' already exists"
  | invalidPayload => "Something went wrong storing settings"

end ProfileError

structure LLMProfiles (Other : Type) where
  profiles : Dict String (ProfileLlm Other) := .empty
  active : Option String := none
  deriving DecidableEq

namespace LLMProfiles

variable {Other : Type}

def maxProfilesPerUser : Nat := 10

/-- The active profile is one of the profiles, or none. -/
def reconcileActive (profiles : LLMProfiles Other) : LLMProfiles Other :=
  { profiles with
    active := profiles.active.filter fun name => (profiles.profiles.get? name).isSome }

/-- A new profile may be one too many. -/
def save (name : String) (llm : ProfileLlm Other) (includeSecrets : Bool)
    (profiles : LLMProfiles Other) : Except ProfileError (LLMProfiles Other) :=
  if (profiles.profiles.get? name).isNone ∧
      maxProfilesPerUser ≤ profiles.profiles.entries.length then
    .error (.limitExceeded maxProfilesPerUser)
  else
    let copy := if includeSecrets then llm else { llm with apiKey := none }
    .ok { profiles with profiles := profiles.profiles.set name copy }

/-- The renamed profile keeps its place. -/
def rename (oldName newName : String) (profiles : LLMProfiles Other) :
    Except ProfileError (LLMProfiles Other) :=
  if (profiles.profiles.get? oldName).isNone then .error (.profileNotFound oldName)
  else if newName = oldName then .ok profiles
  else if (profiles.profiles.get? newName).isSome then .error (.alreadyExists newName)
  else
    let renamed := { profiles with profiles := profiles.profiles.renameKey oldName newName }
    .ok
      (if profiles.active = some oldName then { renamed with active := some newName }
      else renamed.reconcileActive)

def delete (name : String) (profiles : LLMProfiles Other) : LLMProfiles Other × Bool :=
  if (profiles.profiles.get? name).isNone then (profiles, false)
  else
    ({ profiles := profiles.profiles.erase name
       active := if profiles.active = some name then none else profiles.active }, true)

end LLMProfiles

/-! ## Settings -/

inductive SettingsAgentKind
  | openhands
  | acp
  deriving DecidableEq, Repr

/-- The settings of the agent and the profiles. -/
structure UserSettings (Other : Type) where
  agentKind : SettingsAgentKind := .openhands
  llm : ProfileLlm Other
  llmProfiles : LLMProfiles Other := {}
  deriving DecidableEq

namespace UserSettings

variable {Other : Type}

section Reconciliation

variable [DecidableEq Other]

/-- The marker is dropped when the profile is not what runs. -/
def reconcileActiveProfile (settings : UserSettings Other) : UserSettings Other :=
  match settings.llmProfiles.active with
  | none => settings
  | some active =>
      if settings.llmProfiles.profiles.get? active = some settings.llm then settings
      else { settings with llmProfiles := { settings.llmProfiles with active := none } }

/-- What a payload makes of the settings of the agent, if they are valid then. -/
abbrev AgentUpdate (Other : Type) : Type :=
  SettingsAgentKind → ProfileLlm Other → Option (SettingsAgentKind × ProfileLlm Other)

def update (agentUpdate : AgentUpdate Other) (settings : UserSettings Other) :
    Except ProfileError (UserSettings Other) :=
  match agentUpdate settings.agentKind settings.llm with
  | none => .error .invalidPayload
  | some (agentKind, llm) =>
      .ok { settings with agentKind, llm := llm.reload }.reconcileActiveProfile

end Reconciliation

def switchToProfile (name : String) (settings : UserSettings Other) :
    Except ProfileError (UserSettings Other) :=
  match settings.llmProfiles.profiles.get? name with
  | none => .error (.profileNotFound name)
  | some llm =>
      .ok { settings with llm, llmProfiles := { settings.llmProfiles with active := some name } }

/-- Without the active profile the first one is active, if there is one. -/
def deleteProfile (name : String) (settings : UserSettings Other) :
    Option (UserSettings Other) :=
  match settings.llmProfiles.delete name with
  | (_, false) => none
  | (llmProfiles, true) =>
      let deleted := { settings with llmProfiles }
      if settings.llmProfiles.active = some name then
        match llmProfiles.profiles.keys with
        | [] => some deleted
        | fallback :: _ => (deleted.switchToProfile fallback).toOption
      else some deleted

/-- The base url is filled in. -/
def postMergeLlmFixups (host : ProviderHost) (settings : UserSettings Other) :
    UserSettings Other :=
  match settings.agentKind with
  | .acp => settings
  | .openhands => { settings with llm := host.withBaseUrl settings.llm }

/-- What is written does not tell the class of the settings. -/
def dump (settings : UserSettings Other) : UserSettings Other where
  agentKind := settings.agentKind
  llm := { settings.llm with strict := false }
  llmProfiles :=
    { profiles := settings.llmProfiles.profiles.filterMap fun _ llm =>
        some { llm with strict := false }
      active := settings.llmProfiles.active }

/-- Settings that were written and are read. -/
def reload (settings : UserSettings Other) : UserSettings Other where
  agentKind := settings.agentKind
  llm := settings.llm.reload
  llmProfiles := LLMProfiles.reconcileActive
    { profiles := settings.llmProfiles.profiles.filterMap fun _ llm => some llm.reload
      active := settings.llmProfiles.active }

end UserSettings

/-- The file of a user. An old one has no profiles. -/
inductive SettingsFile (Other : Type)
  | missing
  | legacy (agentKind : SettingsAgentKind) (llm : Option (ProfileLlm Other))
  | current (settings : UserSettings Other)

/-- Without profiles the settings are the only profile. -/
def SettingsFile.load {Other : Type} (default : ProfileLlm Other) :
    SettingsFile Other → Option (UserSettings Other)
  | missing => none
  | legacy agentKind none => some { agentKind, llm := default.reload }
  | legacy agentKind (some llm) =>
      some
        { agentKind
          llm := llm.reload
          llmProfiles :=
            { profiles := Dict.empty.set "Default" llm.reload
              active := some "Default" } }
  | current settings => some settings.reload

/-! ## Requests -/

inductive ProfileRequest (Other : Type)
  | storeSettings (update : UserSettings.AgentUpdate Other)
  | saveProfile (name : String) (llm : Option (ProfileLlm Other)) (includeSecrets : Bool)
  | deleteProfile (name : String)
  | activateProfile (name : String)
  | renameProfile (name newName : String)

namespace ProfileRequest

variable {Other : Type} [DecidableEq Other] (host : ProviderHost) (default : ProfileLlm Other)

/-- Without settings of its own the profile gets those that run. An omitted key is kept. -/
def profileLlm (name : String) (llm : Option (ProfileLlm Other)) (settings : UserSettings Other) :
    ProfileLlm Other :=
  match llm with
  | none => settings.llm
  | some llm =>
      let llm := { llm.coerceInputs with strict := true }
      { llm with
        apiKey := llm.apiKey.or
          ((settings.llmProfiles.profiles.get? name).bind fun existing => existing.apiKey) }

/-- The settings to be stored, unless there is nothing to store. -/
def handle (loaded : Option (UserSettings Other)) :
    ProfileRequest Other → Except ProfileError (Option (UserSettings Other))
  | storeSettings update =>
      ((loaded.getD { llm := default.reload }).update update).map fun settings =>
        some (settings.postMergeLlmFixups host)
  | saveProfile name llm includeSecrets =>
      match loaded with
      | none => .error .settingsNotFound
      | some settings =>
          (settings.llmProfiles.save name (profileLlm name llm settings) includeSecrets).map
            fun llmProfiles => some { settings with llmProfiles }.reconcileActiveProfile
  | deleteProfile name => .ok (loaded.bind (UserSettings.deleteProfile name))
  | activateProfile name =>
      match loaded with
      | none => .error (.profileNotFound name)
      | some settings =>
          (settings.switchToProfile name).map fun settings =>
            some (settings.postMergeLlmFixups host)
  | renameProfile name newName =>
      match loaded with
      | none => .error .settingsNotFound
      | some settings =>
          (settings.llmProfiles.rename name newName).map fun llmProfiles =>
            some { settings with llmProfiles }

/-- A request that fails leaves the file as it is. -/
def apply (file : SettingsFile Other) (request : ProfileRequest Other) : SettingsFile Other :=
  match request.handle host default (file.load default) with
  | .ok (some settings) => .current settings.dump
  | .ok none | .error _ => file

end ProfileRequest

end ShuttleFlow
