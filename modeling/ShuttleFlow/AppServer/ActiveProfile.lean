import Mathlib.Data.List.Induction
import ShuttleFlow.AppServer.LlmProfiles

/-! # Whether the active profile is what runs

The profile that runs may have its base url filled in. Then it is no longer equal to the one that
was saved, and the next settings that are stored drop the marker.
-/

namespace ShuttleFlow

namespace UserSettings

variable {Other : Type}

/-- The active profile is a saved one, and runs up to its base url. -/
structure Honest (host : ProviderHost) (settings : UserSettings Other) : Prop where
  coerced : ∀ name profile, settings.llmProfiles.profiles.get? name = some profile →
    profile.coerceInputs = profile
  active : ∀ name, settings.llmProfiles.active = some name →
    ∃ profile, settings.llmProfiles.profiles.get? name = some profile ∧
      (settings.llm = profile ∨
        settings.agentKind = .openhands ∧ settings.llm = host.withBaseUrl profile)

/-- The payload leaves the LLM as it is. -/
def LeavesLlm (settings : UserSettings Other) (update : AgentUpdate Other)
    (agentKind : SettingsAgentKind) : Prop :=
  ∃ llm, update settings.agentKind settings.llm = some (agentKind, llm) ∧ llm.reload = settings.llm

end UserSettings

namespace SettingsFile

variable {Other : Type} [DecidableEq Other] (host : ProviderHost) (default : ProfileLlm Other)

/-- What is stored never lies. -/
def Truthful : SettingsFile Other → Prop
  | missing | legacy _ _ => True
  | current settings => ∀ name, settings.llmProfiles.active = some name →
      ∃ profile, settings.llmProfiles.profiles.get? name = some profile ∧
        (settings.llm = profile ∨ settings.llm = host.withBaseUrl profile)

/-- Storing other settings keeps the marker and what runs. -/
def KeepsActive (file : SettingsFile Other) (update : UserSettings.AgentUpdate Other) : Prop :=
  ∀ settings name agentKind, file.load default = some settings →
    settings.llmProfiles.active = some name → settings.LeavesLlm update agentKind →
    ∃ after, (ProfileRequest.apply host default file (.storeSettings update)).load default =
        some after ∧
      after.llmProfiles.active = some name ∧ after.llm = settings.llm

/-- The profile runs as it was saved, and has nothing that is to be filled in. -/
def Settled (file : SettingsFile Other) (update : UserSettings.AgentUpdate Other) : Prop :=
  ∀ settings name agentKind, file.load default = some settings →
    settings.llmProfiles.active = some name → settings.LeavesLlm update agentKind →
    settings.llmProfiles.profiles.get? name = some settings.llm ∧
      (agentKind = .openhands → (host.withBaseUrl settings.llm).reload = settings.llm)

end SettingsFile

/-! ## Validation -/

namespace ProfileLlm

variable {Other : Type} {llm : ProfileLlm Other}

@[simp]
theorem coerceInputs_strict (llm : ProfileLlm Other) (strict : Bool) :
    { llm with strict }.coerceInputs = { llm.coerceInputs with strict } := rfl

@[simp]
theorem coerceInputs_apiKey (llm : ProfileLlm Other) (apiKey : Option String) :
    { llm with apiKey }.coerceInputs = { llm.coerceInputs with apiKey } := rfl

theorem orText_orText {Text : Type} [DecidableEq Text] {empty default : Text} (text : Option Text) :
    orText empty default (some (orText empty default text)) = orText empty default text := by
  unfold orText
  cases text with
  | none => simp
  | some text => by_cases hempty : text = empty <;> simp [hempty]

theorem isDirectOpenai_of_none (hbase : llm.baseUrl = none) : llm.isDirectOpenai = false := by
  rw [isDirectOpenai, hbase]
  exact Bool.and_false _

theorem model_coerceInputs (hmanaged : llm.isManaged = false) :
    llm.coerceInputs.model = llm.model := by
  rw [coerceInputs, hmanaged]
  rfl

theorem model_coerceInputs_of_managed (hmanaged : llm.isManaged = true) :
    ∃ rest, llm.coerceInputs.model = 'l' :: rest :=
  ⟨_, if_pos hmanaged⟩

theorem isManaged_coerceInputs (llm : ProfileLlm Other) : llm.coerceInputs.isManaged = false := by
  unfold isManaged
  cases hmanaged : llm.isManaged with
  | true =>
      obtain ⟨rest, hmodel⟩ := model_coerceInputs_of_managed hmanaged
      rw [hmodel]
      rfl
  | false =>
      rw [model_coerceInputs hmanaged]
      exact hmanaged

theorem isDirectOpenai_coerceInputs (llm : ProfileLlm Other) :
    llm.coerceInputs.isDirectOpenai = false := by
  cases hmanaged : llm.isManaged with
  | true =>
      obtain ⟨rest, hmodel⟩ := model_coerceInputs_of_managed hmanaged
      unfold isDirectOpenai
      rw [hmodel]
      rfl
  | false =>
      cases hdirect : llm.isDirectOpenai with
      | true =>
          have hbase : llm.coerceInputs.baseUrl = none := by
            rw [coerceInputs, hmanaged, hdirect]
            rfl
          exact isDirectOpenai_of_none hbase
      | false =>
          have hbase : llm.coerceInputs.baseUrl = llm.baseUrl := by
            rw [coerceInputs, hmanaged, hdirect]
            rfl
          rw [isDirectOpenai, model_coerceInputs hmanaged, hbase]
          exact hdirect

/-- Whoever is validated stays as it is. -/
theorem coerceInputs_eq_iff : llm.coerceInputs = llm ↔
    llm.isManaged = false ∧ llm.isDirectOpenai = false ∧
      ("azure".toList.isPrefixOf llm.model →
        llm.apiVersion = some (orText "" "2024-12-01-preview" llm.apiVersion)) := by
  constructor
  · intro hfixed
    refine ⟨hfixed ▸ isManaged_coerceInputs llm, hfixed ▸ isDirectOpenai_coerceInputs llm, ?_⟩
    intro hazure
    exact (congrArg apiVersion hfixed).symm.trans (if_pos hazure)
  · intro ⟨hmanaged, hdirect, hazure⟩
    unfold coerceInputs
    simp only [hmanaged, hdirect, Bool.false_eq_true, if_false]
    split
    next hprefixed => rw [← hazure hprefixed]
    next => rfl

theorem coerceInputs_coerceInputs (llm : ProfileLlm Other) :
    llm.coerceInputs.coerceInputs = llm.coerceInputs := by
  refine coerceInputs_eq_iff.mpr
    ⟨isManaged_coerceInputs llm, isDirectOpenai_coerceInputs llm, fun hazure => ?_⟩
  cases hmanaged : llm.isManaged with
  | true =>
      obtain ⟨rest, hmodel⟩ := model_coerceInputs_of_managed hmanaged
      rw [hmodel] at hazure
      cases hazure
  | false =>
      rw [model_coerceInputs hmanaged] at hazure
      have hversion : llm.coerceInputs.apiVersion =
          some (orText "" "2024-12-01-preview" llm.apiVersion) := if_pos hazure
      rw [hversion, orText_orText]

theorem reload_eq (hcoerced : llm.coerceInputs = llm) :
    llm.reload = { llm with strict := false } := by
  rw [reload, hcoerced]

theorem coerceInputs_reload (llm : ProfileLlm Other) : llm.reload.coerceInputs = llm.reload := by
  unfold reload
  rw [coerceInputs_strict, coerceInputs_coerceInputs]

theorem reload_reload (llm : ProfileLlm Other) : llm.reload.reload = llm.reload := by
  rw [reload_eq (coerceInputs_reload llm)]
  rfl

/-- What is filled in for a validated profile stays, or it is taken away again. -/
theorem coerceInputs_withBaseUrl (host : ProviderHost) (hcoerced : llm.coerceInputs = llm) :
    (host.withBaseUrl llm).coerceInputs = llm ∨
      (host.withBaseUrl llm).coerceInputs = host.withBaseUrl llm := by
  obtain ⟨hmanaged, hdirect, hazure⟩ := coerceInputs_eq_iff.mp hcoerced
  cases hfilled : (host.withBaseUrl llm).isDirectOpenai with
  | false => exact .inr (coerceInputs_eq_iff.mpr ⟨hmanaged, hfilled, hazure⟩)
  | true =>
      left
      have hbase : llm.baseUrl = none := by
        cases hbase : llm.baseUrl with
        | none => rfl
        | some url =>
            cases url with
            | nil =>
                have hcleared : (host.withBaseUrl llm).baseUrl = none := by
                  rw [ProviderHost.withBaseUrl, hbase]
                  rfl
                rw [isDirectOpenai_of_none hcleared] at hfilled
                cases hfilled
            | cons first rest =>
                have hsame : host.withBaseUrl llm = llm := by
                  unfold ProviderHost.withBaseUrl ProviderHost.resolveLlmBaseUrl
                  rw [hbase]
                  simp only [← hbase]
                rw [hsame, hdirect] at hfilled
                cases hfilled
      have hkept : (host.withBaseUrl llm).coerceInputs =
          { llm.coerceInputs with baseUrl := none } := by
        have hmodel : (host.withBaseUrl llm).isManaged = false := hmanaged
        rw [coerceInputs, hmodel, hfilled, coerceInputs, hmanaged]
        rfl
      rw [hkept, hcoerced, ← hbase]

end ProfileLlm

/-! ## One request -/

namespace UserSettings

variable {Other : Type} {host : ProviderHost} {settings after : UserSettings Other}

/-- The active profile runs as it was saved. -/
structure Exact (settings : UserSettings Other) : Prop where
  coerced : ∀ name profile, settings.llmProfiles.profiles.get? name = some profile →
    profile.coerceInputs = profile
  active : ∀ name, settings.llmProfiles.active = some name →
    settings.llmProfiles.profiles.get? name = some settings.llm

theorem Exact.honest (hexact : settings.Exact) (host : ProviderHost) : settings.Honest host where
  coerced := hexact.coerced
  active name hactive := ⟨settings.llm, hexact.active name hactive, .inl rfl⟩

theorem Exact.postMergeLlmFixups (hexact : settings.Exact) (host : ProviderHost) :
    (settings.postMergeLlmFixups host).Honest host := by
  unfold UserSettings.postMergeLlmFixups
  cases hkind : settings.agentKind with
  | acp => exact hexact.honest host
  | openhands =>
      refine ⟨hexact.coerced, fun name hactive => ?_⟩
      exact ⟨settings.llm, hexact.active name hactive, .inr ⟨rfl, rfl⟩⟩

theorem reconcileActiveProfile_exact [DecidableEq Other]
    (hcoerced : ∀ name profile, settings.llmProfiles.profiles.get? name = some profile →
      profile.coerceInputs = profile) : settings.reconcileActiveProfile.Exact := by
  unfold reconcileActiveProfile
  cases hactive : settings.llmProfiles.active with
  | none =>
      refine ⟨hcoerced, fun name hname => ?_⟩
      cases hactive.symm.trans hname
  | some active =>
      simp only
      split
      next hsaved =>
        refine ⟨hcoerced, fun name hname => ?_⟩
        cases hactive.symm.trans hname
        exact hsaved
      next =>
        refine ⟨hcoerced, fun name hname => ?_⟩
        cases hname

theorem reconcileActiveProfile_of_saved [DecidableEq Other] {name : String}
    (hactive : settings.llmProfiles.active = some name)
    (hsaved : settings.llmProfiles.profiles.get? name = some settings.llm) :
    settings.reconcileActiveProfile = settings := by
  unfold reconcileActiveProfile
  simp only [hactive, hsaved, if_true]

theorem active_reconcileActiveProfile [DecidableEq Other] {name : String}
    (hactive : settings.llmProfiles.active = some name)
    (hsaved : settings.llmProfiles.profiles.get? name ≠ some settings.llm) :
    settings.reconcileActiveProfile.llmProfiles.active = none := by
  unfold reconcileActiveProfile
  simp only [hactive, if_neg hsaved]

theorem llmProfiles_postMergeLlmFixups (host : ProviderHost) (settings : UserSettings Other) :
    (settings.postMergeLlmFixups host).llmProfiles = settings.llmProfiles := by
  unfold postMergeLlmFixups
  split <;> rfl

theorem get?_map (profiles : Dict String (ProfileLlm Other))
    (f : ProfileLlm Other → ProfileLlm Other) (name : String) :
    (profiles.filterMap fun _ llm => some (f llm)).get? name = (profiles.get? name).map f := by
  rw [Dict.get?_filterMap]
  cases profiles.get? name <;> rfl

theorem active_dump_reload {name : String} {profile : ProfileLlm Other}
    (hactive : settings.llmProfiles.active = some name)
    (hprofile : settings.llmProfiles.profiles.get? name = some profile) :
    settings.dump.reload.llmProfiles.active = some name := by
  change Option.filter _ settings.llmProfiles.active = some name
  rw [hactive, Option.filter_some, if_pos]
  change ((settings.dump.llmProfiles.profiles.filterMap fun _ llm => some llm.reload).get?
    name).isSome
  rw [get?_map, Option.isSome_map]
  change ((settings.llmProfiles.profiles.filterMap fun _ llm =>
    some { llm with strict := false }).get? name).isSome
  rw [get?_map, hprofile]
  rfl

/-- What is written and read again is as honest as before. -/
theorem Honest.reload (hhonest : settings.Honest host) : settings.reload.Honest host where
  coerced := by
    intro name profile hprofile
    obtain ⟨old, -, rfl⟩ := Option.map_eq_some_iff.mp ((get?_map _ _ _).symm.trans hprofile)
    exact ProfileLlm.coerceInputs_reload old
  active := by
    intro name hactive
    obtain ⟨profile, hprofile, hruns⟩ :=
      hhonest.active name (Option.eq_some_of_filter_eq_some hactive)
    have hcoerced := hhonest.coerced name profile hprofile
    refine ⟨profile.reload, ?_, ?_⟩
    · refine (get?_map _ _ _).trans ?_
      rw [hprofile, Option.map_some]
    · rcases hruns with hexact | ⟨hkind, hfilled⟩
      · exact .inl (congrArg ProfileLlm.reload hexact)
      · change settings.llm.reload = _ ∨ settings.agentKind = _ ∧ settings.llm.reload = _
        rw [hfilled, ProfileLlm.reload_eq hcoerced, ProfileLlm.reload]
        rcases ProfileLlm.coerceInputs_withBaseUrl host hcoerced with hemptied | hstays
        · left
          rw [hemptied]
        · right
          refine ⟨hkind, ?_⟩
          rw [hstays]
          rfl

theorem Honest.dump (hhonest : settings.Honest host) : settings.dump.Honest host where
  coerced := by
    intro name profile hprofile
    obtain ⟨old, hold, rfl⟩ := Option.map_eq_some_iff.mp ((get?_map _ _ _).symm.trans hprofile)
    rw [ProfileLlm.coerceInputs_strict, hhonest.coerced name old hold]
  active := by
    intro name hactive
    obtain ⟨profile, hprofile, hruns⟩ := hhonest.active name hactive
    refine ⟨{ profile with strict := false }, ?_, ?_⟩
    · refine (get?_map _ _ _).trans ?_
      rw [hprofile, Option.map_some]
    · rcases hruns with hexact | ⟨hkind, hfilled⟩
      · left
        rw [← hexact]
        rfl
      · right
        refine ⟨hkind, ?_⟩
        change { settings.llm with strict := false } = _
        rw [hfilled]
        rfl

theorem switchToProfile_exact {name : String}
    (hcoerced : ∀ name profile, settings.llmProfiles.profiles.get? name = some profile →
      profile.coerceInputs = profile)
    (hswitch : settings.switchToProfile name = .ok after) : after.Exact := by
  unfold switchToProfile at hswitch
  split at hswitch
  next => cases hswitch
  next llm hllm =>
    cases hswitch
    refine ⟨hcoerced, fun other hactive => ?_⟩
    cases hactive
    exact hllm

theorem Honest.deleteProfile (hhonest : settings.Honest host) {name : String}
    (hdelete : settings.deleteProfile name = some after) : after.Honest host := by
  unfold UserSettings.deleteProfile LLMProfiles.delete at hdelete
  have hcoerced : ∀ other profile,
      (settings.llmProfiles.profiles.erase name).get? other = some profile →
        profile.coerceInputs = profile := by
    intro other profile hprofile
    rw [Dict.get?_erase] at hprofile
    split at hprofile
    next => cases hprofile
    next => exact hhonest.coerced other profile hprofile
  split at hdelete
  next => cases hdelete
  next llmProfiles hdeleted =>
    split at hdeleted
    next => cases hdeleted
    next =>
      cases hdeleted
      simp only at hdelete
      split at hdelete
      next hactive =>
        split at hdelete
        next =>
          cases hdelete
          refine ⟨hcoerced, fun other hother => ?_⟩
          cases hother
        next fallback rest _ =>
          cases hswitch : UserSettings.switchToProfile fallback _ with
          | error error =>
              rw [hswitch] at hdelete
              cases hdelete
          | ok switched =>
              rw [hswitch] at hdelete
              cases hdelete
              exact (switchToProfile_exact hcoerced hswitch).honest host
      next hactive =>
        cases hdelete
        refine ⟨hcoerced, fun other hother => ?_⟩
        obtain ⟨profile, hprofile, hruns⟩ := hhonest.active other hother
        refine ⟨profile, ?_, hruns⟩
        rw [Dict.get?_erase, if_neg]
        · exact hprofile
        · rintro rfl
          exact hactive hother

theorem Honest.rename (hhonest : settings.Honest host) {oldName newName : String}
    {llmProfiles : LLMProfiles Other}
    (hrename : settings.llmProfiles.rename oldName newName = .ok llmProfiles) :
    { settings with llmProfiles }.Honest host := by
  unfold LLMProfiles.rename at hrename
  split at hrename
  next => cases hrename
  next hold =>
    split at hrename
    next =>
      cases hrename
      exact hhonest
    next hne =>
      split at hrename
      next => cases hrename
      next hnew =>
        rw [Option.not_isSome_iff_eq_none] at hnew
        cases hrename
        have hget := @Dict.get?_renameKey _ _ _ _ oldName _ hnew
        have hcoerced : ∀ name profile,
            (settings.llmProfiles.profiles.renameKey oldName newName).get? name = some profile →
              profile.coerceInputs = profile := by
          intro name profile hprofile
          rw [hget] at hprofile
          split at hprofile
          next => exact hhonest.coerced oldName profile hprofile
          next =>
            split at hprofile
            next => cases hprofile
            next => exact hhonest.coerced name profile hprofile
        split
        next hactive =>
          refine ⟨hcoerced, fun name hname => ?_⟩
          cases hname
          obtain ⟨profile, hprofile, hruns⟩ := hhonest.active oldName hactive
          refine ⟨profile, ?_, hruns⟩
          rw [hget, if_pos rfl]
          exact hprofile
        next hactive =>
          refine ⟨hcoerced, fun name hname => ?_⟩
          have hkept : settings.llmProfiles.active = some name :=
            Option.eq_some_of_filter_eq_some hname
          obtain ⟨profile, hprofile, hruns⟩ := hhonest.active name hkept
          refine ⟨profile, ?_, hruns⟩
          change (settings.llmProfiles.profiles.renameKey oldName newName).get? name = _
          rw [hget, if_neg, if_neg]
          · exact hprofile
          · rintro rfl
            exact hactive hkept
          · rintro rfl
            cases hnew.symm.trans hprofile

theorem Honest.saveProfile [DecidableEq Other] (hhonest : settings.Honest host)
    (hruns : settings.llm.coerceInputs = settings.llm) {name : String}
    {llm : Option (ProfileLlm Other)} {includeSecrets : Bool} {llmProfiles : LLMProfiles Other}
    (hsave : settings.llmProfiles.save name (ProfileRequest.profileLlm name llm settings)
      includeSecrets = .ok llmProfiles) :
    { settings with llmProfiles }.reconcileActiveProfile.Exact := by
  unfold LLMProfiles.save at hsave
  split at hsave
  next => cases hsave
  next =>
    cases hsave
    refine reconcileActiveProfile_exact fun other profile hprofile => ?_
    have hgiven : (ProfileRequest.profileLlm name llm settings).coerceInputs =
        ProfileRequest.profileLlm name llm settings := by
      cases llm with
      | none => exact hruns
      | some llm =>
          unfold ProfileRequest.profileLlm
          rw [ProfileLlm.coerceInputs_apiKey, ProfileLlm.coerceInputs_strict,
            ProfileLlm.coerceInputs_coerceInputs]
    rw [Dict.get?_set] at hprofile
    split at hprofile
    next =>
      cases hprofile
      split
      next => exact hgiven
      next => rw [ProfileLlm.coerceInputs_apiKey, hgiven]
    next => exact hhonest.coerced other profile hprofile

end UserSettings

/-! ## Runs -/

namespace SettingsFile

variable {Other : Type} {host : ProviderHost} {default : ProfileLlm Other}
  {file : SettingsFile Other} {settings after : UserSettings Other}

theorem eq_ok_of_map_eq_ok {ε α β : Type} {f : α → β} {result : Except ε α} {value : β}
    (hmap : result.map f = .ok value) : ∃ given, result = .ok given ∧ f given = value := by
  cases result with
  | error error => cases hmap
  | ok given => exact ⟨given, rfl, Except.ok.inj hmap⟩

/-- What a file with profiles holds is honest. -/
def Sound (host : ProviderHost) : SettingsFile Other → Prop
  | missing | legacy _ _ => True
  | current settings => settings.Honest host

theorem Sound.load (hsound : file.Sound host) (hload : file.load default = some settings) :
    settings.Honest host ∧ settings.llm.reload = settings.llm := by
  cases file with
  | missing => cases hload
  | legacy agentKind llm =>
      cases llm with
      | none =>
          cases hload
          refine ⟨⟨fun name profile hprofile => ?_, fun name hactive => ?_⟩, ?_⟩
          · cases hprofile
          · cases hactive
          · exact ProfileLlm.reload_reload default
      | some llm =>
          cases hload
          refine ⟨⟨fun name profile hprofile => ?_, fun name hactive => ?_⟩, ?_⟩
          · rw [Dict.get?_set] at hprofile
            split at hprofile
            next =>
              cases hprofile
              exact ProfileLlm.coerceInputs_reload llm
            next => cases hprofile
          · cases hactive
            refine ⟨llm.reload, ?_, .inl rfl⟩
            rw [Dict.get?_set, if_pos rfl]
          · exact ProfileLlm.reload_reload llm
  | current stored =>
      cases hload
      refine ⟨UserSettings.Honest.reload hsound, ?_⟩
      exact ProfileLlm.reload_reload stored.llm

theorem Sound.truthful (hsound : file.Sound host) : file.Truthful host := by
  cases file with
  | missing => trivial
  | legacy agentKind llm => trivial
  | current settings =>
      intro name hactive
      obtain ⟨profile, hprofile, hruns⟩ := hsound.active name hactive
      exact ⟨profile, hprofile, hruns.imp_right And.right⟩

/-- With an agent whose LLM is filled in, a profile is settled when that changes nothing. -/
theorem settled_iff (hsound : file.Sound host) {name : String} {profile : ProfileLlm Other}
    (hload : file.load default = some settings)
    (hactive : settings.llmProfiles.active = some name)
    (hprofile : settings.llmProfiles.profiles.get? name = some profile)
    {update : UserSettings.AgentUpdate Other} (hleaves : settings.LeavesLlm update .openhands) :
    file.Settled host default update ↔ (host.withBaseUrl profile).reload = profile := by
  obtain ⟨hhonest, hreloaded⟩ := hsound.load hload
  constructor
  · intro hsettled
    obtain ⟨hsaved, hfilled⟩ := hsettled settings name _ hload hactive hleaves
    cases hprofile.symm.trans hsaved
    exact hfilled rfl
  · intro hfilled other otherName agentKind hother hotherActive hotherLeaves
    cases hload.symm.trans hother
    cases hactive.symm.trans hotherActive
    obtain ⟨saved, hsaved, hruns⟩ := hhonest.active name hactive
    cases hprofile.symm.trans hsaved
    have hexact : settings.llm = profile := by
      rcases hruns with hexact | ⟨-, hinferred⟩
      · exact hexact
      · rw [← hreloaded, hinferred, hfilled]
    rw [hexact]
    exact ⟨hprofile, fun _ => hfilled⟩

section Requests

variable [DecidableEq Other]

theorem update_exact {update : UserSettings.AgentUpdate Other}
    (hcoerced : ∀ name profile, settings.llmProfiles.profiles.get? name = some profile →
      profile.coerceInputs = profile)
    (hupdate : settings.update update = .ok after) : after.Exact := by
  unfold UserSettings.update at hupdate
  split at hupdate
  next => cases hupdate
  next =>
    cases hupdate
    exact UserSettings.reconcileActiveProfile_exact hcoerced

/-- Whatever is stored is honest. -/
theorem Sound.handle (hsound : file.Sound host) {request : ProfileRequest Other}
    (hhandle : request.handle host default (file.load default) = .ok (some after)) :
    after.Honest host := by
  cases request with
  | storeSettings update =>
      obtain ⟨settings, hupdate, hafter⟩ := eq_ok_of_map_eq_ok hhandle
      cases hafter
      refine (update_exact ?_ hupdate).postMergeLlmFixups host
      cases hload : file.load default with
      | none =>
          intro name profile hprofile
          cases hprofile
      | some settings => exact (hsound.load hload).1.coerced
  | deleteProfile name =>
      obtain ⟨settings, hload, hdelete⟩ := Option.bind_eq_some_iff.mp (Except.ok.inj hhandle)
      exact (hsound.load hload).1.deleteProfile hdelete
  | saveProfile name llm includeSecrets =>
      cases hload : file.load default with
      | none =>
          rw [hload] at hhandle
          cases hhandle
      | some settings =>
          rw [hload] at hhandle
          obtain ⟨hhonest, hruns⟩ := hsound.load hload
          obtain ⟨llmProfiles, hsave, hafter⟩ := eq_ok_of_map_eq_ok hhandle
          cases hafter
          have hcoerced := ProfileLlm.coerceInputs_reload settings.llm
          rw [hruns] at hcoerced
          exact (hhonest.saveProfile hcoerced hsave).honest host
  | activateProfile name =>
      cases hload : file.load default with
      | none =>
          rw [hload] at hhandle
          cases hhandle
      | some settings =>
          rw [hload] at hhandle
          obtain ⟨switched, hswitch, hafter⟩ := eq_ok_of_map_eq_ok hhandle
          cases hafter
          have hcoerced := (hsound.load hload).1.coerced
          exact (UserSettings.switchToProfile_exact hcoerced hswitch).postMergeLlmFixups host
  | renameProfile name newName =>
      cases hload : file.load default with
      | none =>
          rw [hload] at hhandle
          cases hhandle
      | some settings =>
          rw [hload] at hhandle
          obtain ⟨llmProfiles, hrename, hafter⟩ := eq_ok_of_map_eq_ok hhandle
          cases hafter
          exact (hsound.load hload).1.rename hrename

theorem Sound.apply (hsound : file.Sound host) (request : ProfileRequest Other) :
    (request.apply host default file).Sound host := by
  unfold ProfileRequest.apply
  split
  next settings hhandle => exact (hsound.handle hhandle).dump
  next => exact hsound
  next => exact hsound

/-- The file after requests, which may begin with an old one. -/
def run (host : ProviderHost) (default : ProfileLlm Other)
    (old : Option (SettingsAgentKind × Option (ProfileLlm Other)))
    (requests : List (ProfileRequest Other)) : SettingsFile Other :=
  requests.foldl (ProfileRequest.apply host default)
    (old.elim .missing fun (agentKind, llm) => .legacy agentKind llm)

theorem sound_run (host : ProviderHost) (default : ProfileLlm Other)
    (old : Option (SettingsAgentKind × Option (ProfileLlm Other)))
    (requests : List (ProfileRequest Other)) : (run host default old requests).Sound host := by
  induction requests using List.reverseRecOn with
  | nil => cases old <;> exact trivial
  | append_singleton requests request ih =>
      rw [run, List.foldl_append]
      exact ih.apply request

/-- What is read after settings were stored that leave the LLM as it is. -/
theorem load_storeSettings {update : UserSettings.AgentUpdate Other}
    {agentKind : SettingsAgentKind} (hload : file.load default = some settings)
    (hleaves : settings.LeavesLlm update agentKind) :
    (ProfileRequest.apply host default file (.storeSettings update)).load default =
      some (UserSettings.postMergeLlmFixups host
        { settings with agentKind }.reconcileActiveProfile).dump.reload := by
  obtain ⟨llm, hupdate, hllm⟩ := hleaves
  have hdone : settings.update update =
      .ok { settings with agentKind }.reconcileActiveProfile := by
    unfold UserSettings.update
    simp only [hupdate, hllm]
  unfold ProfileRequest.apply ProfileRequest.handle
  simp only [hload, Option.getD_some, hdone]
  rfl

theorem keepsActive_iff_settled (hsound : file.Sound host)
    (update : UserSettings.AgentUpdate Other) :
    file.KeepsActive host default update ↔ file.Settled host default update := by
  refine forall_congr' fun settings => forall_congr' fun name => forall_congr' fun agentKind =>
    forall_congr' fun hload => forall_congr' fun hactive => forall_congr' fun hleaves => ?_
  obtain ⟨hhonest, hreloaded⟩ := hsound.load hload
  rw [load_storeSettings hload hleaves]
  simp only [Option.some.injEq, exists_eq_left']
  by_cases hsaved : settings.llmProfiles.profiles.get? name = some settings.llm
  · have hkept : { settings with agentKind }.reconcileActiveProfile = { settings with agentKind } :=
      UserSettings.reconcileActiveProfile_of_saved hactive hsaved
    rw [and_iff_right hsaved, hkept, and_iff_right]
    · cases agentKind with
      | acp => exact ⟨fun _ hkind => (by cases hkind), fun _ => hreloaded⟩
      | openhands => exact ⟨fun hkept _ => hkept, fun hsettled => hsettled rfl⟩
    · apply UserSettings.active_dump_reload
      · rw [UserSettings.llmProfiles_postMergeLlmFixups]
        exact hactive
      · rw [UserSettings.llmProfiles_postMergeLlmFixups]
        exact hsaved
  · refine iff_of_false (fun hkept => ?_) fun hsettled => hsaved hsettled.1
    have hdropped : { settings with agentKind }.reconcileActiveProfile.llmProfiles.active = none :=
      UserSettings.active_reconcileActiveProfile hactive hsaved
    have hactive : (UserSettings.postMergeLlmFixups host
        { settings with agentKind }.reconcileActiveProfile).llmProfiles.active = some name :=
      Option.eq_some_of_filter_eq_some hkept.1
    rw [UserSettings.llmProfiles_postMergeLlmFixups, hdropped] at hactive
    cases hactive

/-- What is stored never lies, and the marker is kept when the profile is settled. -/
theorem truthful_and_keepsActive_iff (host : ProviderHost) (default : ProfileLlm Other)
    (old : Option (SettingsAgentKind × Option (ProfileLlm Other)))
    (requests : List (ProfileRequest Other)) :
    (run host default old requests).Truthful host ∧
      ∀ update, (run host default old requests).KeepsActive host default update ↔
        (run host default old requests).Settled host default update :=
  have hsound := sound_run host default old requests
  ⟨hsound.truthful, keepsActive_iff_settled hsound⟩

end Requests

section Activation

def anthropicHost : ProviderHost where
  managedProxyUrl := "https://llm-proxy.app.all-hands.dev".toList
  getProviderApiBase model :=
    if "anthropic/".toList.isPrefixOf model then some "https://api.anthropic.com".toList else none

def claude : ProfileLlm Unit where
  model := "anthropic/claude-opus-4".toList
  other := ()

/-- The profile has no base url, so one is filled in. -/
def activation : List (ProfileRequest Unit) :=
  [.storeSettings fun agentKind llm => some (agentKind, llm),
    .saveProfile "claude" (some claude) true, .activateProfile "claude"]

/-- A payload without settings of the agent drops the marker. -/
theorem not_keepsActive_after_activation :
    ¬∀ (requests : List (ProfileRequest Unit)) update,
      (run anthropicHost claude none requests).Truthful anthropicHost ∧
        (run anthropicHost claude none requests).KeepsActive anthropicHost claude update := by
  intro hall
  have hsound := sound_run anthropicHost claude none activation
  have hrun : ((run anthropicHost claude none activation).load claude).map (fun settings =>
      (settings.llmProfiles.active, decide (settings.llmProfiles.profiles.get? "claude" =
        some settings.llm))) = some (some "claude", false) := by
    decide +kernel
  obtain ⟨settings, hload, hresult⟩ := Option.map_eq_some_iff.mp hrun
  obtain ⟨hactive, hdiffers⟩ := Prod.mk.inj hresult
  have hkeeps := (hall activation fun agentKind llm => some (agentKind, llm)).2
  have hsettled := (keepsActive_iff_settled hsound _).mp hkeeps settings "claude"
    settings.agentKind hload hactive ⟨settings.llm, rfl, (hsound.load hload).2⟩
  exact of_decide_eq_false hdiffers hsettled.1

end Activation

end SettingsFile

end ShuttleFlow
