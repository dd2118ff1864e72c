import ShuttleFlow.Extensions.Reconciliation
import ShuttleFlow.Library.Transitions

/-! # Disabled extensions

That an extension is disabled is only known to the metadata file. It is forgotten when the file
cannot be read, and when the metadata is reconciled while the directory is missing.
-/

namespace ShuttleFlow

structure TrackedInstallation (Content : Type) where
  disk : Option (InstallationFolder Content) := none
  /-- What was disabled, and since then neither enabled, uninstalled nor removed. -/
  disabled : List String := []

inductive InstallationStep (Content : Type)
  | install (request : InstallRequest Content)
  | update (name : String) (readable : Bool) (request : InstallRequest Content)
  | uninstall (name : String) (left : Option Content) (access : MetadataAccess)
  /-- The methods `enable` and `disable`. -/
  | setEnabled (name : String) (enabled : Bool) (access : MetadataAccess) (now : String)
  | listInstalled (access : MetadataAccess) (now : String)
  | loadInstalled (access : MetadataAccess) (now : String)
  | get (name : String) (readable : Bool)
  /-- Others copy directories in, and remove them. -/
  | copyIn (name : String) (content : Content)
  | removeFromDisk (name : String)

/-- The flags survive when the metadata can be read and is not cut. -/
def MetadataAccess.keepsFlags (access : MetadataAccess) : Bool :=
  access.readable &&
    match access.write with
    | .cut _ => false
    | .written | .refused => true

namespace TrackedInstallation

open InstallationManager

variable {Content : Type} (manager : InstallationManager Content)
  (installation : TrackedInstallation Content)

def forget (name : String) : List String :=
  installation.disabled.filter (· ≠ name)

def disabledAfter (name : String) (enabled : Bool) : Except InstallationError Bool → List String
  | .ok true => if enabled then installation.forget name else name :: installation.disabled
  | .ok false | .error _ => installation.disabled

def apply : InstallationStep Content → TrackedInstallation Content
  | .install request =>
      { installation with disk := (manager.install request installation.disk).2 }
  | .update name readable request =>
      { installation with disk := (manager.update name readable request installation.disk).2 }
  | .uninstall name left access =>
      let disk := (InstallationManager.uninstall name left access installation.disk).2
      { disk
        disabled :=
          if (itemAt disk name).isNone then installation.forget name
          else installation.disabled }
  | .setEnabled name enabled access now =>
      let (result, disk) := manager.setEnabled name enabled access now installation.disk
      { disk, disabled := installation.disabledAfter name enabled result }
  | .listInstalled access now =>
      { installation with disk := (manager.listInstalled access now installation.disk).2 }
  | .loadInstalled access now =>
      { installation with disk := (manager.loadInstalled access now installation.disk).2 }
  | .get _ _ => installation
  | .copyIn name content =>
      { installation with disk := setItem name (.directory content) installation.disk }
  | .removeFromDisk name =>
      { disk := eraseItem name installation.disk, disabled := installation.forget name }

def system : TransitionSystem (TrackedInstallation Content) (InstallationStep Content) Unit where
  step installation label := some (installation.apply manager label, [])

def keepsFlags (access : MetadataAccess) : Bool :=
  installation.disabled.isEmpty || access.keepsFlags

/-- Whatever is disabled is there. -/
def isThere : Bool :=
  installation.disabled.all fun name => (itemAt installation.disk name).isSome

/-- While extensions are disabled, the metadata can be read and is not cut, and it is reconciled
only when they are there. -/
def isClean : InstallationStep Content → Bool
  | .install request | .update _ _ request => installation.keepsFlags request.access
  | .uninstall _ _ access => installation.keepsFlags access
  | .setEnabled _ _ access _ | .listInstalled access _ | .loadInstalled access _ =>
      installation.keepsFlags access && installation.isThere
  | .get _ _ | .copyIn _ _ | .removeFromDisk _ => true

end TrackedInstallation

namespace InstallationManager

variable {Content : Type} {manager : InstallationManager Content} {now : String}
  {disk : Option (InstallationFolder Content)} {extensions : Dict String InstallationInfo}
  {disabled : List String}

theorem loadMetadata_unreadable : loadMetadata false disk = .empty := by
  have hload : ∀ file : MetadataFile, file.load false = .empty := by
    intro file
    cases file <;> rfl
  cases disk with
  | none => rfl
  | some folder => exact hload folder.metadata

/-! ## Entries that keep extensions disabled -/

theorem saveMetadata_ok {α : Type} {access : MetadataAccess} {result value : α}
    (hok : (saveMetadata access extensions result disk).1 = .ok value) :
    value = result ∧ loadMetadata true (saveMetadata access extensions result disk).2 =
      extensions := by
  unfold saveMetadata at hok ⊢
  cases hwrite : access.write with
  | written =>
      rw [hwrite] at hok
      cases hok
      exact ⟨rfl, rfl⟩
  | refused =>
      rw [hwrite] at hok
      cases hok
  | cut text =>
      rw [hwrite] at hok
      cases hok

structure KeepsDisabled (disabled : List String) (extensions : Dict String InstallationInfo) :
    Prop where
  named : WellNamed extensions
  disabled : ∀ name ∈ disabled, isExtensionName name ∧
    ∃ info, extensions.get? name = some info ∧ info.enabled = false

namespace KeepsDisabled

theorem mono (hkeeps : KeepsDisabled disabled extensions) {fewer : List String}
    (hsubset : fewer ⊆ disabled) : KeepsDisabled fewer extensions where
  named := hkeeps.named
  disabled name hmem := hkeeps.disabled name (hsubset hmem)

theorem empty : KeepsDisabled [] .empty := ⟨.empty, nofun⟩

/-- A new entry takes over whether the extension is enabled. -/
theorem set (hkeeps : KeepsDisabled disabled extensions) {name : String}
    {info : InstallationInfo} (hname : info.name = name)
    (henabled : ∀ existing, extensions.get? name = some existing →
      info.enabled = existing.enabled) : KeepsDisabled disabled (extensions.set name info) where
  named := hkeeps.named.set hname
  disabled other hmem := by
    obtain ⟨hvalid, found, hfound, hdisabled⟩ := hkeeps.disabled other hmem
    refine ⟨hvalid, ?_⟩
    rw [Dict.get?_set]
    split
    next heq =>
      rw [heq] at hfound
      exact ⟨info, rfl, (henabled found hfound).trans hdisabled⟩
    next => exact ⟨found, hfound, hdisabled⟩

theorem erase (hkeeps : KeepsDisabled disabled extensions) (name : String) :
    KeepsDisabled (disabled.filter (· ≠ name)) (extensions.erase name) where
  named := hkeeps.named.erase name
  disabled other hmem := by
    obtain ⟨hmem, hother⟩ := List.mem_filter.mp hmem
    obtain ⟨hvalid, hfound⟩ := hkeeps.disabled other hmem
    refine ⟨hvalid, ?_⟩
    rw [Dict.get?_erase, if_neg (of_decide_eq_true hother)]
    exact hfound

theorem sync (hkeeps : KeepsDisabled disabled extensions) {folder : InstallationFolder Content}
    (hthere : ∀ name ∈ disabled, (folder.items.get? name).isSome) :
    KeepsDisabled disabled (manager.sync now folder extensions).1 where
  named := hkeeps.named.sync
  disabled name hmem := by
    obtain ⟨hvalid, info, hget, hdisabled⟩ := hkeeps.disabled name hmem
    refine ⟨hvalid, info, ?_, hdisabled⟩
    rw [get?_sync, hget]
    simp [hvalid, hthere name hmem]

/-- A read that fails is harmless while nothing is disabled. -/
theorem read (hkeeps : KeepsDisabled disabled (loadMetadata true disk)) {readable : Bool}
    (hreadable : disabled = [] ∨ readable) :
    KeepsDisabled disabled (loadMetadata readable disk) := by
  rcases hreadable with rfl | hreadable
  · cases readable with
    | true => exact hkeeps
    | false =>
        rw [loadMetadata_unreadable]
        exact empty
  · rw [hreadable]
    exact hkeeps

/-- Where writing fails, the file is as it was, or is cut while nothing is disabled. -/
theorem save_error {α : Type} (hkeeps : KeepsDisabled disabled (loadMetadata true disk))
    {access : MetadataAccess} (haccess : disabled = [] ∨ access.keepsFlags) {result : α}
    {error : InstallationError}
    (herror : (saveMetadata access extensions result disk).1 = .error error) :
    KeepsDisabled disabled (loadMetadata true (saveMetadata access extensions result disk).2) := by
  unfold saveMetadata at herror ⊢
  cases hwrite : access.write with
  | written =>
      rw [hwrite] at herror
      cases herror
  | refused =>
      cases disk with
      | none => exact hkeeps
      | some folder => exact hkeeps
  | cut text =>
      rcases haccess with rfl | hkept
      · exact empty
      · simp [MetadataAccess.keepsFlags, hwrite] at hkept

theorem save {α : Type} (hkeeps : KeepsDisabled disabled (loadMetadata true disk))
    (hnew : KeepsDisabled disabled extensions) {access : MetadataAccess}
    (haccess : disabled = [] ∨ access.keepsFlags) (result : α) :
    KeepsDisabled disabled (loadMetadata true (saveMetadata access extensions result disk).2) := by
  cases hresult : (saveMetadata access extensions result disk).1 with
  | error error => exact hkeeps.save_error haccess hresult
  | ok value =>
      rw [(saveMetadata_ok hresult).2]
      exact hnew

end KeepsDisabled

/-! ## What happens to directories -/

theorem loadMetadata_setItem (readable : Bool) (name : String) (item : InstalledItem Content) :
    loadMetadata readable (setItem name item disk) = loadMetadata readable disk := by
  cases disk <;> rfl

theorem loadMetadata_eraseItem (readable : Bool) (name : String) :
    loadMetadata readable (eraseItem name disk) = loadMetadata readable disk := by
  cases disk <;> rfl

theorem loadMetadata_removeTree (readable : Bool) (name : String) (left : Option Content)
    (disk : Option (InstallationFolder Content)) :
    loadMetadata readable (removeTree name left disk).2 = loadMetadata readable disk := by
  unfold removeTree
  split
  · rfl
  · rfl
  · exact loadMetadata_setItem readable name _
  · exact loadMetadata_eraseItem readable name

theorem loadMetadata_copyTree (readable : Bool) (name : String) (content : Content)
    (failure : Option (InstallFailure Content)) (disk : Option (InstallationFolder Content)) :
    loadMetadata readable (copyTree name content failure disk).2 =
      loadMetadata readable disk := by
  unfold copyTree
  split
  · rfl
  · cases disk <;> rfl
  · exact loadMetadata_setItem readable name _
  · exact loadMetadata_setItem readable name _
  · exact loadMetadata_setItem readable name _

/-! ## Operations -/

theorem readable_of_keepsFlags {access : MetadataAccess}
    (haccess : disabled = [] ∨ access.keepsFlags) : disabled = [] ∨ access.readable := by
  apply haccess.imp_right
  intro hkept
  exact (Bool.and_eq_true_iff.mp hkept).1

theorem KeepsDisabled.place {request : InstallRequest Content} {content : Content}
    {resolvedRef : Option String} {extension : Extension}
    (hkeeps : KeepsDisabled disabled (loadMetadata true disk))
    (haccess : disabled = [] ∨ request.access.keepsFlags) :
    KeepsDisabled disabled
      (loadMetadata true (manager.place request content resolvedRef extension disk).2) := by
  have hremoved := loadMetadata_removeTree true extension.name (leftBy request.failure) disk
  unfold InstallationManager.place
  split
  next error removed heq =>
    rw [heq] at hremoved
    rw [hremoved]
    exact hkeeps
  next removed heq =>
    rw [heq] at hremoved
    have hcopied := loadMetadata_copyTree true extension.name content request.failure
      removed
    split
    next error copied hcopy =>
      rw [hcopy] at hcopied
      rw [hcopied, hremoved]
      exact hkeeps
    next copied hcopy =>
      rw [hcopy] at hcopied
      have hbefore : KeepsDisabled disabled (loadMetadata true copied) := by
        rw [hcopied, hremoved]
        exact hkeeps
      have hread := hbefore.read (readable_of_keepsFlags haccess)
      apply hbefore.save _ haccess
      apply hread.set
      · split <;> rfl
      · intro existing hexisting
        rw [hexisting]

theorem KeepsDisabled.install {request : InstallRequest Content}
    (hkeeps : KeepsDisabled disabled (loadMetadata true disk))
    (haccess : disabled = [] ∨ request.access.keepsFlags) :
    KeepsDisabled disabled (loadMetadata true (manager.install request disk).2) := by
  unfold InstallationManager.install
  split
  · exact hkeeps
  split
  · exact hkeeps
  split
  · exact hkeeps
  split
  · exact hkeeps
  · exact hkeeps.place haccess

theorem KeepsDisabled.update {name : String} {readable : Bool} {request : InstallRequest Content}
    (hkeeps : KeepsDisabled disabled (loadMetadata true disk))
    (haccess : disabled = [] ∨ request.access.keepsFlags) :
    KeepsDisabled disabled (loadMetadata true (manager.update name readable request disk).2) := by
  unfold InstallationManager.update
  split
  · exact hkeeps
  · exact hkeeps
  · exact hkeeps.install haccess

theorem itemAt_eraseItem (name : String) : itemAt (eraseItem name disk) name = none := by
  cases disk with
  | none => rfl
  | some folder =>
      change (folder.items.erase name).get? name = none
      rw [Dict.get?_erase, if_pos rfl]

/-- When the directory is removed there is nothing. -/
theorem itemAt_removeTree {name : String} {left : Option Content}
    {removed : Option (InstallationFolder Content)}
    (hremove : removeTree name left disk = (.ok (), removed)) : itemAt removed name = none := by
  unfold removeTree at hremove
  split at hremove
  next hnone =>
    cases hremove
    exact hnone
  next => cases hremove
  next => cases hremove
  next =>
    cases hremove
    exact itemAt_eraseItem name

theorem itemAt_saveMetadata {α : Type} (access : MetadataAccess) (result : α) (name : String) :
    itemAt (saveMetadata access extensions result disk).2 name = itemAt disk name := by
  cases disk <;> rfl

/-- Uninstalling fails before the metadata is written, or writes it. -/
theorem uninstall_cases (name : String) (left : Option Content) (access : MetadataAccess)
    (disk : Option (InstallationFolder Content)) :
    (∃ error after, uninstall name left access disk = (.error error, after) ∧
      loadMetadata true after = loadMetadata true disk) ∨
    uninstall name left access disk =
      saveMetadata access (loadMetadata access.readable disk) false disk ∨
    ∃ removed, removeTree name left disk = (.ok (), removed) ∧
      uninstall name left access disk =
        saveMetadata access ((loadMetadata access.readable disk).erase name) true removed := by
  unfold uninstall
  split
  next => exact .inl ⟨_, _, rfl, rfl⟩
  next =>
    dsimp only
    split
    next => exact .inr (.inl rfl)
    next =>
      split
      next error after heq =>
        have hmetadata := loadMetadata_removeTree true name left disk
        rw [heq] at hmetadata
        exact .inl ⟨error, after, rfl, hmetadata⟩
      next removed heq => exact .inr (.inr ⟨removed, heq, rfl⟩)

theorem KeepsDisabled.uninstall {name : String} {left : Option Content} {access : MetadataAccess}
    (hkeeps : KeepsDisabled disabled (loadMetadata true disk))
    (haccess : disabled = [] ∨ access.keepsFlags) :
    KeepsDisabled
      (if (itemAt (InstallationManager.uninstall name left access disk).2 name).isNone then
        disabled.filter (· ≠ name) else disabled)
      (loadMetadata true (InstallationManager.uninstall name left access disk).2) := by
  have hfewer : (if (itemAt (InstallationManager.uninstall name left access disk).2 name).isNone
      then disabled.filter (· ≠ name) else disabled) ⊆ disabled := by
    split
    · exact List.filter_subset_self _
    · exact List.Subset.refl _
  have hread := hkeeps.read (readable_of_keepsFlags haccess)
  rcases uninstall_cases name left access disk with
    ⟨error, after, heq, hmetadata⟩ | heq | ⟨removed, hremove, heq⟩
  · apply KeepsDisabled.mono _ hfewer
    rw [heq, hmetadata]
    exact hkeeps
  · apply KeepsDisabled.mono _ hfewer
    rw [heq]
    exact hkeeps.save hread haccess false
  · have hmetadata := loadMetadata_removeTree true name left disk
    rw [hremove] at hmetadata
    have haccess : disabled.filter (· ≠ name) = [] ∨ access.keepsFlags := by
      apply haccess.imp_left
      intro hnil
      rw [hnil]
      rfl
    have hbefore : KeepsDisabled (disabled.filter (· ≠ name)) (loadMetadata true removed) := by
      rw [hmetadata]
      exact hkeeps.mono (List.filter_subset_self _)
    rw [heq, itemAt_saveMetadata, itemAt_removeTree hremove]
    exact hbefore.save (hread.erase name) haccess true

/-- What enabling and disabling writes, if they are not refused before. -/
theorem setEnabled_cases (name : String) (enabled : Bool) (access : MetadataAccess)
    (folder : InstallationFolder Content) :
    (∃ error, manager.setEnabled name enabled access now (some folder) =
      (.error error, some folder)) ∨
    manager.setEnabled name enabled access now (some folder) = saveMetadata access
      (manager.sync now folder (folder.metadata.load access.readable)).1 false (some folder) ∨
    ∃ info, (manager.sync now folder (folder.metadata.load access.readable)).1.get? name =
        some info ∧
      (manager.setEnabled name enabled access now (some folder) = saveMetadata access
          ((manager.sync now folder (folder.metadata.load access.readable)).1.set name
            { info with enabled }) true (some folder) ∨
        info.enabled = enabled ∧
          manager.setEnabled name enabled access now (some folder) = saveMetadata access
            (manager.sync now folder (folder.metadata.load access.readable)).1 true
            (some folder)) := by
  unfold setEnabled
  split
  next => exact .inl ⟨_, rfl⟩
  next =>
    dsimp only
    split
    next => exact .inr (.inl rfl)
    next info hinfo =>
      split
      next => exact .inr (.inl rfl)
      next =>
        split
        next heq => exact .inr (.inr ⟨info, hinfo, .inr ⟨heq, rfl⟩⟩)
        next => exact .inr (.inr ⟨info, hinfo, .inl rfl⟩)

theorem KeepsDisabled.cons (hkeeps : KeepsDisabled disabled extensions) {name : String}
    (hvalid : isExtensionName name) {info : InstallationInfo}
    (hget : extensions.get? name = some info) (hdisabled : info.enabled = false) :
    KeepsDisabled (name :: disabled) extensions where
  named := hkeeps.named
  disabled other hmem := by
    rcases List.mem_cons.mp hmem with rfl | hmem
    · exact ⟨hvalid, info, hget, hdisabled⟩
    · exact hkeeps.disabled other hmem

/-- An entry that is enabled or disabled. -/
theorem KeepsDisabled.switch (hkeeps : KeepsDisabled disabled extensions) {name : String}
    (hvalid : isExtensionName name) {info : InstallationInfo}
    (hget : extensions.get? name = some info) (enabled : Bool) :
    KeepsDisabled (if enabled then disabled.filter (· ≠ name) else name :: disabled)
      (extensions.set name { info with enabled }) := by
  have hname : info.name = name := hkeeps.named name info hget
  cases enabled with
  | true =>
      have herased := hkeeps.erase name
      refine ⟨hkeeps.named.set hname, fun other hmem => ?_⟩
      obtain ⟨hother, found, hfound, hdisabled⟩ := herased.disabled other hmem
      have hne : other ≠ name := of_decide_eq_true (List.mem_filter.mp hmem).2
      rw [Dict.get?_erase, if_neg hne] at hfound
      refine ⟨hother, found, ?_, hdisabled⟩
      rw [Dict.get?_set, if_neg hne]
      exact hfound
  | false =>
      have hget' : (extensions.set name { info with enabled := false }).get? name =
          some { info with enabled := false } := by
        rw [Dict.get?_set, if_pos rfl]
      have hothers : KeepsDisabled disabled
          (extensions.set name { info with enabled := false }) := by
        refine ⟨hkeeps.named.set hname, fun other hmem => ?_⟩
        obtain ⟨hother, found, hfound, hdisabled⟩ := hkeeps.disabled other hmem
        refine ⟨hother, ?_⟩
        rw [Dict.get?_set]
        split
        · exact ⟨_, rfl, rfl⟩
        · exact ⟨found, hfound, hdisabled⟩
      exact hothers.cons hvalid hget' rfl

end InstallationManager

namespace TrackedInstallation

open InstallationManager

variable {Content : Type} {manager : InstallationManager Content}
  {installation : TrackedInstallation Content}

/-- What is disabled is disabled in the metadata. -/
abbrev Kept (installation : TrackedInstallation Content) : Prop :=
  KeepsDisabled installation.disabled (loadMetadata true installation.disk)

theorem keepsFlags_iff {access : MetadataAccess} :
    installation.keepsFlags access ↔ installation.disabled = [] ∨ access.keepsFlags := by
  rw [keepsFlags, Bool.or_eq_true, List.isEmpty_iff]

theorem disabledAfter_saveMetadata (name : String) (enabled result : Bool)
    (access : MetadataAccess) (extensions : Dict String InstallationInfo)
    (disk : Option (InstallationFolder Content)) :
    (∃ error, (saveMetadata access extensions result disk).1 = .error error ∧
      installation.disabledAfter name enabled (saveMetadata access extensions result disk).1 =
        installation.disabled) ∨
    (saveMetadata access extensions result disk).1 = .ok result := by
  cases hresult : (saveMetadata access extensions result disk).1 with
  | error error => exact .inl ⟨error, rfl, rfl⟩
  | ok value =>
      rw [(saveMetadata_ok hresult).1]
      exact .inr rfl

theorem Kept.folder (hkept : installation.Kept) {disk : Option (InstallationFolder Content)}
    (hdisk : installation.disk = disk) :
    KeepsDisabled installation.disabled (loadMetadata true disk) := by
  rw [← hdisk]
  exact hkept

theorem Kept.sync (hkept : installation.Kept) {folder : InstallationFolder Content}
    (hdisk : installation.disk = some folder) {access : MetadataAccess}
    (haccess : installation.keepsFlags access) (hthere : installation.isThere) (now : String) :
    KeepsDisabled installation.disabled
      (manager.sync now folder (folder.metadata.load access.readable)).1 := by
  apply KeepsDisabled.sync
    ((hkept.folder hdisk).read (readable_of_keepsFlags (keepsFlags_iff.mp haccess)))
  intro other hmem
  have hother := List.all_eq_true.mp hthere other hmem
  rw [hdisk] at hother
  exact hother

theorem Kept.setEnabled (hkept : installation.Kept) {name : String} {enabled : Bool}
    {access : MetadataAccess} {now : String} (haccess : installation.keepsFlags access)
    (hthere : installation.isThere) :
    (installation.apply manager (.setEnabled name enabled access now)).Kept := by
  unfold Kept apply
  dsimp only
  cases hdisk : installation.disk with
  | none =>
      have heq : manager.setEnabled name enabled access now none =
            (.error (.invalidName name), none) ∨
          manager.setEnabled name enabled access now none = (.ok false, none) := by
        unfold InstallationManager.setEnabled
        split
        · exact .inl rfl
        · exact .inr rfl
      rcases heq with heq | heq <;> rw [heq] <;> exact hkept.folder hdisk
  | some folder =>
      have hfolder := hkept.folder hdisk
      have hsync := @Kept.sync _ manager _ hkept folder hdisk access haccess hthere now
      rw [keepsFlags_iff] at haccess
      rcases setEnabled_cases name enabled access folder with
        ⟨error, heq⟩ | heq | ⟨info, hget, heq | ⟨hsame, heq⟩⟩ <;> rw [heq]
      · exact hfolder
      · have hmarks : installation.disabledAfter name enabled (saveMetadata access
            (manager.sync now folder (folder.metadata.load access.readable)).1 false
            (some folder)).1 = installation.disabled := by
          rcases disabledAfter_saveMetadata name enabled false access _ (some folder) with
            ⟨error, -, hmarks⟩ | hok
          · exact hmarks
          · rw [hok]
            rfl
        rw [hmarks]
        exact hfolder.save hsync haccess false
      · have hvalid := (valid_of_mem_sync (Dict.isSome_get?_iff.mp
          (Option.isSome_of_eq_some hget))).1
        rcases disabledAfter_saveMetadata name enabled true access _ (some folder) with
          ⟨error, herror, hmarks⟩ | hok
        · rw [hmarks]
          exact hfolder.save_error haccess herror
        · rw [hok, (saveMetadata_ok hok).2]
          exact hsync.switch hvalid hget enabled
      · have hvalid := (valid_of_mem_sync (Dict.isSome_get?_iff.mp
          (Option.isSome_of_eq_some hget))).1
        rcases disabledAfter_saveMetadata name enabled true access _ (some folder) with
          ⟨error, herror, hmarks⟩ | hok
        · rw [hmarks]
          exact hfolder.save_error haccess herror
        · rw [hok, (saveMetadata_ok hok).2]
          cases enabled with
          | true => exact hsync.mono (List.filter_subset_self _)
          | false => exact hsync.cons hvalid hget hsame

theorem Kept.listInstalled (hkept : installation.Kept) {access : MetadataAccess} (now : String)
    (haccess : installation.keepsFlags access) (hthere : installation.isThere) :
    KeepsDisabled installation.disabled
      (loadMetadata true (manager.listInstalled access now installation.disk).2) := by
  cases hdisk : installation.disk with
  | none => exact hkept.folder hdisk
  | some folder =>
      exact (hkept.folder hdisk).save (hkept.sync hdisk haccess hthere now)
        (keepsFlags_iff.mp haccess) _

theorem loadInstalled_disk (access : MetadataAccess) (now : String)
    (disk : Option (InstallationFolder Content)) :
    (manager.loadInstalled access now disk).2 = (manager.listInstalled access now disk).2 := by
  unfold loadInstalled
  split
  next heq => rw [heq]
  next heq =>
    rw [heq]
    split <;> rfl

/-- What is loaded is enabled. -/
theorem exists_of_mem_loadEnabled {folder : InstallationFolder Content}
    {listed : List InstallationInfo} {loaded : List (String × Extension)}
    (hload : manager.loadEnabled folder listed = some loaded) {name : String}
    (hmem : name ∈ loaded.map Prod.fst) :
    ∃ info ∈ listed, info.enabled ∧ info.name = name := by
  induction listed generalizing loaded with
  | nil =>
      cases hload
      cases hmem
  | cons info rest ih =>
      have hlater : ∀ {others : List (String × Extension)},
          manager.loadEnabled folder rest = some others → name ∈ others.map Prod.fst →
          ∃ found ∈ info :: rest, found.enabled ∧ found.name = name := by
        intro others hothers hother
        obtain ⟨found, hfound, hname⟩ := ih hothers hother
        exact ⟨found, .tail _ hfound, hname⟩
      unfold loadEnabled at hload
      split at hload
      next => exact hlater hload hmem
      next henabled =>
        split at hload
        next => exact hlater hload hmem
        next => cases hload
        next =>
          obtain ⟨extension, -, hload⟩ := Option.bind_eq_some_iff.mp hload
          obtain ⟨others, hothers, rfl⟩ := Option.map_eq_some_iff.mp hload
          rcases List.mem_cons.mp hmem with rfl | hother
          · exact ⟨info, List.mem_cons_self, by simpa using henabled, rfl⟩
          · exact hlater hothers hother

theorem notMem_loadInstalled (hkept : installation.Kept) {access : MetadataAccess} {now : String}
    (hclean : installation.isClean (.loadInstalled access now))
    {loaded : List (String × Extension)} {after : Option (InstallationFolder Content)}
    (hload : manager.loadInstalled access now installation.disk = (.ok loaded, after))
    {name : String} (hmem : name ∈ installation.disabled) : name ∉ loaded.map Prod.fst := by
  intro hloaded
  obtain ⟨haccess, hthere⟩ := Bool.and_eq_true_iff.mp hclean
  unfold loadInstalled at hload
  split at hload
  next => cases hload
  next listed listedDisk hlist =>
    split at hload
    next => cases hload
    next extensions hextensions =>
      cases hload
      obtain ⟨info, hinfo, henabled, hname⟩ := exists_of_mem_loadEnabled hextensions hloaded
      cases hdisk : installation.disk with
      | none =>
          rw [hdisk] at hlist
          cases hlist
          cases hinfo
      | some folder =>
          have hsync := @Kept.sync _ manager _ hkept folder hdisk access haccess hthere now
          have hlisted : listed =
              (manager.sync now folder (folder.metadata.load access.readable)).2 := by
            rw [hdisk] at hlist
            exact (saveMetadata_ok (congrArg Prod.fst hlist)).1
          rw [hlisted, ← values_sync] at hinfo
          obtain ⟨key, hkey⟩ := Dict.mem_values_iff.mp hinfo
          obtain ⟨-, found, hfound, hdisabled⟩ := hsync.disabled name hmem
          have heq : name = key := hname.symm.trans (hsync.named key info hkey)
          rw [heq, hkey] at hfound
          cases hfound
          rw [henabled] at hdisabled
          cases hdisabled

theorem Kept.apply (hkept : installation.Kept) {label : InstallationStep Content}
    (hclean : installation.isClean label) : (installation.apply manager label).Kept := by
  cases label with
  | install request => exact KeepsDisabled.install hkept (keepsFlags_iff.mp hclean)
  | update name readable request => exact KeepsDisabled.update hkept (keepsFlags_iff.mp hclean)
  | uninstall name left access => exact KeepsDisabled.uninstall hkept (keepsFlags_iff.mp hclean)
  | setEnabled name enabled access now =>
      obtain ⟨haccess, hthere⟩ := Bool.and_eq_true_iff.mp hclean
      exact hkept.setEnabled haccess hthere
  | listInstalled access now =>
      obtain ⟨haccess, hthere⟩ := Bool.and_eq_true_iff.mp hclean
      exact hkept.listInstalled now haccess hthere
  | loadInstalled access now =>
      obtain ⟨haccess, hthere⟩ := Bool.and_eq_true_iff.mp hclean
      have hlisted := @Kept.listInstalled _ manager _ hkept _ now haccess hthere
      rw [← loadInstalled_disk] at hlisted
      exact hlisted
  | get name readable => exact hkept
  | copyIn name content =>
      unfold Kept TrackedInstallation.apply
      rw [loadMetadata_setItem]
      exact hkept
  | removeFromDisk name =>
      unfold Kept TrackedInstallation.apply
      rw [loadMetadata_eraseItem]
      exact KeepsDisabled.mono hkept (List.filter_subset_self _)

/-- In clean runs a disabled extension is not loaded. A listing reconciles the metadata in any
state. -/
theorem staysDisabled_of_runs {start : Option (InstallationFolder Content)}
    (hnamed : WellNamed (loadMetadata true start)) {trace : List Unit}
    (hruns : ((system manager).restrict isClean).Runs { disk := start } trace installation) :
    (∀ access now loaded after, installation.isClean (.loadInstalled access now) →
      manager.loadInstalled access now installation.disk = (.ok loaded, after) →
      ∀ name ∈ installation.disabled, name ∉ loaded.map Prod.fst) ∧
    ∀ now listed after, manager.listInstalled {} now installation.disk = (.ok listed, after) →
      Reconciled manager installation.disk after listed := by
  have hkept : installation.Kept := by
    apply hruns.invariant_restrict fun _ installation => installation.Kept
    · exact ⟨hnamed, nofun⟩
    · intro _ installation label next _ hkept hclean hstep
      cases hstep
      exact hkept.apply hclean
  refine ⟨fun access now loaded after hclean hload name hmem => ?_, fun now listed after => ?_⟩
  · exact notMem_loadInstalled hkept hclean hload hmem
  · exact reconciled_listInstalled

/-- A directory is what its manifest says. -/
def manifests : InstallationManager Extension where
  installationDir := "installed"
  loadFromDir := some

def docs : Extension := { name := "docs", version := "1", description := none }

def disableDocs : List (InstallationStep Extension) :=
  [.copyIn "docs" docs, .setEnabled "docs" false {} ""]

theorem staysDisabled_of_runs_updated : ∃ trace installation,
    ((system manifests).restrict isClean).Runs {} trace installation ∧
      installation.disabled = ["docs"] ∧ ∀ loaded after,
        manifests.loadInstalled {} "" installation.disk = (.ok loaded, after) →
        "docs" ∉ loaded.map Prod.fst := by
  have hresult : (((system manifests).restrict isClean).run {} (disableDocs ++
      [.update "docs" true { source := "", fetched := some ({ docs with version := "2" }, none) },
        .listInstalled {} ""])).map (fun result => (result.1.disabled,
          result.1.isClean (.loadInstalled {} ""))) = some (["docs"], true) := by decide +kernel
  obtain ⟨⟨installation, trace⟩, hrun, hend⟩ := Option.map_eq_some_iff.mp hresult
  obtain ⟨hdisabled, hclean⟩ := Prod.mk.inj hend
  have hruns := TransitionSystem.Runs.of_run _ hrun
  have hnamed : WellNamed (loadMetadata true (none : Option (InstallationFolder Extension))) :=
    .empty
  refine ⟨trace, installation, hruns, hdisabled, fun loaded after hload => ?_⟩
  apply (staysDisabled_of_runs hnamed hruns).1 {} "" loaded after hclean hload
  dsimp only at hdisabled
  rw [hdisabled]
  exact List.mem_singleton_self _

/-- After a write that is cut the extension is discovered again, enabled. -/
theorem not_staysDisabled_when_cut : ¬ ∀ trace installation,
    (system manifests).Runs {} trace installation → ∀ loaded after,
      manifests.loadInstalled {} "" installation.disk = (.ok loaded, after) →
      ∀ name ∈ installation.disabled, name ∉ loaded.map Prod.fst := by
  intro hall
  have hresult : ((system manifests).run {}
      (disableDocs ++ [.listInstalled { write := .cut "\x7b" } ""])).map (fun result =>
        (result.1.disabled,
          (manifests.loadInstalled {} "" result.1.disk).1.toOption)) =
      some (["docs"], some [("docs", docs)]) := by decide +kernel
  obtain ⟨⟨installation, trace⟩, hrun, hend⟩ := Option.map_eq_some_iff.mp hresult
  obtain ⟨hdisabled, hloaded⟩ := Prod.mk.inj hend
  cases hload : (manifests.loadInstalled {} "" installation.disk).1 with
  | error error =>
      rw [hload] at hloaded
      cases hloaded
  | ok loaded =>
      rw [hload] at hloaded
      cases hloaded
      apply hall trace installation (.of_run _ hrun) _ _ (Prod.ext hload rfl) "docs"
      · dsimp only at hdisabled
        rw [hdisabled]
        exact List.mem_singleton_self _
      · decide

end TrackedInstallation

end ShuttleFlow
