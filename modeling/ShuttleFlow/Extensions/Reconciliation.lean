import ShuttleFlow.Extensions.InstallationManager

/-! # Reconciling the metadata

What is tracked, validly named and there stays as it is. What is discovered comes after it.
-/

namespace ShuttleFlow

namespace Dict

variable {κ ν : Type} [DecidableEq κ]

theorem ext_entries {first second : Dict κ ν} (hentries : first.entries = second.entries) :
    first = second := by
  cases first
  cases second
  cases hentries
  rfl

/-- New entries come after the old ones. -/
theorem entries_update {dict : Dict κ ν} {entries : List (κ × ν)}
    (hnodup : (entries.map Prod.fst).Nodup)
    (hnew : ∀ entry ∈ entries, entry.1 ∉ dict.keys) :
    (dict.update entries).entries = dict.entries ++ entries := by
  induction entries generalizing dict with
  | nil => simp [update]
  | cons entry rest ih =>
      obtain ⟨hentry, hrest⟩ := List.nodup_cons.mp hnodup
      have hfirst := hnew entry List.mem_cons_self
      have hentries := entries_set_of_notMem hfirst entry.2
      change ((dict.set entry.1 entry.2).update rest).entries = _
      rw [ih hrest, hentries, List.append_assoc]
      · rfl
      · intro other hother
        rw [keys, hentries, List.map_append, List.mem_append, not_or]
        refine ⟨hnew other (.tail _ hother), ?_⟩
        intro hsame
        apply hentry
        rw [← List.mem_singleton.mp hsame]
        exact List.mem_map_of_mem hother

theorem get?_update_of_entries {dict other after : Dict κ ν}
    (hentries : after.entries = dict.entries ++ other.entries) (key : κ) :
    after.get? key = (dict.get? key).or (other.get? key) := by
  unfold get?
  rw [hentries, List.find?_append]
  cases dict.entries.find? fun entry => entry.1 = key <;> rfl

/-- A filter that keeps every entry as it is. -/
theorem filterMap_eq_self {dict : Dict κ ν} {f : κ → ν → Option ν}
    (hkept : ∀ entry ∈ dict.entries, f entry.1 entry.2 = some entry.2) :
    dict.filterMap f = dict := by
  apply ext_entries
  change dict.entries.filterMap (fun entry => (f entry.1 entry.2).map fun value =>
    (entry.1, value)) = dict.entries
  have hsome : dict.entries.filterMap (fun entry => (f entry.1 entry.2).map fun value =>
      (entry.1, value)) = dict.entries.filterMap some := by
    apply List.filterMap_congr
    intro entry hmem
    rw [hkept entry hmem]
    rfl
  rw [hsome, List.filterMap_some]

theorem filterMap_eq_empty {μ : Type} {dict : Dict κ ν} {f : κ → ν → Option μ}
    (hnone : ∀ key value, dict.get? key = some value → f key value = none) :
    dict.filterMap f = empty := by
  apply eq_empty
  apply List.filterMap_eq_nil_iff.mpr
  rintro ⟨key, value⟩ hmem
  rw [hnone key value (get?_of_mem_entries hmem)]
  rfl

end Dict

namespace InstallationManager

variable {Content : Type} {manager : InstallationManager Content} {now : String}
  {folder : InstallationFolder Content} {extensions : Dict String InstallationInfo}

theorem get?_validateTracked (name : String) :
    (validateTracked folder extensions).get? name =
      (extensions.get? name).filter fun _ =>
        isExtensionName name && (folder.items.get? name).isSome := by
  rw [validateTracked, Dict.get?_filterMap]
  cases extensions.get? name with
  | none => rfl
  | some info =>
      rw [Option.bind_some]
      split
      next hvalid => simp [Option.filter, hvalid]
      next hinvalid => simp [Option.filter, hinvalid]

theorem get?_discoverUntracked (tracked : Dict String InstallationInfo) (name : String) :
    (manager.discoverUntracked now folder tracked).get? name =
      if (tracked.get? name).isSome then none
      else
        ((folder.items.get? name).bind (manager.discover name)).map fun extension =>
          .fromExtension extension "local" now (manager.installPath name) none none := by
  rw [discoverUntracked, Dict.get?_filterMap]
  cases folder.items.get? name with
  | none => simp
  | some item => rfl

theorem entries_sync :
    (manager.sync now folder extensions).1.entries =
      (validateTracked folder extensions).entries ++
        (manager.discoverUntracked now folder (validateTracked folder extensions)).entries := by
  apply Dict.entries_update (Dict.nodup _)
  rintro ⟨name, info⟩ hmem htracked
  have hget := Dict.get?_of_mem_entries hmem
  rw [get?_discoverUntracked, if_pos (Dict.isSome_get?_iff.mpr htracked)] at hget
  cases hget

theorem get?_sync (name : String) :
    (manager.sync now folder extensions).1.get? name =
      ((extensions.get? name).filter fun _ =>
        isExtensionName name && (folder.items.get? name).isSome).or
      (((folder.items.get? name).bind (manager.discover name)).map fun extension =>
        .fromExtension extension "local" now (manager.installPath name) none none) := by
  rw [Dict.get?_update_of_entries entries_sync, get?_discoverUntracked, get?_validateTracked]
  cases (extensions.get? name).filter fun _ =>
    isExtensionName name && (folder.items.get? name).isSome <;> rfl

/-- The list shows the entries. -/
theorem values_sync : (manager.sync now folder extensions).1.values =
    (manager.sync now folder extensions).2 := by
  unfold Dict.values
  rw [entries_sync, List.map_append]
  rfl

/-! ## Once more -/

theorem mem_keys_sync_iff (name : String) :
    name ∈ (manager.sync now folder extensions).1.keys ↔
      (name ∈ extensions.keys ∧ isExtensionName name ∧ (folder.items.get? name).isSome) ∨
        ((folder.items.get? name).bind (manager.discover name)).isSome := by
  rw [← Dict.isSome_get?_iff, get?_sync, Option.isSome_or, Bool.or_eq_true, Option.isSome_map,
    ← Dict.isSome_get?_iff]
  apply or_congr_left
  cases extensions.get? name with
  | none => simp
  | some info => simp [Option.isSome_filter]

theorem isExtensionName_of_discover {name : String} {item : InstalledItem Content}
    {extension : Extension} (hdiscover : manager.discover name item = some extension) :
    isExtensionName name ∧ extension.name = name := by
  unfold discover at hdiscover
  split at hdiscover
  · cases hdiscover
  split at hdiscover
  next => cases hdiscover
  next hvalid =>
    obtain ⟨-, hname⟩ := Option.filter_eq_some_iff.mp hdiscover
    rw [Bool.not_eq_true, Bool.or_eq_false_iff, Bool.not_eq_false'] at hvalid
    exact ⟨hvalid.2, of_decide_eq_true hname⟩

/-- Reconciled entries are valid. -/
theorem valid_of_mem_sync {name : String}
    (hmem : name ∈ (manager.sync now folder extensions).1.keys) :
    isExtensionName name ∧ (folder.items.get? name).isSome := by
  rcases mem_keys_sync_iff name |>.mp hmem with ⟨-, hvalid⟩ | hdiscovered
  · exact hvalid
  · obtain ⟨extension, hdiscover⟩ := Option.isSome_iff_exists.mp hdiscovered
    obtain ⟨item, hitem, hdiscover⟩ := Option.bind_eq_some_iff.mp hdiscover
    exact ⟨(isExtensionName_of_discover hdiscover).1, Option.isSome_of_eq_some hitem⟩

/-- Whenever the entries are reconciled again, nothing changes. -/
theorem sync_sync (later : String) :
    manager.sync later folder (manager.sync now folder extensions).1 =
      manager.sync now folder extensions := by
  have htracked : validateTracked folder (manager.sync now folder extensions).1 =
      (manager.sync now folder extensions).1 := by
    apply Dict.filterMap_eq_self
    rintro ⟨name, info⟩ hmem
    obtain ⟨hvalid, hthere⟩ := valid_of_mem_sync (List.mem_map_of_mem hmem)
    simp [hvalid, hthere]
  have hdiscovered : manager.discoverUntracked later folder
      (manager.sync now folder extensions).1 = .empty := by
    apply Dict.filterMap_eq_empty
    intro name item hitem
    split
    next => rfl
    next huntracked =>
      rw [Dict.isSome_get?_iff, mem_keys_sync_iff, not_or, hitem] at huntracked
      have hnone := huntracked.2
      rw [Option.bind_some, Option.not_isSome_iff_eq_none] at hnone
      rw [hnone]
      rfl
  apply Prod.ext
  · apply Dict.ext_entries
    rw [entries_sync, htracked, hdiscovered]
    exact List.append_nil _
  · rw [← values_sync, ← values_sync]
    congr 1
    apply Dict.ext_entries
    rw [entries_sync, htracked, hdiscovered]
    exact List.append_nil _

/-- Every entry goes by its own name. -/
def WellNamed (extensions : Dict String InstallationInfo) : Prop :=
  ∀ name info, extensions.get? name = some info → info.name = name

theorem WellNamed.empty : WellNamed .empty := nofun

theorem WellNamed.set (hnamed : WellNamed extensions) {name : String} {info : InstallationInfo}
    (hname : info.name = name) : WellNamed (extensions.set name info) := by
  intro other found hfound
  rw [Dict.get?_set] at hfound
  split at hfound
  next heq =>
    cases hfound
    rw [heq, hname]
  next => exact hnamed other found hfound

theorem WellNamed.erase (hnamed : WellNamed extensions) (name : String) :
    WellNamed (extensions.erase name) := by
  intro other found hfound
  rw [Dict.get?_erase] at hfound
  split at hfound
  next => cases hfound
  next => exact hnamed other found hfound

theorem WellNamed.sync (hnamed : WellNamed extensions) :
    WellNamed (manager.sync now folder extensions).1 := by
  intro name info hget
  rw [get?_sync, Option.or_eq_some_iff] at hget
  rcases hget with htracked | ⟨-, hdiscovered⟩
  · exact hnamed name info (Option.filter_eq_some_iff.mp htracked).1
  · obtain ⟨extension, hdiscover, rfl⟩ := Option.map_eq_some_iff.mp hdiscovered
    obtain ⟨item, -, hdiscover⟩ := Option.bind_eq_some_iff.mp hdiscover
    exact (isExtensionName_of_discover hdiscover).2

/-! ## Listing -/

/-- After a listing the metadata has the valid names that are tracked and there, and those that are
discovered. Another listing changes nothing. -/
structure Reconciled (manager : InstallationManager Content)
    (disk after : Option (InstallationFolder Content)) (listed : List InstallationInfo) :
    Prop where
  keys : ∀ name, name ∈ (loadMetadata true after).keys ↔
    (name ∈ (loadMetadata true disk).keys ∧ isExtensionName name ∧ (itemAt disk name).isSome) ∨
      ((itemAt disk name).bind (manager.discover name)).isSome
  again : ∀ later, manager.listInstalled {} later after = (.ok listed, after)

theorem reconciled_listInstalled {disk after : Option (InstallationFolder Content)}
    {listed : List InstallationInfo}
    (hlist : manager.listInstalled {} now disk = (.ok listed, after)) :
    Reconciled manager disk after listed := by
  cases disk with
  | none =>
      cases hlist
      refine ⟨fun name => ?_, fun later => rfl⟩
      simp [loadMetadata, itemAt, Dict.keys, Dict.empty]
  | some folder =>
      change saveMetadata {} (manager.sync now folder (folder.metadata.load true)).1
        (manager.sync now folder (folder.metadata.load true)).2 (some folder) = _ at hlist
      cases hlist
      refine ⟨fun name => mem_keys_sync_iff name, fun later => ?_⟩
      have hagain : manager.sync later folder
          (manager.sync now folder (folder.metadata.load true)).1 = _ := sync_sync later
      change saveMetadata {}
        (manager.sync later folder (manager.sync now folder (folder.metadata.load true)).1).1
        (manager.sync later folder (manager.sync now folder (folder.metadata.load true)).1).2
        _ = _
      rw [hagain]
      rfl

end InstallationManager

end ShuttleFlow
