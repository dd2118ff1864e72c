import Mathlib.Data.List.Perm.Subperm
import ShuttleFlow.Extensions.Reconciliation

/-! # Whether installing is atomic

The old directory is removed before the new one is copied, and the metadata is written last. A
failure in between leaves what has been done so far.
-/

namespace ShuttleFlow

namespace InstallationManager

variable {Content : Type} {manager : InstallationManager Content} {now : String}
  {disk before after : Option (InstallationFolder Content)}

def metadataOf (disk : Option (InstallationFolder Content)) : MetadataFile :=
  match disk with
  | none => .absent
  | some folder => folder.metadata

/-- The same extensions are returned, in whatever order, or the call raises either way. -/
def SameExtensions {α : Type} (first second : Except InstallationError (List α)) : Prop :=
  Option.Rel List.Perm first.toOption second.toOption

/-- What there was is still there. -/
structure Atomic (manager : InstallationManager Content)
    (before after : Option (InstallationFolder Content)) : Prop where
  kept : ∀ name item, itemAt before name = some item → itemAt after name = some item
  metadata : metadataOf after = metadataOf before
  listed : ∀ now, SameExtensions (manager.listInstalled {} now before).1
    (manager.listInstalled {} now after).1
  loaded : ∀ now, SameExtensions (manager.loadInstalled {} now before).1
    (manager.loadInstalled {} now after).1

/-! ## When a failure is harmless -/

/-- What is left in place of nothing does not show: it is not tracked or discovered, and it is not
loaded for an entry under another name. -/
structure Unnoticed (manager : InstallationManager Content)
    (before : Option (InstallationFolder Content)) (name : String) (left : Content) : Prop where
  untracked : name ∉ (loadMetadata true before).keys
  undiscovered : manager.discover name (.directory left) = none
  unloaded : (∀ key info, (loadMetadata true before).get? key = some info →
      isExtensionName key → (itemAt before key).isSome → info.enabled → info.name ≠ name) ∨
    ∀ now, (manager.loadInstalled {} now before).1.toOption = none

/-- The file is not cut, or is as it was. -/
def LeavesFile (file : MetadataFile) : WriteOutcome → Prop
  | .written | .refused => True
  | .cut text => file = .broken text

/-- Where an old version was, it is there again. Where none was, nothing shows. -/
def PlacesCleanly (manager : InstallationManager Content) (request : InstallRequest Content)
    (content : Content) (name : String) (before : Option (InstallationFolder Content)) : Prop :=
  match itemAt before name, request.failure with
  | some .file, _ => True
  | some (.directory old), some (.remove left) => left = old
  | some (.directory _), some .makeDirectory => False
  | some (.directory old), some (.copy copied) => copied = some old
  | some (.directory old), none =>
      content = old ∧ LeavesFile (metadataOf before) request.access.write
  | none, some .makeDirectory => True
  | none, some (.copy none) => True
  | none, some (.copy (some copied)) => Unnoticed manager before name copied
  | none, some (.remove _) => False
  | none, none => False

/-- The failure comes before the work on the directory, or that is clean. -/
def FailsCleanly (manager : InstallationManager Content) (request : InstallRequest Content)
    (before : Option (InstallationFolder Content)) : Prop :=
  ∀ content resolvedRef extension, request.fetched = some (content, resolvedRef) →
    manager.loadFromDir content = some extension → isExtensionName extension.name →
    ((itemAt before extension.name).isSome → request.force) →
    manager.PlacesCleanly request content extension.name before

end InstallationManager

inductive InstallCall (Content : Type)
  | install (request : InstallRequest Content)
  | update (name : String) (readable : Bool) (request : InstallRequest Content)

namespace InstallCall

open InstallationManager

variable {Content : Type} (manager : InstallationManager Content)

def run (disk : Option (InstallationFolder Content)) : InstallCall Content → Outcome Content Unit
  | .install request =>
      let (result, disk) := manager.install request disk
      (result.map fun _ => (), disk)
  | .update name readable request =>
      let (result, disk) := manager.update name readable request disk
      (result.map fun _ => (), disk)

def FailsCleanly (before : Option (InstallationFolder Content)) : InstallCall Content → Prop
  | .install request => manager.FailsCleanly request before
  | .update name readable request => ∀ current, get name readable before = .ok (some current) →
      manager.FailsCleanly
        { request with source := current.source, repoPath := current.repoPath, force := true }
        before

end InstallCall

namespace InstallationManager

variable {Content : Type} {manager : InstallationManager Content} {now : String}
  {disk before after : Option (InstallationFolder Content)}

/-! ## Items -/

theorem itemAt_setItem (name : String) (item : InstalledItem Content)
    (disk : Option (InstallationFolder Content)) (other : String) :
    itemAt (setItem name item disk) other =
      if other = name then some item else itemAt disk other := by
  cases disk with
  | none =>
      change (Dict.empty.set name item).get? other = _
      rw [Dict.get?_set]
      rfl
  | some folder =>
      change (folder.items.set name item).get? other = _
      rw [Dict.get?_set]
      rfl

theorem itemAt_eraseItem_apply (name : String) (disk : Option (InstallationFolder Content))
    (other : String) :
    itemAt (eraseItem name disk) other = if other = name then none else itemAt disk other := by
  cases disk with
  | none => exact (ite_self _).symm
  | some folder =>
      change (folder.items.erase name).get? other = _
      rw [Dict.get?_erase]
      rfl

theorem itemAt_getD (disk : Option (InstallationFolder Content)) (name : String) :
    itemAt (some (disk.getD {})) name = itemAt disk name := by
  cases disk <;> rfl

theorem metadataOf_setItem (name : String) (item : InstalledItem Content) :
    metadataOf (setItem name item disk) = metadataOf disk := by
  cases disk <;> rfl

theorem metadataOf_eraseItem (name : String) :
    metadataOf (eraseItem name disk) = metadataOf disk := by
  cases disk <;> rfl

theorem loadMetadata_eq (readable : Bool) (disk : Option (InstallationFolder Content)) :
    loadMetadata readable disk = (metadataOf disk).load readable := by
  cases disk <;> rfl

/-! ## What a listing depends on -/

/-- The reconciled entries of the installation, and the list of them. -/
def listing (manager : InstallationManager Content) (now : String)
    (disk : Option (InstallationFolder Content)) :
    Dict String InstallationInfo × List InstallationInfo :=
  manager.sync now (disk.getD {}) (loadMetadata true disk)

theorem listInstalled_eq (disk : Option (InstallationFolder Content)) :
    (manager.listInstalled {} now disk).1 = .ok (manager.listing now disk).2 := by
  cases disk <;> rfl

theorem get?_listing (name : String) :
    (manager.listing now disk).1.get? name =
      (((loadMetadata true disk).get? name).filter fun _ =>
        isExtensionName name && (itemAt disk name).isSome).or
      (((itemAt disk name).bind (manager.discover name)).map fun extension =>
        .fromExtension extension "local" now (manager.installPath name) none none) := by
  rw [listing, get?_sync]
  cases disk <;> rfl

/-- Two listings with the same entries show the same. -/
theorem perm_listing (hsame : ∀ name, (manager.listing now before).1.get? name =
      (manager.listing now after).1.get? name) :
    (manager.listing now before).2.Perm (manager.listing now after).2 := by
  have hentries : (manager.listing now before).1.entries.Perm
      (manager.listing now after).1.entries := by
    apply (List.perm_ext_iff_of_nodup ((Dict.nodup _).of_map _) ((Dict.nodup _).of_map _)).mpr
    rintro ⟨name, info⟩
    constructor
    · intro hmem
      apply Dict.mem_entries_of_get?
      rw [← hsame]
      exact Dict.get?_of_mem_entries hmem
    · intro hmem
      apply Dict.mem_entries_of_get?
      rw [hsame]
      exact Dict.get?_of_mem_entries hmem
  unfold listing
  rw [← values_sync, ← values_sync]
  exact hentries.map Prod.snd

/-! ## What loading depends on -/

/-- What loading comes to for one entry. -/
def loadOne (manager : InstallationManager Content)
    (disk : Option (InstallationFolder Content)) (info : InstallationInfo) :
    Option (List (String × Extension)) :=
  if !info.enabled then some []
  else
    match itemAt disk info.name with
    | none => some []
    | some .file => none
    | some (.directory content) =>
        (manager.loadFromDir content).map fun extension => [(info.name, extension)]

theorem loadEnabled_cons (disk : Option (InstallationFolder Content)) (info : InstallationInfo)
    (rest : List InstallationInfo) :
    manager.loadEnabled (disk.getD {}) (info :: rest) =
      (manager.loadOne disk info).bind fun first =>
        (manager.loadEnabled (disk.getD {}) rest).map (first ++ ·) := by
  have hitem : (disk.getD {}).items.get? info.name = itemAt disk info.name := by
    cases disk <;> rfl
  have hrest : ∀ loaded : Option (List (String × Extension)),
      loaded = loaded.map ([] ++ ·) := by
    intro loaded
    cases loaded <;> rfl
  rw [loadEnabled, loadOne, hitem]
  split
  · exact hrest _
  cases itemAt disk info.name with
  | none => exact hrest _
  | some item =>
      cases item with
      | file => rfl
      | directory content =>
          dsimp only
          cases manager.loadFromDir content <;> rfl

theorem rel_append {α : Type} {first second : Option (List α)}
    (hrel : Option.Rel List.Perm first second) (front : List α) :
    Option.Rel List.Perm (first.map (front ++ ·)) (second.map (front ++ ·)) := by
  cases hrel with
  | none => exact .none
  | some hperm => exact .some (hperm.append_left front)

theorem rel_trans {α : Type} {first second third : Option (List α)}
    (hfirst : Option.Rel List.Perm first second) (hsecond : Option.Rel List.Perm second third) :
    Option.Rel List.Perm first third := by
  cases hfirst with
  | none => exact hsecond
  | some hperm =>
      cases hsecond with
      | some hlater => exact .some (hperm.trans hlater)

/-- The order of the entries does not matter. -/
theorem rel_loadEnabled {first second : List InstallationInfo} (hperm : first.Perm second) :
    Option.Rel List.Perm (manager.loadEnabled (disk.getD {}) first)
      (manager.loadEnabled (disk.getD {}) second) := by
  induction hperm with
  | nil => exact .some (.refl _)
  | cons info _ ih =>
      rw [loadEnabled_cons, loadEnabled_cons]
      cases manager.loadOne disk info with
      | none => exact .none
      | some loaded => exact rel_append ih loaded
  | swap info other rest =>
      rw [loadEnabled_cons, loadEnabled_cons, loadEnabled_cons, loadEnabled_cons]
      cases manager.loadOne disk info with
      | none => cases manager.loadOne disk other <;> exact .none
      | some loaded =>
          cases manager.loadOne disk other with
          | none => exact .none
          | some others =>
              cases manager.loadEnabled (disk.getD {}) rest with
              | none => exact .none
              | some last =>
                  have hswap : (others ++ (loaded ++ last)).Perm (loaded ++ (others ++ last)) := by
                    rw [← List.append_assoc, ← List.append_assoc]
                    exact List.perm_append_comm.append_right last
                  exact .some hswap
  | trans _ _ ihfirst ihsecond => exact rel_trans ihfirst ihsecond

theorem loadEnabled_congr {listed : List InstallationInfo}
    (hsame : ∀ info ∈ listed, manager.loadOne after info = manager.loadOne before info) :
    manager.loadEnabled (after.getD {}) listed = manager.loadEnabled (before.getD {}) listed := by
  induction listed with
  | nil => rfl
  | cons info rest ih =>
      rw [loadEnabled_cons, loadEnabled_cons, hsame info List.mem_cons_self,
        ih fun other hmem => hsame other (.tail _ hmem)]

theorem toOption_loadInstalled (disk : Option (InstallationFolder Content)) :
    (manager.loadInstalled {} now disk).1.toOption =
      manager.loadEnabled (disk.getD {}) (manager.listing now disk).2 := by
  have hlist := @listInstalled_eq _ manager now disk
  have hloaded : ∀ listed, manager.loadEnabled
      ((manager.listInstalled {} now disk).2.getD {}) listed =
        manager.loadEnabled (disk.getD {}) listed := by
    intro listed
    apply loadEnabled_congr
    intro info _
    have hitem : itemAt (manager.listInstalled {} now disk).2 info.name =
        itemAt disk info.name := by
      cases disk <;> rfl
    unfold loadOne
    rw [hitem]
  rw [← hloaded]
  unfold loadInstalled
  split
  next heq =>
    rw [heq] at hlist
    cases hlist
  next heq =>
    rw [heq] at hlist
    cases hlist
    rw [heq]
    cases manager.loadEnabled _ _ <;> rfl

/-! ## The same items and metadata -/

theorem atomic_of_same (hitems : ∀ name, itemAt after name = itemAt before name)
    (hmetadata : metadataOf after = metadataOf before) : Atomic manager before after := by
  have hperm : ∀ now, (manager.listing now before).2.Perm (manager.listing now after).2 := by
    intro now
    apply perm_listing
    intro name
    rw [get?_listing, get?_listing, hitems, loadMetadata_eq, loadMetadata_eq, hmetadata]
  refine ⟨fun name item hitem => (hitems name).trans hitem, hmetadata, fun now => ?_,
    fun now => ?_⟩
  · rw [listInstalled_eq, listInstalled_eq]
    exact .some (hperm now)
  · unfold SameExtensions
    rw [toOption_loadInstalled, toOption_loadInstalled]
    have hsame : manager.loadEnabled (after.getD {}) (manager.listing now after).2 =
        manager.loadEnabled (before.getD {}) (manager.listing now after).2 := by
      apply loadEnabled_congr
      intro info _
      unfold loadOne
      rw [hitems]
    rw [hsame]
    exact rel_loadEnabled (hperm now)

/-! ## Something left where nothing was -/

structure LeftBehind (before after : Option (InstallationFolder Content)) (name : String)
    (left : Content) : Prop where
  missing : itemAt before name = none
  items : ∀ other, itemAt after other =
    if other = name then some (.directory left) else itemAt before other
  metadata : metadataOf after = metadataOf before

namespace LeftBehind

variable {name : String} {left : Content}

theorem loadMetadata (hleft : LeftBehind before after name left) :
    loadMetadata true after = loadMetadata true before := by
  rw [loadMetadata_eq, loadMetadata_eq, hleft.metadata]

theorem itemAt_of_ne (hleft : LeftBehind before after name left) {other : String}
    (hother : other ≠ name) : itemAt after other = itemAt before other := by
  rw [hleft.items, if_neg hother]

theorem kept (hleft : LeftBehind before after name left) {other : String}
    {item : InstalledItem Content} (hitem : itemAt before other = some item) :
    itemAt after other = some item := by
  rw [hleft.itemAt_of_ne, hitem]
  rintro rfl
  rw [hleft.missing] at hitem
  cases hitem

theorem notMem_listing (hleft : LeftBehind before after name left) :
    name ∉ (manager.listing now before).1.keys := by
  rw [← Dict.isSome_get?_iff, get?_listing, hleft.missing]
  simp

theorem mem_listing (hleft : LeftBehind before after name left) {other : String}
    (hmem : other ∈ (manager.listing now before).1.keys) :
    other ∈ (manager.listing now after).1.keys := by
  have hother : other ≠ name := by
    rintro rfl
    exact hleft.notMem_listing hmem
  rw [← Dict.isSome_get?_iff, get?_listing] at hmem ⊢
  rw [hleft.loadMetadata, hleft.itemAt_of_ne hother]
  exact hmem

/-- An extension more makes the list longer. -/
theorem notMem_of_listed (hleft : LeftBehind before after name left)
    (hlisted : SameExtensions (manager.listInstalled {} now before).1
      (manager.listInstalled {} now after).1) :
    name ∉ (manager.listing now after).1.keys := by
  intro hmem
  rw [listInstalled_eq, listInstalled_eq] at hlisted
  cases hlisted with
  | some hperm =>
      have hlength := hperm.length_eq
      unfold listing at hlength
      rw [← values_sync, ← values_sync, Dict.values, Dict.values, List.length_map,
        List.length_map] at hlength
      have hmore : (name :: (manager.listing now before).1.keys).length ≤
          (manager.listing now after).1.keys.length := by
        apply List.Subperm.length_le
        apply List.Nodup.subperm (List.nodup_cons.mpr ⟨hleft.notMem_listing, Dict.nodup _⟩)
        intro other hother
        rcases List.mem_cons.mp hother with rfl | hother
        · exact hmem
        · exact hleft.mem_listing hother
      rw [List.length_cons, Dict.keys, Dict.keys, List.length_map, List.length_map] at hmore
      unfold listing at hmore
      omega

theorem get?_listing_eq (hleft : LeftBehind before after name left)
    (huntracked : name ∉ (InstallationManager.loadMetadata true before).keys)
    (hundiscovered : manager.discover name (.directory left) = none) (other : String) :
    (manager.listing now before).1.get? other = (manager.listing now after).1.get? other := by
  rw [get?_listing, get?_listing, hleft.loadMetadata]
  by_cases hother : other = name
  · rw [hother, Dict.get?_eq_none_iff.mpr huntracked, hleft.missing, hleft.items, if_pos rfl,
      Option.bind_some, hundiscovered]
    rfl
  · rw [hleft.itemAt_of_ne hother]

theorem loadOne_eq (hleft : LeftBehind before after name left) {info : InstallationInfo}
    (hother : info.enabled → info.name ≠ name) :
    manager.loadOne after info = manager.loadOne before info := by
  unfold loadOne
  split
  next => rfl
  next henabled => rw [hleft.itemAt_of_ne (hother (by simpa using henabled))]

theorem loadOne_none (hleft : LeftBehind before after name left) {info : InstallationInfo}
    (hnone : manager.loadOne before info = none) : manager.loadOne after info = none := by
  rw [hleft.loadOne_eq, hnone]
  rintro henabled rfl
  simp [loadOne, hleft.missing] at hnone

theorem loadEnabled_none (hleft : LeftBehind before after name left)
    {listed : List InstallationInfo}
    (hnone : manager.loadEnabled (before.getD {}) listed = none) :
    manager.loadEnabled (after.getD {}) listed = none := by
  induction listed with
  | nil => cases hnone
  | cons info rest ih =>
      rw [loadEnabled_cons] at hnone ⊢
      cases hone : manager.loadOne before info with
      | none =>
          rw [hleft.loadOne_none hone]
          rfl
      | some first =>
          rw [hone, Option.bind_some, Option.map_eq_none_iff] at hnone
          rw [ih hnone]
          cases manager.loadOne after info <;> rfl

theorem length_loadOne_le (hleft : LeftBehind before after name left) {info : InstallationInfo}
    {first later : List (String × Extension)}
    (hbefore : manager.loadOne before info = some first)
    (hafter : manager.loadOne after info = some later) :
    first.length + (if info.enabled && info.name = name then 1 else 0) ≤ later.length := by
  split
  next hnamed =>
    obtain ⟨henabled, hname⟩ := Bool.and_eq_true_iff.mp hnamed
    rw [loadOne, henabled, of_decide_eq_true hname, hleft.missing] at hbefore
    rw [loadOne, henabled, of_decide_eq_true hname, hleft.items, if_pos rfl] at hafter
    cases hbefore
    obtain ⟨extension, -, rfl⟩ := Option.map_eq_some_iff.mp hafter
    exact Nat.le_refl _
  next hnamed =>
    have hother : info.enabled → info.name ≠ name := by
      intro henabled hname
      exact hnamed (Bool.and_eq_true_iff.mpr ⟨henabled, decide_eq_true hname⟩)
    rw [hleft.loadOne_eq hother, hbefore] at hafter
    cases hafter
    exact Nat.le_refl _

/-- What is left behind is loaded for each enabled entry of its name. -/
theorem length_loadEnabled_le (hleft : LeftBehind before after name left)
    {listed : List InstallationInfo} {loaded later : List (String × Extension)}
    (hbefore : manager.loadEnabled (before.getD {}) listed = some loaded)
    (hafter : manager.loadEnabled (after.getD {}) listed = some later) :
    loaded.length + listed.countP (fun info => info.enabled && info.name = name) ≤
      later.length := by
  induction listed generalizing loaded later with
  | nil =>
      cases hbefore
      exact Nat.zero_le _
  | cons info rest ih =>
      rw [loadEnabled_cons] at hbefore hafter
      obtain ⟨first, hfirst, hbefore⟩ := Option.bind_eq_some_iff.mp hbefore
      obtain ⟨others, hothers, rfl⟩ := Option.map_eq_some_iff.mp hbefore
      obtain ⟨firstLater, hfirstLater, hafter⟩ := Option.bind_eq_some_iff.mp hafter
      obtain ⟨othersLater, hothersLater, rfl⟩ := Option.map_eq_some_iff.mp hafter
      have hone := hleft.length_loadOne_le hfirst hfirstLater
      have hrest := ih hothers hothersLater
      rw [List.countP_cons, List.length_append, List.length_append]
      omega

end LeftBehind

theorem values_listing (disk : Option (InstallationFolder Content)) :
    (manager.listing now disk).1.values = (manager.listing now disk).2 :=
  values_sync

theorem mem_listing_of_tracked {key : String} {info : InstallationInfo}
    (hget : (loadMetadata true disk).get? key = some info) (hvalid : isExtensionName key)
    (hthere : (itemAt disk key).isSome) : info ∈ (manager.listing now disk).2 := by
  rw [← values_listing]
  apply Dict.mem_values_iff.mpr
  refine ⟨key, ?_⟩
  rw [get?_listing, hget]
  simp [hvalid, hthere]

/-- What is listed is tracked, or goes by the name of an item. -/
theorem listing_cases {info : InstallationInfo} (hmem : info ∈ (manager.listing now disk).2) :
    (∃ key, (loadMetadata true disk).get? key = some info ∧ isExtensionName key ∧
      (itemAt disk key).isSome) ∨ (itemAt disk info.name).isSome := by
  rw [← values_listing] at hmem
  obtain ⟨key, hget⟩ := Dict.mem_values_iff.mp hmem
  rw [get?_listing, Option.or_eq_some_iff] at hget
  rcases hget with htracked | ⟨-, hdiscovered⟩
  · obtain ⟨hget, hvalid⟩ := Option.filter_eq_some_iff.mp htracked
    rw [Bool.and_eq_true] at hvalid
    exact .inl ⟨key, hget, hvalid⟩
  · obtain ⟨extension, hdiscover, rfl⟩ := Option.map_eq_some_iff.mp hdiscovered
    obtain ⟨item, hitem, hdiscover⟩ := Option.bind_eq_some_iff.mp hdiscover
    have hname : extension.name = key := (isExtensionName_of_discover hdiscover).2
    right
    change (itemAt disk extension.name).isSome
    rw [hname, hitem]
    rfl

namespace LeftBehind

variable {name : String} {left : Content}

theorem atomic (hleft : LeftBehind before after name left)
    (hunnoticed : Unnoticed manager before name left) : Atomic manager before after := by
  have hperm : ∀ now, (manager.listing now before).2.Perm (manager.listing now after).2 :=
    fun now => perm_listing
      (hleft.get?_listing_eq hunnoticed.untracked hunnoticed.undiscovered)
  refine ⟨fun other item => hleft.kept, hleft.metadata, fun now => ?_, fun now => ?_⟩
  · rw [listInstalled_eq, listInstalled_eq]
    exact .some (hperm now)
  · unfold SameExtensions
    rw [toOption_loadInstalled, toOption_loadInstalled]
    have hsame : manager.loadEnabled (after.getD {}) (manager.listing now before).2 =
        manager.loadEnabled (before.getD {}) (manager.listing now before).2 := by
      rcases hunnoticed.unloaded with hunnamed | hraises
      · apply loadEnabled_congr
        intro info hmem
        apply hleft.loadOne_eq
        intro henabled
        rcases listing_cases hmem with ⟨key, hget, hvalid, hthere⟩ | hthere
        · exact hunnamed key info hget hvalid hthere henabled
        · rintro rfl
          rw [hleft.missing] at hthere
          cases hthere
      · have hnone := hraises now
        rw [toOption_loadInstalled] at hnone
        rw [hnone, hleft.loadEnabled_none hnone]
    rw [← hsame]
    exact rel_loadEnabled (hperm now)

theorem unnoticed (hleft : LeftBehind before after name left) (hvalid : isExtensionName name)
    (hatomic : Atomic manager before after) : Unnoticed manager before name left := by
  have hnotMem := hleft.notMem_of_listed (hatomic.listed "")
  rw [← Dict.isSome_get?_iff, get?_listing, hleft.loadMetadata, hleft.items, if_pos rfl,
    Option.bind_some, Option.isSome_or, Bool.or_eq_true, not_or] at hnotMem
  have huntracked : name ∉ (InstallationManager.loadMetadata true before).keys := by
    intro hmem
    obtain ⟨info, hinfo⟩ := Option.isSome_iff_exists.mp (Dict.isSome_get?_iff.mpr hmem)
    apply hnotMem.1
    rw [hinfo]
    simp [hvalid]
  have hundiscovered : manager.discover name (.directory left) = none := by
    have hnone := hnotMem.2
    rw [Option.isSome_map, Option.not_isSome_iff_eq_none] at hnone
    exact hnone
  refine ⟨huntracked, hundiscovered, ?_⟩
  by_cases hunnamed : ∀ key info, (InstallationManager.loadMetadata true before).get? key =
      some info → isExtensionName key → (itemAt before key).isSome → info.enabled →
      info.name ≠ name
  · exact .inl hunnamed
  · right
    intro now
    push Not at hunnamed
    obtain ⟨key, info, hget, hkey, hthere, henabled, hname⟩ := hunnamed
    have hmem := @mem_listing_of_tracked _ manager now before key info hget hkey hthere
    have hperm := @perm_listing _ manager now before after
      (hleft.get?_listing_eq huntracked hundiscovered)
    have hloaded := hatomic.loaded now
    unfold SameExtensions at hloaded
    rw [toOption_loadInstalled, toOption_loadInstalled] at hloaded
    rw [toOption_loadInstalled]
    -- Loaded on both sides, the lists would differ in length.
    have hrel := rel_trans hloaded (rel_loadEnabled hperm.symm)
    cases hbefore : manager.loadEnabled (before.getD {}) (manager.listing now before).2 with
    | none => rfl
    | some loaded =>
        cases hafter : manager.loadEnabled (after.getD {}) (manager.listing now before).2 with
        | none =>
            rw [hbefore, hafter] at hrel
            cases hrel
        | some later =>
            rw [hbefore, hafter] at hrel
            cases hrel with
            | some hsame =>
                have hlength := hleft.length_loadEnabled_le hbefore hafter
                have hcount : 0 < (manager.listing now before).2.countP
                    (fun info => info.enabled && info.name = name) := by
                  apply List.countP_pos_iff.mpr
                  exact ⟨info, hmem, Bool.and_eq_true_iff.mpr ⟨henabled, decide_eq_true hname⟩⟩
                have := hsame.length_eq
                omega

end LeftBehind

/-! ## The failures of a call -/

theorem atomic_iff_of_replaced {name : String} {old left : Content}
    (hold : itemAt before name = some (.directory old))
    (hitems : ∀ other, itemAt after other =
      if other = name then some (.directory left) else itemAt before other) :
    Atomic manager before after ↔ left = old ∧ metadataOf after = metadataOf before := by
  constructor
  · intro hatomic
    have hkept := hatomic.kept name _ hold
    rw [hitems, if_pos rfl] at hkept
    exact ⟨InstalledItem.directory.inj (Option.some.inj hkept), hatomic.metadata⟩
  · rintro ⟨hsame, hmetadata⟩
    apply atomic_of_same _ hmetadata
    intro other
    rw [hitems]
    split
    next heq => rw [heq, hold, hsame]
    next => rfl

theorem metadataOf_saveMetadata_iff {α : Type} {access : MetadataAccess}
    {extensions : Dict String InstallationInfo} {result : α} {error : InstallationError}
    (herror : (saveMetadata access extensions result disk).1 = .error error) :
    metadataOf (saveMetadata access extensions result disk).2 = metadataOf disk ↔
      LeavesFile (metadataOf disk) access.write := by
  have hfile : (disk.getD {}).metadata = metadataOf disk := by
    cases disk <;> rfl
  unfold saveMetadata at herror ⊢
  cases hwrite : access.write with
  | written =>
      rw [hwrite] at herror
      cases herror
  | refused => exact iff_of_true hfile trivial
  | cut text => exact eq_comm

/-- A directory name does not start with a dot. -/
theorem discover_of_load {name : String} {content : Content} {extension : Extension}
    (hload : manager.loadFromDir content = some extension) (hvalid : isExtensionName name)
    (hname : extension.name = name) :
    manager.discover name (.directory content) = some extension := by
  have hdot : name.toList.head? ≠ some '.' := by
    intro hhead
    obtain ⟨rest, hrest⟩ : ∃ rest, name.toList = '.' :: rest := by
      cases htext : name.toList with
      | nil =>
          rw [htext] at hhead
          cases hhead
      | cons first rest =>
          rw [htext] at hhead
          cases hhead
          exact ⟨rest, rfl⟩
    rw [isExtensionName, hrest, List.splitOn, List.splitOnP_cons_eq_if_modifyHead] at hvalid
    cases hparts : List.splitOnP (· == '-') rest with
    | nil => exact List.splitOnP_ne_nil _ _ hparts
    | cons part parts =>
        rw [hparts] at hvalid
        simp at hvalid
  simp [discover, hdot, hvalid, hload, hname]

section Place

variable {request : InstallRequest Content} {content : Content} {resolvedRef : Option String}
  {extension : Extension}

theorem place_of_remove_error {error : InstallationError}
    (hremove : removeTree extension.name (leftBy request.failure) before = (.error error, after)) :
    manager.place request content resolvedRef extension before = (.error error, after) := by
  rw [place, hremove]

theorem place_of_copy_error {removed : Option (InstallationFolder Content)}
    {error : InstallationError}
    (hremove : removeTree extension.name (leftBy request.failure) before = (.ok (), removed))
    (hcopy : copyTree extension.name content request.failure removed = (.error error, after)) :
    manager.place request content resolvedRef extension before = (.error error, after) := by
  rw [place, hremove]
  dsimp only
  rw [hcopy]

/-- The new directory is in place, and writing the metadata fails. -/
theorem place_of_copied {removed copied : Option (InstallationFolder Content)}
    {error : InstallationError}
    (hremove : removeTree extension.name (leftBy request.failure) before = (.ok (), removed))
    (hcopy : copyTree extension.name content request.failure removed = (.ok (), copied))
    (hplace : manager.place request content resolvedRef extension before =
      (.error error, after)) :
    (∀ name, itemAt after name = itemAt copied name) ∧
      (metadataOf after = metadataOf copied ↔
        LeavesFile (metadataOf copied) request.access.write) := by
  rw [place, hremove] at hplace
  dsimp only at hplace
  rw [hcopy] at hplace
  have hafter := congrArg Prod.snd hplace
  have herror := congrArg Prod.fst hplace
  dsimp only at hafter herror
  rw [← hafter]
  refine ⟨fun name => ?_, metadataOf_saveMetadata_iff herror⟩
  cases copied <;> rfl

theorem removeTree_of_none {name : String} {left : Option Content}
    (hnone : itemAt before name = none) : removeTree name left before = (.ok (), before) := by
  rw [removeTree]
  exact hnone

/-- Nothing was there. -/
theorem atomic_iff_of_missing {error : InstallationError}
    (hnone : itemAt before extension.name = none)
    (hload : manager.loadFromDir content = some extension)
    (hvalid : isExtensionName extension.name)
    (hplace : manager.place request content resolvedRef extension before =
      (.error error, after)) :
    Atomic manager before after ↔ manager.PlacesCleanly request content extension.name before := by
  have hremove := @removeTree_of_none _ before extension.name (leftBy request.failure) hnone
  -- A directory that is copied stays behind.
  have hcopied : (∀ other, itemAt after other = if other = extension.name then
      some (.directory content) else itemAt before other) → ¬ Atomic manager before after := by
    intro hitems hatomic
    have hleft : LeftBehind before after extension.name content :=
      ⟨hnone, hitems, hatomic.metadata⟩
    have hundiscovered := (hleft.unnoticed hvalid hatomic).undiscovered
    rw [discover_of_load hload hvalid rfl] at hundiscovered
    cases hundiscovered
  unfold PlacesCleanly
  rw [hnone]
  cases hfailure : request.failure with
  | none =>
      have hcopy : copyTree extension.name content request.failure before =
          (.ok (), setItem extension.name (.directory content) before) := by
        rw [hfailure]
        rfl
      apply iff_of_false _ id
      apply hcopied
      intro other
      rw [(place_of_copied hremove hcopy hplace).1, itemAt_setItem]
  | some failure =>
      cases failure with
      | remove left =>
          have hcopy : copyTree extension.name content request.failure before =
              (.ok (), setItem extension.name (.directory content) before) := by
            rw [hfailure]
            rfl
          apply iff_of_false _ id
          apply hcopied
          intro other
          rw [(place_of_copied hremove hcopy hplace).1, itemAt_setItem]
      | makeDirectory =>
          have hcopy : copyTree extension.name content request.failure before =
              (.error .makeDirectory, before) := by
            rw [hfailure]
            rfl
          have hafter := (place_of_copy_error hremove hcopy).symm.trans hplace
          cases hafter
          exact iff_of_true (atomic_of_same (fun _ => rfl) rfl) trivial
      | copy copied =>
          cases copied with
          | none =>
              have hcopy : copyTree extension.name content request.failure before =
                  (.error .copy, some (before.getD {})) := by
                rw [hfailure]
                rfl
              have hafter := (place_of_copy_error hremove hcopy).symm.trans hplace
              cases hafter
              refine iff_of_true (atomic_of_same (itemAt_getD before) ?_) trivial
              cases before <;> rfl
          | some left =>
              have hcopy : copyTree extension.name content request.failure before =
                  (.error .copy, setItem extension.name (.directory left) before) := by
                rw [hfailure]
                rfl
              have hafter := (place_of_copy_error hremove hcopy).symm.trans hplace
              cases hafter
              have hleft : LeftBehind before
                  (setItem extension.name (.directory left) before) extension.name left :=
                ⟨hnone, itemAt_setItem _ _ before, metadataOf_setItem _ _⟩
              exact ⟨hleft.unnoticed hvalid, hleft.atomic⟩

/-- There was no directory to remove. -/
theorem atomic_iff_of_file {error : InstallationError}
    (hfile : itemAt before extension.name = some .file)
    (hplace : manager.place request content resolvedRef extension before =
      (.error error, after)) :
    Atomic manager before after ↔ manager.PlacesCleanly request content extension.name before := by
  have hremove : removeTree extension.name (leftBy request.failure) before =
      (.error .remove, before) := by
    unfold removeTree
    rw [hfile]
  have hafter := (place_of_remove_error hremove).symm.trans hplace
  cases hafter
  apply iff_of_true
  · exact atomic_of_same (fun _ => rfl) rfl
  · unfold PlacesCleanly
    rw [hfile]
    trivial

/-- The old version was there. -/
theorem atomic_iff_of_directory {error : InstallationError} {old : Content}
    (hold : itemAt before extension.name = some (.directory old))
    (hplace : manager.place request content resolvedRef extension before =
      (.error error, after)) :
    Atomic manager before after ↔ manager.PlacesCleanly request content extension.name before := by
  -- Once the old version is gone, only the same content in its place makes up for it.
  have hremove : leftBy request.failure = none →
      removeTree extension.name (leftBy request.failure) before =
        (.ok (), eraseItem extension.name before) := by
    intro hleft
    unfold removeTree
    rw [hold, hleft]
  have hreplaced : ∀ (content : Content) (other : String),
      itemAt (setItem extension.name (.directory content) (eraseItem extension.name before)) other =
        if other = extension.name then some (.directory content) else itemAt before other := by
    intro content other
    rw [itemAt_setItem, itemAt_eraseItem_apply]
    split <;> rfl
  have hgone : (∀ other, itemAt after other = itemAt (eraseItem extension.name before) other) →
      ¬ Atomic manager before after := by
    intro hitems hatomic
    have hkept := hatomic.kept _ _ hold
    rw [hitems, itemAt_eraseItem_apply, if_pos rfl] at hkept
    cases hkept
  unfold PlacesCleanly
  rw [hold]
  cases hfailure : request.failure with
  | none =>
      have hremoved := hremove (by rw [hfailure]; rfl)
      have hcopy : copyTree extension.name content request.failure
          (eraseItem extension.name before) = (.ok (), setItem extension.name
            (.directory content) (eraseItem extension.name before)) := by
        rw [hfailure]
        rfl
      obtain ⟨hitems, hmetadata⟩ := place_of_copied hremoved hcopy hplace
      rw [metadataOf_setItem, metadataOf_eraseItem] at hmetadata
      rw [atomic_iff_of_replaced hold fun other => (hitems other).trans (hreplaced _ other),
        hmetadata]
  | some failure =>
      cases failure with
      | remove left =>
          have hremoved : removeTree extension.name (leftBy request.failure) before =
              (.error .remove, setItem extension.name (.directory left) before) := by
            unfold removeTree
            rw [hfailure, hold]
            rfl
          have hafter := (place_of_remove_error hremoved).symm.trans hplace
          cases hafter
          rw [atomic_iff_of_replaced hold (itemAt_setItem _ _ before)]
          exact and_iff_left (metadataOf_setItem _ _)
      | makeDirectory =>
          have hremoved := hremove (by rw [hfailure]; rfl)
          have hcopy : copyTree extension.name content request.failure
              (eraseItem extension.name before) =
                (.error .makeDirectory, eraseItem extension.name before) := by
            rw [hfailure]
            rfl
          have hafter := (place_of_copy_error hremoved hcopy).symm.trans hplace
          cases hafter
          exact iff_of_false (hgone fun _ => rfl) id
      | copy copied =>
          have hremoved := hremove (by rw [hfailure]; rfl)
          cases copied with
          | none =>
              have hcopy : copyTree extension.name content request.failure
                  (eraseItem extension.name before) =
                    (.error .copy, some ((eraseItem extension.name before).getD {})) := by
                rw [hfailure]
                rfl
              have hafter := (place_of_copy_error hremoved hcopy).symm.trans hplace
              cases hafter
              exact iff_of_false (hgone (itemAt_getD _)) nofun
          | some left =>
              have hcopy : copyTree extension.name content request.failure
                  (eraseItem extension.name before) = (.error .copy, setItem extension.name
                    (.directory left) (eraseItem extension.name before)) := by
                rw [hfailure]
                rfl
              have hafter := (place_of_copy_error hremoved hcopy).symm.trans hplace
              cases hafter
              rw [atomic_iff_of_replaced hold (hreplaced left)]
              dsimp only
              rw [Option.some.injEq]
              apply and_iff_left
              rw [metadataOf_setItem, metadataOf_eraseItem]

end Place

/-- What fails before the work on the directory changes nothing. -/
theorem atomic_iff_of_install {request : InstallRequest Content} {error : InstallationError}
    (hinstall : manager.install request before = (.error error, after)) :
    Atomic manager before after ↔ manager.FailsCleanly request before := by
  have hsame : after = before → Atomic manager before after := by
    rintro rfl
    exact atomic_of_same (fun _ => rfl) rfl
  unfold install at hinstall
  unfold FailsCleanly
  split at hinstall
  next hfetched =>
    cases hinstall
    rw [hfetched]
    exact iff_of_true (hsame rfl) nofun
  next content resolvedRef hfetched =>
    rw [hfetched]
    split at hinstall
    next hload =>
      cases hinstall
      apply iff_of_true (hsame rfl)
      intro _ _ _ heq hloaded
      cases heq
      rw [hload] at hloaded
      cases hloaded
    next extension hload =>
      -- Past the checks, only this extension can be meant.
      have honly : ∀ property : Content → Extension → Prop,
          (∀ content' resolvedRef' extension', some (content, resolvedRef) =
            some (content', resolvedRef') → manager.loadFromDir content' = some extension' →
              property content' extension') ↔ property content extension := by
        intro property
        constructor
        · intro hall
          exact hall _ _ _ rfl hload
        · intro hone _ _ _ heq hloaded
          cases heq
          rw [hload] at hloaded
          cases hloaded
          exact hone
      rw [honly]
      split at hinstall
      next hinvalid =>
        cases hinstall
        apply iff_of_true (hsame rfl)
        intro hvalid
        rw [hvalid] at hinvalid
        cases hinvalid
      next hvalid =>
        rw [Bool.not_eq_true', Bool.not_eq_false] at hvalid
        split at hinstall
        next hthere =>
          cases hinstall
          rw [Bool.and_eq_true, Bool.not_eq_true'] at hthere
          apply iff_of_true (hsame rfl)
          intro _ hforced
          have hforce := hforced hthere.1
          rw [hthere.2] at hforce
          cases hforce
        next hfree =>
          have hforced : (itemAt before extension.name).isSome → request.force := by
            intro hthere
            rw [hthere, Bool.true_and, Bool.not_eq_true', Bool.not_eq_false] at hfree
            exact hfree
          have hplaces : Atomic manager before after ↔
              manager.PlacesCleanly request content extension.name before := by
            cases hitem : itemAt before extension.name with
            | none => exact atomic_iff_of_missing hitem hload hvalid hinstall
            | some item =>
                cases item with
                | file => exact atomic_iff_of_file hitem hinstall
                | directory old => exact atomic_iff_of_directory hitem hinstall
          rw [hplaces]
          constructor
          · intro hclean _ _
            exact hclean
          · intro hclean
            exact hclean hvalid hforced

end InstallationManager

namespace InstallCall

open InstallationManager

variable {Content : Type} {manager : InstallationManager Content}
  {before after : Option (InstallationFolder Content)}

theorem eq_error_of_map {α β : Type} {outcome : Outcome Content α} {f : α → β}
    {error : InstallationError} (hmap : (outcome.1.map f, outcome.2) = (.error error, after)) :
    outcome = (.error error, after) := by
  obtain ⟨result, disk⟩ := outcome
  cases result with
  | error _ =>
      cases hmap
      rfl
  | ok _ => cases hmap

/-- A call that raises is atomic exactly when it fails cleanly. -/
theorem atomic_iff {call : InstallCall Content} {error : InstallationError}
    (hraises : call.run manager before = (.error error, after)) :
    Atomic manager before after ↔ call.FailsCleanly manager before := by
  cases call with
  | install request => exact atomic_iff_of_install (eq_error_of_map hraises)
  | update name readable request =>
      have hupdate : manager.update name readable request before = (.error error, after) :=
        eq_error_of_map hraises
      unfold InstallationManager.update at hupdate
      cases hget : InstallationManager.get name readable before with
      | error failed =>
          rw [hget] at hupdate
          cases hupdate
          apply iff_of_true (atomic_of_same (fun _ => rfl) rfl)
          intro current hcurrent
          rw [hget] at hcurrent
          cases hcurrent
      | ok current =>
          rw [hget] at hupdate
          cases current with
          | none => cases hupdate
          | some current =>
              rw [atomic_iff_of_install (eq_error_of_map hupdate)]
              constructor
              · intro hclean other hother
                rw [hget] at hother
                cases hother
                exact hclean
              · intro hclean
                exact hclean current hget

/-- A skill is what its manifest says. -/
def skills : InstallationManager Extension where
  installationDir := "skills"
  loadFromDir := some

def review : Extension := { name := "review", version := "1", description := none }

/-- Version 2 is fetched where version 1 is installed. -/
def reinstall (failure : InstallFailure Extension) : InstallCall Extension :=
  .install {
    source := "github:owner/review"
    force := true
    fetched := some ({ review with version := "2" }, none)
    failure := some failure
  }

def withReview : Option (InstallationFolder Extension) :=
  setItem "review" (.directory review) none

/-- The old version cannot be removed, and is left as it was. -/
theorem atomic_iff_kept : Atomic skills withReview withReview ↔
    (reinstall (.remove review)).FailsCleanly skills withReview :=
  atomic_iff (show (reinstall (.remove review)).run skills withReview =
    (.error .remove, withReview) by decide +kernel)

/-- The copy fails after the old version has been removed. -/
theorem not_atomic_when_copy_fails : ¬ ∀ (call : InstallCall Extension)
    (before after : Option (InstallationFolder Extension)) (error : InstallationError),
    call.run skills before = (.error error, after) → Atomic skills before after := by
  intro hall
  have hraises : (reinstall (.copy none)).run skills withReview =
      (.error .copy, some {}) := by decide +kernel
  have hkept := (hall _ _ _ _ hraises).kept "review" (.directory review) (by decide)
  cases hkept

end InstallCall

end ShuttleFlow
