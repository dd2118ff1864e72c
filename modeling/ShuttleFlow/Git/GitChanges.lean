import Mathlib.Data.Char
import Mathlib.Data.List.Dedup
import Mathlib.Data.List.Lex
import Mathlib.Data.List.Sort
import ShuttleFlow.Git.RepoChanges

/-! # The changes of a workspace with repositories in it

The nested repositories are found one level down, by their `.git` directories. What belongs to
one of them is told by how a path begins.
-/

namespace ShuttleFlow

open PythonText (isSpace)

/-- `os.path.dirname` -/
def dirname (path : GitText) : GitText :=
  let head := path.rdropWhile (· ≠ '/')
  if head.all (· = '/') then head else head.rdropWhile (· = '/')

/-- `str(Path(dir) / path)` -/
def pathUnder (dir path : GitText) : GitText :=
  if path.head? = some '/' ∨ dir = [] then pathText path else pathText (dir ++ '/' :: path)

namespace GitHost

variable (host : GitHost)

/-- The directories with a `.git` of their own, in the order of the set. -/
def gitDirs (cwd : GitText) : List GitText :=
  ((host.glob cwd).map fun found => (dirname found).drop 2).dedup

/-- The changes of a nested repository. One that is not valid is skipped. -/
def gitDirChanges (cwd : GitText) (ref : Option GitText) (gitDir : GitText) : List GitChange :=
  match host.getChangesInRepo (pathUnder cwd gitDir) ref with
  | .error _ => []
  | .ok changes => changes.map fun change => ⟨change.status, pathUnder gitDir change.path⟩

def getGitChanges (cwd : GitText) (ref : Option GitText) : Except GitError (List GitChange) := do
  let changes ← host.getChangesInRepo cwd ref
  let changes := changes.filter fun change =>
    !(host.gitDirs cwd).any fun gitDir => gitDir.isPrefixOf change.path
  let changes := changes ++ (host.gitDirs cwd).flatMap (host.gitDirChanges cwd ref)
  .ok (changes.insertionSort fun change other => change.path ≤ other.path)

end GitHost

/-! ## Nested repositories -/

structure NestedRepository where
  dir : GitPath
  repository : GitRepository

namespace NestedRepository

/-- It is one level down, and not hidden. -/
def isFound (nested : NestedRepository) : Bool :=
  nested.dir.parts.length = 1 && nested.dir.text.head? ≠ some '.'

/-- How `glob` names its `.git`. -/
def dotGit (nested : NestedRepository) : GitText :=
  '.' :: '/' :: (nested.dir.text ++ "/.git".toList)

/-- The directory itself, or something below it. -/
def contains (nested : NestedRepository) (change : GitChange) : Bool :=
  change.path = nested.dir.text || (nested.dir.text ++ ['/']).isPrefixOf change.path

/-- The changes under the name of the directory. -/
def listing (nested : NestedRepository) : List GitChange :=
  nested.repository.listing.map fun change =>
    ⟨change.status, nested.dir.text ++ '/' :: change.path⟩

end NestedRepository

/-- A repository, and all the repositories in directories of it. -/
structure GitWorkspace where
  outer : GitRepository
  nested : List NestedRepository
  distinct : (nested.map fun nested => nested.dir.text).Nodup

namespace GitWorkspace

variable (workspace : GitWorkspace)

def isNested (change : GitChange) : Bool :=
  workspace.nested.any fun nested => nested.contains change

/-- What is to be listed, in any order. -/
def listing : List GitChange :=
  (workspace.outer.listing.filter fun change => !workspace.isNested change) ++
    workspace.nested.flatMap NestedRepository.listing

def found : List NestedRepository :=
  workspace.nested.filter NestedRepository.isFound

def unfound : List NestedRepository :=
  workspace.nested.filter fun nested => !nested.isFound

/-- The path begins with the name of a directory that is found. -/
def isDropped (change : GitChange) : Bool :=
  workspace.found.any fun nested => nested.dir.text.isPrefixOf change.path

/-- Every line is plain, only what is in a nested repository begins with the name of one, and
what is not dropped of a nested repository is what is not found. -/
structure Plain : Prop where
  outer : workspace.outer.Plain
  nested : ∀ nested ∈ workspace.nested, nested.repository.Plain
  outside : ∀ change ∈ workspace.outer.listing, workspace.isNested change = false →
    workspace.isDropped change = false
  inside : (workspace.outer.listing.filter fun change =>
    workspace.isNested change && !workspace.isDropped change).Perm
      (workspace.unfound.flatMap NestedRepository.listing)

end GitWorkspace

namespace GitHost

/-- The repositories of a workspace are compared with a ref. -/
structure ShowsWorkspace (host : GitHost) (cwd : GitText) (ref : Option GitText)
    (workspace : GitWorkspace) : Prop where
  outer : host.Shows cwd ref workspace.outer
  nested : ∀ nested ∈ workspace.nested,
    host.Shows (pathUnder cwd nested.dir.text) ref nested.repository
  glob : (host.glob cwd).Perm (workspace.found.map NestedRepository.dotGit)

/-- The changes of each repository are listed as they are, and those of the workspace in the
order of the paths. -/
structure ChangesLaw (host : GitHost) (cwd : GitText) (ref : Option GitText)
    (workspace : GitWorkspace) : Prop where
  outer : host.getChangesInRepo cwd ref = .ok workspace.outer.listing
  nested : ∀ nested ∈ workspace.nested,
    host.getChangesInRepo (pathUnder cwd nested.dir.text) ref = .ok nested.repository.listing
  workspace : ∃ changes, host.getGitChanges cwd ref = .ok changes ∧
    changes.Perm workspace.listing ∧
    changes.Pairwise fun change other => change.path ≤ other.path

end GitHost

/-! ## Lists of which parts are kept -/

/-- What is kept of a list is one part of it and something of the other kind, if and only if all
of that part is kept and the rest is as it should be. -/
theorem filter_perm_append_iff {α : Type} {items others : List α} {inside kept : α → Bool}
    (hothers : ∀ item ∈ others, inside item = true) :
    (items.filter kept).Perm ((items.filter fun item => !inside item) ++ others) ↔
      (∀ item ∈ items, inside item = false → kept item = true) ∧
        (items.filter fun item => inside item && kept item).Perm others := by
  have hinside : others.filter inside = others := List.filter_eq_self.mpr hothers
  have houtside : others.filter (fun item => !inside item) = [] := by
    apply List.filter_eq_nil_iff.mpr
    intro item hitem
    rw [hothers item hitem]
    decide
  constructor
  · intro hperm
    constructor
    · have hparts := hperm.filter fun item => !inside item
      rw [List.filter_append, houtside, List.append_nil, List.filter_filter, List.filter_filter]
        at hparts
      have hlengths := hparts.length_eq
      simp only [Bool.and_self] at hlengths
      rw [List.filter_congr fun item _ => Bool.and_comm _ _, ← List.filter_filter] at hlengths
      have hall := List.length_filter_eq_length_iff.mp hlengths
      intro item hitem hout
      exact hall item (List.mem_filter.mpr ⟨hitem, by rw [hout]; rfl⟩)
    · have hparts := hperm.filter inside
      rw [List.filter_append, hinside, List.filter_filter, List.filter_filter] at hparts
      simpa using hparts
  · rintro ⟨hkept, hperm⟩
    have houter : (items.filter kept).filter (fun item => !inside item) =
        items.filter fun item => !inside item := by
      rw [List.filter_filter]
      apply List.filter_congr
      intro item hitem
      cases hin : inside item with
      | true => rfl
      | false =>
          rw [hkept item hitem hin]
          rfl
    have hinner : (items.filter kept).filter inside =
        items.filter fun item => inside item && kept item := List.filter_filter
    have hparts := (List.filter_append_perm inside (items.filter kept)).symm.trans
      List.perm_append_comm
    rw [houter, hinner] at hparts
    exact hparts.trans (hperm.append_left _)

/-! ## Paths in nested repositories -/

/-- A path in a directory. -/
def GitPath.append (dir path : GitPath) : GitPath where
  parts := dir.parts ++ path.parts
  ne_nil := List.append_ne_nil_of_left_ne_nil dir.ne_nil _
  named part hpart := (List.mem_append.mp hpart).elim (dir.named part) (path.named part)
  unquoted part hpart := (List.mem_append.mp hpart).elim (dir.unquoted part) (path.unquoted part)

theorem intercalate_slash_append {parts others : List GitText} (hparts : parts ≠ [])
    (hothers : others ≠ []) :
    List.intercalate ['/'] (parts ++ others) =
      List.intercalate ['/'] parts ++ '/' :: List.intercalate ['/'] others := by
  induction parts with
  | nil => exact absurd rfl hparts
  | cons first rest ih =>
      cases rest with
      | nil =>
          obtain ⟨second, others, rfl⟩ := List.exists_cons_of_ne_nil hothers
          simp [List.intercalate_cons_cons]
      | cons second rest =>
          have hrest := ih (List.cons_ne_nil _ _)
          simp only [List.cons_append, List.intercalate_cons_cons] at hrest ⊢
          rw [hrest]
          simp

theorem GitPath.text_append (dir path : GitPath) :
    (dir.append path).text = dir.text ++ '/' :: path.text :=
  intercalate_slash_append dir.ne_nil path.ne_nil

theorem GitPath.head?_text (path : GitPath) : path.text.head? ≠ some '/' := by
  intro hhead
  have hroot := path.pathRoot_text []
  rw [List.append_nil] at hroot
  obtain ⟨rest, htext⟩ := List.head?_eq_some_iff.mp hhead
  rw [htext] at hroot
  unfold pathRoot at hroot
  split at hroot
  · cases hroot
  · cases hroot
  · cases hroot
  next hslash => exact hslash rest rfl

/-- The last name is not empty, so that there is no slash behind it. -/
theorem GitPath.text_ne_slash (path : GitPath) (front : GitText) : path.text ≠ front ++ ['/'] := by
  intro htext
  have hsplit : path.text.splitOn '/' = path.parts :=
    List.splitOn_intercalate '/' (fun part hpart => (path.named part hpart).2.2.2) path.ne_nil
  rw [htext, List.splitOn_append_cons_self, List.splitOn_nil] at hsplit
  have hempty : [] ∈ path.parts := hsplit ▸ List.mem_append_right _ (List.mem_singleton_self _)
  exact (path.named [] hempty).1 rfl

theorem pathUnder_text (dir path : GitPath) :
    pathUnder dir.text path.text = dir.text ++ '/' :: path.text := by
  rw [pathUnder, if_neg, ← dir.text_append, (dir.append path).pathText_text]
  rintro (hhead | hnil)
  · exact path.head?_text hhead
  · exact dir.text_ne_nil hnil

theorem GitRepository.exists_path {repository : GitRepository} {change : GitChange}
    (hchange : change ∈ repository.listing) : ∃ path : GitPath, change.path = path.text := by
  rcases List.mem_append.mp hchange with htracked | huntracked
  · obtain ⟨diff, -, hlisted⟩ := List.mem_flatMap.mp htracked
    cases diff with
    | modified path => exact ⟨path, congrArg _ (List.mem_singleton.mp hlisted)⟩
    | added path => exact ⟨path, congrArg _ (List.mem_singleton.mp hlisted)⟩
    | deleted path => exact ⟨path, congrArg _ (List.mem_singleton.mp hlisted)⟩
    | typeChanged path => exact ⟨path, congrArg _ (List.mem_singleton.mp hlisted)⟩
    | renamed score oldPath newPath =>
        rcases List.mem_cons.mp hlisted with rfl | hlisted
        · exact ⟨oldPath, rfl⟩
        · exact ⟨newPath, congrArg _ (List.mem_singleton.mp hlisted)⟩
    | copied score oldPath newPath => exact ⟨newPath, congrArg _ (List.mem_singleton.mp hlisted)⟩
  · obtain ⟨untracked, -, rfl⟩ := List.mem_map.mp huntracked
    exact ⟨untracked.path, rfl⟩

namespace NestedRepository

variable {nested : NestedRepository}

/-- The slashes around the name of a directory are taken away from what `glob` finds. -/
theorem dirname_dotGit (nested : NestedRepository) :
    (dirname nested.dotGit).drop 2 = nested.dir.text := by
  have hdot : nested.dotGit = '.' :: '/' :: nested.dir.text ++ '/' :: ".git".toList := by
    simp [dotGit]
  have hhead : nested.dotGit.rdropWhile (· ≠ '/') = '.' :: '/' :: nested.dir.text ++ ['/'] := by
    have hback : ∀ back, List.dropWhile (· ≠ '/') (".git".toList.reverse ++ '/' :: back) =
        '/' :: back := fun _ => rfl
    rw [hdot, List.rdropWhile, List.reverse_append, List.reverse_cons, List.append_assoc,
      List.singleton_append, hback]
    simp
  have hname : ('.' :: '/' :: nested.dir.text ++ ['/']).rdropWhile (· = '/') =
      '.' :: '/' :: nested.dir.text := by
    rw [List.rdropWhile_concat_pos _ _ _ (by decide), List.rdropWhile_eq_self_iff]
    intro hne hslash
    have hlast : nested.dir.text.getLast nested.dir.text_ne_nil = '/' := by
      rw [List.getLast_cons (by simp), List.getLast_cons nested.dir.text_ne_nil] at hslash
      exact of_decide_eq_true hslash
    apply nested.dir.text_ne_slash nested.dir.text.dropLast
    rw [← hlast, List.dropLast_append_getLast]
  rw [dirname, hhead, if_neg (by simp), hname]
  rfl

theorem contains_of_mem_listing {change : GitChange} (hchange : change ∈ nested.listing) :
    nested.contains change = true := by
  obtain ⟨inner, -, rfl⟩ := List.mem_map.mp hchange
  rw [contains, Bool.or_eq_true]
  right
  rw [List.isPrefixOf_iff_prefix]
  exact ⟨inner.path, by simp⟩

end NestedRepository

namespace GitWorkspace

variable {workspace : GitWorkspace}

theorem isNested_of_mem_unfound {change : GitChange}
    (hchange : change ∈ workspace.unfound.flatMap NestedRepository.listing) :
    workspace.isNested change = true := by
  obtain ⟨nested, hnested, hlisted⟩ := List.mem_flatMap.mp hchange
  rw [isNested, List.any_eq_true]
  exact ⟨nested, (List.mem_filter.mp hnested).1, NestedRepository.contains_of_mem_listing hlisted⟩

/-- The repositories that are found and the others. -/
theorem listing_perm (workspace : GitWorkspace) :
    workspace.listing.Perm
      (((workspace.outer.listing.filter fun change => !workspace.isNested change) ++
        workspace.unfound.flatMap NestedRepository.listing) ++
        workspace.found.flatMap NestedRepository.listing) := by
  have hparts := List.filter_append_perm NestedRepository.isFound workspace.nested
  have hlistings := (hparts.symm.trans List.perm_append_comm).flatMap_right
    NestedRepository.listing
  rw [List.flatMap_append] at hlistings
  rw [listing, List.append_assoc]
  exact hlistings.append_left _

end GitWorkspace

namespace GitHost

variable {host : GitHost} {cwd : GitText} {ref : Option GitText} {workspace : GitWorkspace}

theorem ShowsWorkspace.gitDirs_perm (hshows : host.ShowsWorkspace cwd ref workspace) :
    (host.gitDirs cwd).Perm (workspace.found.map fun nested => nested.dir.text) := by
  have hnodup : (workspace.found.map fun nested => nested.dir.text).Nodup :=
    workspace.distinct.sublist ((List.filter_sublist).map _)
  have hdirs := hshows.glob.map fun found => (dirname found).drop 2
  rw [List.map_map] at hdirs
  have hnames : workspace.found.map ((fun found => (dirname found).drop 2) ∘
      NestedRepository.dotGit) = workspace.found.map fun nested => nested.dir.text :=
    List.map_congr_left fun nested _ => nested.dirname_dotGit
  rw [hnames] at hdirs
  rw [gitDirs, List.dedup_eq_self.mpr (hdirs.nodup_iff.mpr hnodup)]
  exact hdirs

theorem ShowsWorkspace.any_gitDirs (hshows : host.ShowsWorkspace cwd ref workspace)
    (change : GitChange) :
    ((host.gitDirs cwd).any fun gitDir => gitDir.isPrefixOf change.path) =
      workspace.isDropped change := by
  rw [Bool.eq_iff_iff, List.any_eq_true, GitWorkspace.isDropped, List.any_eq_true]
  constructor
  · rintro ⟨gitDir, hmem, hprefix⟩
    obtain ⟨nested, hnested, rfl⟩ := List.mem_map.mp (hshows.gitDirs_perm.mem_iff.mp hmem)
    exact ⟨nested, hnested, hprefix⟩
  · rintro ⟨nested, hnested, hprefix⟩
    exact ⟨_, hshows.gitDirs_perm.mem_iff.mpr (List.mem_map_of_mem hnested), hprefix⟩

/-- The listing of a nested repository, once its own lines are read as they are meant. -/
theorem gitDirChanges_text {nested : NestedRepository}
    (hread : host.getChangesInRepo (pathUnder cwd nested.dir.text) ref =
      .ok nested.repository.listing) :
    host.gitDirChanges cwd ref nested.dir.text = nested.listing := by
  rw [gitDirChanges, hread, NestedRepository.listing]
  apply List.map_congr_left
  intro change hchange
  obtain ⟨path, hpath⟩ := GitRepository.exists_path hchange
  rw [hpath, pathUnder_text]

theorem ShowsWorkspace.getGitChanges_eq (hshows : host.ShowsWorkspace cwd ref workspace)
    (houter : host.getChangesInRepo cwd ref = .ok workspace.outer.listing) :
    host.getGitChanges cwd ref = .ok
      (((workspace.outer.listing.filter fun change => !workspace.isDropped change) ++
        (host.gitDirs cwd).flatMap (host.gitDirChanges cwd ref)).insertionSort
          fun change other => change.path ≤ other.path) := by
  have hfilter : (workspace.outer.listing.filter fun change =>
      !(host.gitDirs cwd).any fun gitDir => gitDir.isPrefixOf change.path) =
      workspace.outer.listing.filter fun change => !workspace.isDropped change := by
    apply List.filter_congr
    intro change _
    rw [hshows.any_gitDirs]
  rw [getGitChanges, houter]
  change Except.ok _ = _
  rw [hfilter]

theorem ShowsWorkspace.flatMap_gitDirs_perm (hshows : host.ShowsWorkspace cwd ref workspace)
    (hnested : ∀ nested ∈ workspace.nested,
      host.getChangesInRepo (pathUnder cwd nested.dir.text) ref = .ok nested.repository.listing) :
    ((host.gitDirs cwd).flatMap (host.gitDirChanges cwd ref)).Perm
      (workspace.found.flatMap NestedRepository.listing) := by
  refine (hshows.gitDirs_perm.flatMap_right _).trans ?_
  rw [List.flatMap_map]
  have hsame : workspace.found.flatMap (fun nested =>
      host.gitDirChanges cwd ref nested.dir.text) =
      workspace.found.flatMap NestedRepository.listing := by
    apply List.flatMap_congr
    intro nested hmem
    exact gitDirChanges_text (hnested nested (List.mem_filter.mp hmem).1)
  rw [hsame]

/-- What is dropped is what is listed otherwise, up to the order. -/
theorem ShowsWorkspace.changes_perm_iff (hshows : host.ShowsWorkspace cwd ref workspace)
    (hnested : ∀ nested ∈ workspace.nested,
      host.getChangesInRepo (pathUnder cwd nested.dir.text) ref = .ok nested.repository.listing) :
    ((workspace.outer.listing.filter fun change => !workspace.isDropped change) ++
      (host.gitDirs cwd).flatMap (host.gitDirChanges cwd ref)).Perm workspace.listing ↔
    (∀ change ∈ workspace.outer.listing, workspace.isNested change = false →
      workspace.isDropped change = false) ∧
    (workspace.outer.listing.filter fun change =>
      workspace.isNested change && !workspace.isDropped change).Perm
        (workspace.unfound.flatMap NestedRepository.listing) := by
  have hdirs := hshows.flatMap_gitDirs_perm hnested
  have hsplit := @filter_perm_append_iff _ workspace.outer.listing
    (workspace.unfound.flatMap NestedRepository.listing) workspace.isNested
    (fun change => !workspace.isDropped change)
    fun change hchange => GitWorkspace.isNested_of_mem_unfound hchange
  simp only [Bool.not_eq_true'] at hsplit
  refine Iff.trans ⟨fun hperm => ?_, fun hperm => ?_⟩ hsplit
  · have hall := ((hdirs.append_left _).symm.trans hperm).trans workspace.listing_perm
    exact (List.perm_append_right_iff _).mp hall
  · have hall := (hperm.append_right (workspace.found.flatMap NestedRepository.listing)).trans
      workspace.listing_perm.symm
    exact (hdirs.append_left _).trans hall

/-- The law of changes holds exactly where everything is plain. -/
theorem ShowsWorkspace.changesLaw_iff (hshows : host.ShowsWorkspace cwd ref workspace) :
    host.ChangesLaw cwd ref workspace ↔ workspace.Plain := by
  constructor
  · intro hlaw
    obtain ⟨changes, hchanges, hperm, -⟩ := hlaw.workspace
    rw [hshows.getGitChanges_eq hlaw.outer] at hchanges
    cases hchanges
    have hlisting := (hshows.changes_perm_iff hlaw.nested).mp
      ((List.perm_insertionSort _ _).symm.trans hperm)
    exact
      { outer := hshows.outer.getChangesInRepo_eq_listing_iff.mp hlaw.outer
        nested := fun nested hnested =>
          (hshows.nested nested hnested).getChangesInRepo_eq_listing_iff.mp
            (hlaw.nested nested hnested)
        outside := hlisting.1
        inside := hlisting.2 }
  · intro hplain
    have houter := hshows.outer.getChangesInRepo_eq_listing_iff.mpr hplain.outer
    have hnested : ∀ nested ∈ workspace.nested,
        host.getChangesInRepo (pathUnder cwd nested.dir.text) ref =
          .ok nested.repository.listing :=
      fun nested hnested => (hshows.nested nested hnested).getChangesInRepo_eq_listing_iff.mpr
        (hplain.nested nested hnested)
    refine ⟨houter, hnested, _, hshows.getGitChanges_eq houter, ?_, ?_⟩
    · exact (List.perm_insertionSort _ _).trans
        ((hshows.changes_perm_iff hnested).mpr ⟨hplain.outside, hplain.inside⟩)
    · exact List.pairwise_insertionSort _ _

/-! ## Workspaces with a few files -/

/-- What git prints in the repositories of a workspace, all of which have a last commit. -/
def ofWorkspace (cwd : GitText) (workspace : GitWorkspace) : GitHost where
  validateGitRepository repoDir := .ok repoDir
  getValidRef _ ref := .ok (some (ref.getD "HEAD".toList))
  run args dir :=
    let shown := if dir = cwd then some workspace.outer
      else (workspace.nested.find? fun nested =>
        pathUnder cwd nested.dir.text = dir).map NestedRepository.repository
    match shown with
    | none => .error .command
    | some repository =>
        if args = lsFilesCommand then .ok repository.lsFilesOutput else .ok repository.diffOutput
  glob dir := if dir = cwd then workspace.found.map NestedRepository.dotGit else []

theorem forall_unquoted {name : GitText} (hall : name.all isUnquoted = true) :
    ∀ part ∈ [name], ∀ c ∈ part, isUnquoted c = true :=
  List.forall_mem_singleton.mpr (List.all_eq_true.mp hall)

theorem forall_not {p : Char → Bool} {text : GitText} (hall : text.all (!p ·) = true) :
    ∀ c ∈ text, p c = false := by
  simpa using hall

def mainFile : GitPath :=
  ⟨["main.py".toList], by decide, by decide, forall_unquoted (by decide)⟩

def oldFile : GitPath :=
  ⟨["old.py".toList], by decide, by decide, forall_unquoted (by decide)⟩

def newFile : GitPath :=
  ⟨["new.py".toList], by decide, by decide, forall_unquoted (by decide)⟩

def spacedFile : GitPath :=
  ⟨["my notes.txt".toList], by decide, by decide, forall_unquoted (by decide)⟩

def appDir : GitPath :=
  ⟨["app".toList], by decide, by decide, forall_unquoted (by decide)⟩

def appFile : GitPath :=
  ⟨["app.py".toList], by decide, by decide, forall_unquoted (by decide)⟩

/-- A change, a rename, and a nested repository with a file of its own. -/
def plainWorkspace : GitWorkspace where
  outer := ⟨[.modified mainFile, .renamed 95 oldFile newFile],
    [⟨appDir, true⟩, ⟨spacedFile, false⟩]⟩
  nested := [⟨appDir, ⟨[.added mainFile], []⟩⟩]
  distinct := by decide +kernel

theorem showsWorkspace_plain :
    (ofWorkspace "/w".toList plainWorkspace).ShowsWorkspace "/w".toList none plainWorkspace where
  outer := ⟨_, _, rfl, rfl, by decide +kernel, by decide +kernel, by decide +kernel⟩
  nested := by
    intro nested hnested
    obtain rfl := List.mem_singleton.mp hnested
    exact ⟨_, _, rfl, rfl, by decide +kernel, by decide +kernel, by decide +kernel⟩
  glob := by decide +kernel

theorem plain_plainWorkspace : plainWorkspace.Plain where
  outer := by
    refine ⟨?_, ?_⟩
    · intro change hchange
      rcases List.mem_cons.mp hchange with rfl | hchange
      · exact forall_not (by decide)
      · obtain rfl := List.mem_singleton.mp hchange
        exact ⟨forall_not (by decide), forall_not (by decide)⟩
    · intro untracked huntracked
      rcases List.mem_cons.mp huntracked with rfl | huntracked
      · exact ⟨forall_not (by decide), by decide⟩
      · obtain rfl := List.mem_singleton.mp huntracked
        exact ⟨forall_not (by decide), by decide⟩
  nested := by
    intro nested hnested
    obtain rfl := List.mem_singleton.mp hnested
    refine ⟨?_, fun untracked huntracked => nomatch huntracked⟩
    intro change hchange
    obtain rfl := List.mem_singleton.mp hchange
    exact forall_not (by decide)
  outside := by decide +kernel
  inside := by decide +kernel

theorem changesLaw_plain :
    (ofWorkspace "/w".toList plainWorkspace).ChangesLaw "/w".toList none plainWorkspace :=
  showsWorkspace_plain.changesLaw_iff.mpr plain_plainWorkspace

/-- A file with a space in its name has changed. -/
def spacedWorkspace : GitWorkspace where
  outer := ⟨[.modified spacedFile], []⟩
  nested := []
  distinct := by decide +kernel

/-- A new file is in the directory next to a nested repository, whose name it begins with. -/
def siblingWorkspace : GitWorkspace where
  outer := ⟨[], [⟨appFile, false⟩]⟩
  nested := [⟨appDir, ⟨[], []⟩⟩]
  distinct := by decide +kernel

/-- A file is now a symbolic link. -/
def linkWorkspace : GitWorkspace where
  outer := ⟨[.typeChanged mainFile], []⟩
  nested := []
  distinct := by decide +kernel

/-- The listing of a workspace as the program makes it. -/
def listed (workspace : GitWorkspace) : Except GitError (List GitChange) :=
  (ofWorkspace "/w".toList workspace).getGitChanges "/w".toList none

/-- A space or a change of type is an error, and a file next to a nested repository is lost. -/
theorem not_changesLaw_spaced :
    listed spacedWorkspace = .error (.format "M\tmy notes.txt".toList) ∧
    listed linkWorkspace = .error (.status ['T']) ∧
    listed siblingWorkspace = .ok [] ∧
    ¬ (ofWorkspace "/w".toList spacedWorkspace).ChangesLaw "/w".toList none spacedWorkspace ∧
    ¬ (ofWorkspace "/w".toList linkWorkspace).ChangesLaw "/w".toList none linkWorkspace ∧
    ¬ (ofWorkspace "/w".toList siblingWorkspace).ChangesLaw "/w".toList none siblingWorkspace := by
  have hspaced : listed spacedWorkspace = .error (.format "M\tmy notes.txt".toList) := by
    decide +kernel
  have hlink : listed linkWorkspace = .error (.status ['T']) := by decide +kernel
  have hsibling : listed siblingWorkspace = .ok [] := by decide +kernel
  refine ⟨hspaced, hlink, hsibling, fun hlaw => ?_, fun hlaw => ?_, fun hlaw => ?_⟩
  · obtain ⟨changes, hchanges, -⟩ := hlaw.workspace
    cases hspaced.symm.trans hchanges
  · obtain ⟨changes, hchanges, -⟩ := hlaw.workspace
    cases hlink.symm.trans hchanges
  · obtain ⟨changes, hchanges, hperm, -⟩ := hlaw.workspace
    cases hsibling.symm.trans hchanges
    exact absurd hperm.length_eq (by decide +kernel)

end GitHost

end ShuttleFlow
