import ShuttleFlow.ApplyPatch.PatchAtomicity
import ShuttleFlow.Library.Lines

/-! # Patches and the directory of the workspace

Whether a path leads out of the workspace is decided on texts: the text of the resolved path has to
start with the text of the root.
-/

namespace ShuttleFlow

/-! ## Texts of paths -/

/-- Each name behind a slash. -/
def slashText (names : List (List Char)) : List Char :=
  names.flatMap ('/' :: ·)

/-- The place of the last name of `first` has a longer name in `second`, which begins with it. -/
def LiesBeside (first second : List (List Char)) : Prop :=
  ∃ above name extra below, first = above ++ [name] ∧ extra ≠ [] ∧
    second = above ++ (name ++ extra) :: below

section SlashText

variable {first second : List (List Char)} {name other : List Char}

@[simp] theorem slashText_nil : slashText [] = [] := rfl

@[simp] theorem slashText_cons (name : List Char) (rest : List (List Char)) :
    slashText (name :: rest) = '/' :: (name ++ slashText rest) := rfl

theorem slashText_append (first second : List (List Char)) :
    slashText (first ++ second) = slashText first ++ slashText second :=
  List.flatMap_append

theorem head_slashText {names : List (List Char)} {head : Char} {rest : List Char}
    (htext : slashText names = head :: rest) : head = '/' := by
  cases names with
  | nil => cases htext
  | cons name names =>
      rw [slashText_cons] at htext
      exact (List.cons.inj htext).1.symm

/-- A name without a slash ends in the name that it is compared with. -/
theorem exists_extra {rest : List Char} (hname : '/' ∉ name)
    (htext : name ++ rest = other ++ slashText second) :
    ∃ extra, other = name ++ extra ∧ rest = extra ++ slashText second := by
  rcases List.append_eq_append_iff.mp htext with ⟨extra, hlonger, hrest⟩ | ⟨extra, hlonger, hrest⟩
  · exact ⟨extra, hlonger, hrest⟩
  · cases extra with
    | nil =>
        rw [List.append_nil] at hlonger
        exact ⟨[], by rw [hlonger, List.append_nil], hrest.symm⟩
    | cons head tail =>
        have hhead := head_slashText hrest
        rw [hlonger, hhead] at hname
        exact absurd (List.mem_append_right _ List.mem_cons_self) hname

theorem LiesBeside.cons (hbeside : LiesBeside first second) (name : List Char) :
    LiesBeside (name :: first) (name :: second) := by
  obtain ⟨above, last, extra, below, rfl, hextra, rfl⟩ := hbeside
  exact ⟨name :: above, last, extra, below, rfl, hextra, rfl⟩

theorem LiesBeside.not_prefix (hbeside : LiesBeside first second) : ¬first <+: second := by
  obtain ⟨above, name, extra, below, rfl, hextra, rfl⟩ := hbeside
  rintro ⟨rest, hrest⟩
  rw [List.append_assoc, List.append_cancel_left_eq, List.singleton_append] at hrest
  have hsame : name ++ [] = name ++ extra := by
    rw [List.append_nil]
    exact (List.cons.inj hrest).1
  exact hextra (List.append_cancel_left hsame).symm

/-- A text of a path begins with another one for one of two reasons. -/
theorem slashText_prefix_iff (hfirst : ∀ name ∈ first, '/' ∉ name)
    (hsecond : ∀ name ∈ second, '/' ∉ name) :
    slashText first <+: slashText second ↔ first <+: second ∨ LiesBeside first second := by
  constructor
  · intro hbegins
    induction first generalizing second with
    | nil => exact .inl List.nil_prefix
    | cons name rest ih =>
        cases second with
        | nil => exact absurd hbegins.length_le (by simp)
        | cons other below =>
            obtain ⟨more, hmore⟩ := hbegins
            simp only [slashText_cons, List.cons_append, List.cons.injEq, true_and,
              List.append_assoc] at hmore
            obtain ⟨extra, rfl, hrest⟩ := exists_extra (hfirst name List.mem_cons_self) hmore
            cases extra with
            | nil =>
                rw [List.append_nil]
                have hlater := ih (fun name hmem => hfirst name (.tail _ hmem))
                  (fun name hmem => hsecond name (.tail _ hmem)) ⟨more, hrest⟩
                rcases hlater with hlater | hbeside
                · exact .inl (List.cons_prefix_cons.mpr ⟨rfl, hlater⟩)
                · exact .inr (hbeside.cons name)
            | cons head tail =>
                cases rest with
                | nil => exact .inr ⟨[], name, head :: tail, below, rfl, nofun, rfl⟩
                | cons next rest =>
                    have hhead : '/' = head := (List.cons.inj hrest).1
                    subst hhead
                    exact absurd (List.mem_append_right _ List.mem_cons_self)
                      (hsecond _ List.mem_cons_self)
  · rintro (⟨rest, rfl⟩ | ⟨above, name, extra, below, rfl, -, rfl⟩)
    · rw [slashText_append]
      exact List.prefix_append _ _
    · refine ⟨extra ++ slashText below, ?_⟩
      simp [slashText_append]

/-- Names that are not empty can be read off the text. -/
theorem slashText_injective (hfirst : ∀ name ∈ first, '/' ∉ name)
    (hsecond : ∀ name ∈ second, '/' ∉ name) (hsame : slashText first = slashText second) :
    first = second := by
  induction first generalizing second with
  | nil =>
      cases second with
      | nil => rfl
      | cons other below => cases hsame
  | cons name rest ih =>
      cases second with
      | nil => cases hsame
      | cons other below =>
          simp only [slashText_cons, List.cons.injEq, true_and] at hsame
          obtain ⟨extra, rfl, hrest⟩ := exists_extra (hfirst name List.mem_cons_self) hsame
          cases extra with
          | nil =>
              have hlater := ih (fun name hmem => hfirst name (.tail _ hmem))
                (fun name hmem => hsecond name (.tail _ hmem)) hrest
              rw [hlater, List.append_nil]
          | cons head tail =>
              have hhead := head_slashText hrest
              subst hhead
              exact absurd (List.mem_append_right _ List.mem_cons_self)
                (hsecond _ List.mem_cons_self)

end SlashText

/-! ## Resolved paths -/

/-- A path from the root of the file system, without links and without dots. -/
structure ResolvedPath where
  parts : List String
  plain : ∀ part ∈ parts, PlainPart part ∧ '/' ∉ part.toList

namespace ResolvedPath

theorem normParts_plain {parts : List String} (hparts : ∀ part ∈ parts, '/' ∉ part.toList) :
    ∀ part ∈ normParts parts, PlainPart part ∧ '/' ∉ part.toList := by
  induction parts using List.reverseRecOn with
  | nil => nofun
  | append_singleton parts last ih =>
      have hbefore := ih fun part hmem => hparts part (List.mem_append_left _ hmem)
      have hlast := hparts last (List.mem_append_right _ List.mem_cons_self)
      rw [normParts, List.foldl_concat]
      change ∀ part ∈ (if last = "" ∨ last = "." then normParts parts
        else if last = ".." then (normParts parts).dropLast else normParts parts ++ [last]), _
      split
      next => exact hbefore
      next hdot =>
        split
        next => exact fun part hmem => hbefore part (List.dropLast_subset _ hmem)
        next hparent =>
          obtain ⟨hempty, hcurrent⟩ := not_or.mp hdot
          intro part hmem
          rcases List.mem_append.mp hmem with hmem | hmem
          · exact hbefore part hmem
          · rw [List.mem_singleton.mp hmem]
            exact ⟨⟨hempty, hcurrent, hparent⟩, hlast⟩

theorem slash_notMem_splitParts {path : List Char} :
    ∀ part ∈ splitParts path, '/' ∉ part.toList := by
  intro part hmem
  obtain ⟨name, hname, rfl⟩ := List.mem_map.mp hmem
  rw [String.toList_ofList]
  exact Lines.notMem_of_mem_splitOn hname

/-- `(self / path).resolve()`. An absolute path discards the one before it. -/
def join (root : ResolvedPath) (path : List Char) : ResolvedPath where
  parts := normParts (if path.head? = some '/' then splitParts path
    else root.parts ++ splitParts path)
  plain := by
    apply normParts_plain
    split
    next => exact slash_notMem_splitParts
    next =>
      intro part hmem
      rcases List.mem_append.mp hmem with hmem | hmem
      · exact (root.plain part hmem).2
      · exact slash_notMem_splitParts part hmem

def names (path : ResolvedPath) : List (List Char) :=
  path.parts.map String.toList

def text (path : ResolvedPath) : List Char :=
  if path.parts = [] then ['/'] else slashText path.names

variable {root path other : ResolvedPath}

theorem slash_notMem_names (path : ResolvedPath) : ∀ name ∈ path.names, '/' ∉ name := by
  intro name hmem
  obtain ⟨part, hpart, rfl⟩ := List.mem_map.mp hmem
  exact (path.plain part hpart).2

theorem parts_prefix_iff : root.names <+: path.names ↔ root.parts <+: path.parts :=
  List.prefix_map_iff_of_injective fun _ _ hsame => String.toList_inj.mp hsame

theorem text_of_parts_ne_nil (hparts : path.parts ≠ []) : path.text = slashText path.names :=
  if_neg hparts

theorem exists_text_eq_cons (path : ResolvedPath) : ∃ rest, path.text = '/' :: rest := by
  unfold text names
  split
  next => exact ⟨[], rfl⟩
  next hparts =>
    obtain ⟨first, rest, heq⟩ := List.exists_cons_of_ne_nil hparts
    rw [heq]
    exact ⟨_, rfl⟩

/-- The text of one name at least is longer than that of the root. -/
theorem one_lt_length_slashText (hparts : path.parts ≠ []) :
    1 < (slashText path.names).length := by
  obtain ⟨first, rest, heq⟩ := List.exists_cons_of_ne_nil hparts
  have hfirst := (path.plain first (by rw [heq]; exact List.mem_cons_self)).1.1
  have hsome : first.toList ≠ [] := by
    intro hnone
    exact hfirst (String.toList_eq_nil_iff.mp hnone)
  have hlength := List.length_pos_of_ne_nil hsome
  rw [names, heq, List.map_cons, slashText_cons, List.length_cons, List.length_append]
  omega

theorem text_prefix_iff :
    root.text <+: path.text ↔ root.parts <+: path.parts ∨ LiesBeside root.names path.names := by
  by_cases hroot : root.parts = []
  · obtain ⟨rest, hrest⟩ := path.exists_text_eq_cons
    have hslash : root.text = ['/'] := if_pos hroot
    rw [hslash, hrest, hroot]
    exact iff_of_true (List.cons_prefix_cons.mpr ⟨rfl, List.nil_prefix⟩) (.inl List.nil_prefix)
  · rw [text_of_parts_ne_nil hroot]
    by_cases hpath : path.parts = []
    · have hslash : path.text = ['/'] := if_pos hpath
      have hlong := one_lt_length_slashText hroot
      rw [hslash]
      apply iff_of_false
      · intro hbegins
        exact absurd hbegins.length_le (by simpa using hlong)
      · rintro (hbegins | ⟨above, name, extra, below, -, -, hnames⟩)
        · rw [hpath, List.prefix_nil] at hbegins
          exact hroot hbegins
        · rw [names, hpath] at hnames
          exact absurd hnames.symm (by simp)
    · rw [text_of_parts_ne_nil hpath, ← parts_prefix_iff]
      exact slashText_prefix_iff root.slash_notMem_names path.slash_notMem_names

theorem text_injective (hsame : path.text = other.text) : path.parts = other.parts := by
  by_cases hpath : path.parts = []
  · by_cases hother : other.parts = []
    · rw [hpath, hother]
    · have hlong := one_lt_length_slashText hother
      rw [← text_of_parts_ne_nil hother, ← hsame, text, if_pos hpath] at hlong
      exact absurd hlong (Nat.lt_irrefl 1)
  · by_cases hother : other.parts = []
    · have hlong := one_lt_length_slashText hpath
      rw [← text_of_parts_ne_nil hpath, hsame, text, if_pos hother] at hlong
      exact absurd hlong (Nat.lt_irrefl 1)
    · rw [text_of_parts_ne_nil hpath, text_of_parts_ne_nil hother] at hsame
      have hnames := slashText_injective path.slash_notMem_names other.slash_notMem_names hsame
      exact List.map_injective_iff.mpr (fun _ _ hstring => String.toList_inj.mp hstring) hnames

/-- The text is that of the root or of a path below it. -/
def Holds (root : ResolvedPath) (text : List Char) : Prop :=
  ∃ path : ResolvedPath, text = path.text ∧ root.parts <+: path.parts

theorem holds_text : root.Holds path.text ↔ root.parts <+: path.parts := by
  constructor
  · rintro ⟨other, hsame, hbelow⟩
    rw [text_injective hsame]
    exact hbelow
  · intro hbelow
    exact ⟨path, rfl, hbelow⟩

end ResolvedPath

/-- The operating system, with a directory as the root of the workspace. -/
def PatchHost.under (host : PatchHost) (root : ResolvedPath) : PatchHost :=
  { host with workspaceRoot := root.text, resolve := fun path => (root.join path).text }

theorem PatchHost.resolvePath_under {host : PatchHost} {root : ResolvedPath}
    {path resolved : List Char} :
    (host.under root).resolvePath path = .ok resolved ↔
      root.text <+: (root.join path).text ∧ resolved = (root.join path).text := by
  unfold resolvePath under
  dsimp only
  split
  next hbegins =>
    rw [Except.ok.injEq, eq_comm]
    exact (and_iff_right hbegins).symm
  next houtside =>
    apply iff_of_false nofun
    exact fun hbegins => houtside hbegins.1

namespace PatchOperation

variable {host : PatchHost} {files : FileSystem} {path : List Char}

def target : PatchOperation → List Char
  | write path _ => path
  | remove path => path

/-- An operation only changes the file that its path resolves to. -/
theorem contentAt_run_of_ne {operation : PatchOperation}
    (hother : ∀ resolved, host.resolvePath operation.target = .ok resolved → path ≠ resolved) :
    (operation.run host files).2.contentAt path = files.contentAt path := by
  cases operation with
  | write target text =>
      change (host.writeFile target text files).2.contentAt path = _
      unfold PatchHost.writeFile
      split
      next => rfl
      next resolved hresolved =>
        have hne := hother resolved hresolved
        split
        next => rfl
        next made hmade =>
          have hkept := FileSystem.contentAt_makeParents hmade path
          split
          next => exact hkept
          next => exact hkept
          next =>
            dsimp only
            rw [FileSystem.contentAt_update, if_neg hne, hkept]
          next =>
            dsimp only
            rw [FileSystem.contentAt_update, if_neg hne, hkept]
  | remove target =>
      change (host.removeFile target files).2.contentAt path = _
      unfold PatchHost.removeFile
      split
      next => rfl
      next resolved hresolved =>
        have hne := hother resolved hresolved
        split
        next =>
          split
          next =>
            dsimp only
            rw [FileSystem.contentAt_update, if_neg hne]
          next => rfl
        next => rfl

theorem contentAt_runAll_of_ne {operations : List PatchOperation}
    (hother : ∀ operation ∈ operations, ∀ resolved,
      host.resolvePath operation.target = .ok resolved → path ≠ resolved) :
    (runAll host files operations).2.contentAt path = files.contentAt path := by
  induction operations generalizing files with
  | nil => rfl
  | cons operation rest ih =>
      have hfirst := @contentAt_run_of_ne host files path operation
        (hother operation List.mem_cons_self)
      have hrest := fun later hmem => hother later (.tail operation hmem)
      unfold runAll
      split
      next failed after hrun =>
        rw [hrun] at hfirst
        exact hfirst
      next after hrun =>
        rw [hrun] at hfirst
        exact (ih hrest).trans hfirst

end PatchOperation

namespace ApplyPatch

/-- A path stays in the workspace exactly when it does not resolve beside the root. When all paths
of a patch do so, no other file is changed. -/
theorem confined_iff (host : PatchHost) (root : ResolvedPath) :
    (∀ path : List Char,
      (∀ resolved, (host.under root).resolvePath path = .ok resolved → root.Holds resolved) ↔
        ¬LiesBeside root.names (root.join path).names) ∧
    ∀ (text : List Char) (before : FileSystem),
      (∀ fuzz commit, prepare (host.under root) text before = .ok (fuzz, commit) →
        ∀ operation ∈ commit.operations,
          ¬LiesBeside root.names (root.join operation.target).names) →
      ∀ path, ¬root.Holds path →
        (processPatch (host.under root) text before).2.contentAt path = before.contentAt path := by
  have hconfined : ∀ path : List Char,
      (∀ resolved, (host.under root).resolvePath path = .ok resolved → root.Holds resolved) ↔
        ¬LiesBeside root.names (root.join path).names := by
    intro path
    constructor
    · intro hholds hbeside
      have hinside := hholds _ (PatchHost.resolvePath_under.mpr
        ⟨ResolvedPath.text_prefix_iff.mpr (.inr hbeside), rfl⟩)
      exact hbeside.not_prefix (ResolvedPath.parts_prefix_iff.mpr
        (ResolvedPath.holds_text.mp hinside))
    · intro hbeside resolved hresolved
      obtain ⟨hbegins, rfl⟩ := PatchHost.resolvePath_under.mp hresolved
      exact ResolvedPath.holds_text.mpr
        ((ResolvedPath.text_prefix_iff.mp hbegins).resolve_right hbeside)
  refine ⟨hconfined, fun text before hpaths path houtside => ?_⟩
  unfold processPatch
  cases hprepare : prepare (host.under root) text before with
  | error error => rfl
  | ok prepared =>
      obtain ⟨fuzz, commit⟩ := prepared
      change (PatchOperation.runAll (host.under root) before commit.operations).2.contentAt path = _
      apply PatchOperation.contentAt_runAll_of_ne
      intro operation hmem resolved hresolved hsame
      have hbeside := hpaths fuzz commit hprepare operation hmem
      apply houtside
      rw [hsame]
      exact (hconfined operation.target).mpr hbeside resolved hresolved

/-! ## A directory beside the workspace -/

def workRoot : ResolvedPath where
  parts := ["work"]
  plain := by
    intro part hmem
    rw [List.mem_singleton.mp hmem]
    exact ⟨⟨by decide, by decide, by decide⟩, by decide⟩

/-- The name of the directory begins with the name of the workspace. -/
theorem not_confined_beside : ¬ ∀ (host : PatchHost) (root : ResolvedPath)
    (path resolved : List Char), (host.under root).resolvePath path = .ok resolved →
    root.Holds resolved := by
  intro hall
  have hresolved : (workspace.under workRoot).resolvePath "../work2/x".toList =
      .ok "/work2/x".toList := by decide +kernel
  have hholds := hall workspace workRoot _ _ hresolved
  have htext : "/work2/x".toList = (workRoot.join "../work2/x".toList).text := by decide +kernel
  rw [htext, ResolvedPath.holds_text] at hholds
  exact absurd hholds (by decide +kernel)

end ApplyPatch

end ShuttleFlow
