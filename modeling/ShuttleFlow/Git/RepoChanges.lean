import Mathlib.Algebra.GroupWithZero.Nat
import Mathlib.Algebra.Order.Group.Nat
import ShuttleFlow.Library.Lines
import ShuttleFlow.Library.Sums

/-! # The changes of one repository

The lines that git prints are taken apart at any spaces.
-/

namespace ShuttleFlow

abbrev GitText := List Char

open PythonText (isSpace trim words inkLines)

/-! ## Paths -/

/-- The slashes that an absolute path begins with. -/
def pathRoot : GitText → GitText
  | '/' :: '/' :: '/' :: _ => ['/']
  | '/' :: '/' :: _ => ['/', '/']
  | '/' :: _ => ['/']
  | _ => []

/-- The names in a path. -/
def pathParts (text : GitText) : List GitText :=
  (text.splitOn '/').filter fun part => part ≠ [] ∧ part ≠ ['.']

/-- `str(Path(text))` -/
def pathText (text : GitText) : GitText :=
  if pathRoot text ++ List.intercalate ['/'] (pathParts text) = [] then ['.']
  else pathRoot text ++ List.intercalate ['/'] (pathParts text)

/-- Git prints it as it is, without quotation marks around the path. -/
def isUnquoted (c : Char) : Bool :=
  32 ≤ c.toNat && c.toNat ≠ 127 && c ≠ '"' && c ≠ '\\'

/-- A path in a repository, of the kind that git prints unquoted. -/
structure GitPath where
  parts : List GitText
  ne_nil : parts ≠ []
  named : ∀ part ∈ parts, part ≠ [] ∧ part ≠ ['.'] ∧ part ≠ ['.', '.'] ∧ '/' ∉ part
  unquoted : ∀ part ∈ parts, ∀ c ∈ part, isUnquoted c = true

def GitPath.text (path : GitPath) : GitText :=
  List.intercalate ['/'] path.parts

/-! ## What the program does -/

inductive GitChangeStatus
  | moved
  | added
  | deleted
  | updated
  deriving DecidableEq

/-- The path is the text of a `Path`. -/
structure GitChange where
  status : GitChangeStatus
  path : GitText
  deriving DecidableEq

inductive GitError
  | repository
  | command
  | format (line : GitText)
  | status (status : GitText)
  deriving DecidableEq

/-- What a program sees of the repositories. -/
structure GitHost where
  validateGitRepository : GitText → Except GitError GitText
  getValidRef : GitText → Option GitText → Except GitError (Option GitText)
  /-- The output of a command in a directory. -/
  run : List GitText → GitText → Except GitError GitText
  /-- `glob.glob("./*/.git", root_dir=cwd)` -/
  glob : GitText → List GitText

def mapGitStatusToEnum (status : GitText) : Except GitError GitChangeStatus :=
  if status = ['M'] then .ok .updated
  else if status = ['A'] then .ok .added
  else if status = ['D'] then .ok .deleted
  else if status = ['U'] then .ok .updated
  else .error (.status status)

def readStatus (status path : GitText) : Except GitError (List GitChange) :=
  let status := if status = ['?', '?'] then ['A'] else if status = ['*'] then ['M'] else status
  if status = ['M'] ∨ status = ['A'] ∨ status = ['D'] ∨ status = ['U'] then
    (mapGitStatusToEnum status).map fun found => [⟨found, pathText path⟩]
  else .error (.status status)

/-- A rename is a file that is deleted and one that is added. -/
def readLine (line : GitText) : Except GitError (List GitChange) :=
  match words line with
  | [status, path] => readStatus (trim status) (trim path)
  | [status, oldPath, newPath] =>
      if ['R'] <+: trim status then
        .ok [⟨.deleted, pathText (trim oldPath)⟩, ⟨.added, pathText (trim newPath)⟩]
      else if ['C'] <+: trim status then .ok [⟨.added, pathText (trim newPath)⟩]
      else .error (.format line)
  | _ => .error (.format line)

def readLines : List GitText → Except GitError (List GitChange)
  | [] => .ok []
  | line :: rest =>
      if trim line = [] then readLines rest
      else do
        let changes ← readLine line
        let others ← readLines rest
        .ok (changes ++ others)

def readUntracked (lines : List GitText) : List GitChange :=
  (lines.filter fun line => trim line ≠ []).map fun line => ⟨.added, pathText (trim line)⟩

namespace GitHost

variable (host : GitHost)

def runGitCommand (args : List GitText) (cwd : GitText) : Except GitError GitText :=
  (host.run args cwd).map trim

def diffCommand (ref : GitText) : List GitText :=
  ["git".toList, "--no-pager".toList, "diff".toList, "--name-status".toList, ref]

def lsFilesCommand : List GitText :=
  ["git".toList, "--no-pager".toList, "ls-files".toList, "--others".toList,
    "--exclude-standard".toList]

def getChangesInRepo (repoDir : GitText) (ref : Option GitText) :
    Except GitError (List GitChange) := do
  let validatedRepo ← host.validateGitRepository repoDir
  let ref ← host.getValidRef validatedRepo ref
  if ref.getD [] = [] then .ok []
  else do
    let changedFiles ← host.runGitCommand (diffCommand (ref.getD [])) validatedRepo
    let changes ← readLines (splitlines changedFiles)
    match host.runGitCommand lsFilesCommand validatedRepo with
    | .error _ => .ok changes
    | .ok untrackedFiles => .ok (changes ++ readUntracked (splitlines untrackedFiles))

end GitHost

/-! ## What git prints -/

/-- A change between a ref and the files. -/
inductive DiffChange
  | modified (path : GitPath)
  | added (path : GitPath)
  | deleted (path : GitPath)
  | typeChanged (path : GitPath)
  | renamed (score : Nat) (oldPath newPath : GitPath)
  | copied (score : Nat) (oldPath newPath : GitPath)

/-- A similarity score has three digits. -/
def scoreText (score : Nat) : GitText :=
  List.replicate (3 - (Nat.toDigits 10 score).length) '0' ++ Nat.toDigits 10 score

namespace DiffChange

/-- A line of `git diff --name-status`. -/
def line : DiffChange → GitText
  | modified path => 'M' :: '\t' :: path.text
  | added path => 'A' :: '\t' :: path.text
  | deleted path => 'D' :: '\t' :: path.text
  | typeChanged path => 'T' :: '\t' :: path.text
  | renamed score oldPath newPath =>
      'R' :: scoreText score ++ '\t' :: (oldPath.text ++ '\t' :: newPath.text)
  | copied score oldPath newPath =>
      'C' :: scoreText score ++ '\t' :: (oldPath.text ++ '\t' :: newPath.text)

/-- How a change is to be listed. -/
def listed : DiffChange → List GitChange
  | modified path => [⟨.updated, path.text⟩]
  | added path => [⟨.added, path.text⟩]
  | deleted path => [⟨.deleted, path.text⟩]
  | typeChanged path => [⟨.updated, path.text⟩]
  | renamed _ oldPath newPath => [⟨.deleted, oldPath.text⟩, ⟨.added, newPath.text⟩]
  | copied _ _ newPath => [⟨.added, newPath.text⟩]

end DiffChange

/-- A file that git does not know, or a repository in a directory of its own. -/
structure UntrackedPath where
  path : GitPath
  isDirectory : Bool

/-- A line of `git ls-files --others`. -/
def UntrackedPath.line (untracked : UntrackedPath) : GitText :=
  untracked.path.text ++ if untracked.isDirectory then ['/'] else []

structure GitRepository where
  changes : List DiffChange
  untracked : List UntrackedPath

namespace GitRepository

variable (repository : GitRepository)

def diffOutput : GitText :=
  repository.changes.flatMap fun change => change.line ++ ['\n']

def lsFilesOutput : GitText :=
  repository.untracked.flatMap fun untracked => untracked.line ++ ['\n']

/-- The changes as they are to be listed. -/
def listing : List GitChange :=
  repository.changes.flatMap DiffChange.listed ++
    repository.untracked.map fun untracked => ⟨.added, untracked.path.text⟩

end GitRepository

/-- The repository in a directory is compared with a ref. -/
structure GitHost.Shows (host : GitHost) (repoDir : GitText) (ref : Option GitText)
    (repository : GitRepository) : Prop where
  shown : ∃ validatedRepo found, host.validateGitRepository repoDir = .ok validatedRepo ∧
    host.getValidRef validatedRepo ref = .ok (some found) ∧ found ≠ [] ∧
    host.run (diffCommand found) validatedRepo = .ok repository.diffOutput ∧
    host.run lsFilesCommand validatedRepo = .ok repository.lsFilesOutput

/-! ## Lines that are read as they were meant -/

/-- A path without spaces. -/
def GitPath.Ink (path : GitPath) : Prop :=
  ∀ c ∈ path.text, isSpace c = false

/-- One line is read, and as this change. The old path of a copy is only skipped. -/
def DiffChange.Plain : DiffChange → Prop
  | modified path => path.Ink
  | added path => path.Ink
  | deleted path => path.Ink
  | typeChanged _ => False
  | renamed _ oldPath newPath => oldPath.Ink ∧ newPath.Ink
  | copied _ oldPath newPath =>
      (∀ c ∈ oldPath.text, isLineBreak c = false) ∧ (words oldPath.text).length = 1 ∧ newPath.Ink

/-- No line break, and no spaces at either end. -/
def UntrackedPath.Plain (untracked : UntrackedPath) : Prop :=
  (∀ c ∈ untracked.line, isLineBreak c = false) ∧ trim untracked.line = untracked.line

structure GitRepository.Plain (repository : GitRepository) : Prop where
  changes : ∀ change ∈ repository.changes, change.Plain
  untracked : ∀ untracked ∈ repository.untracked, untracked.Plain

/-! ## Paths as texts -/

namespace GitPath

variable (path : GitPath)

theorem text_ne_nil : path.text ≠ [] := by
  obtain ⟨first, rest, hparts⟩ := List.exists_cons_of_ne_nil path.ne_nil
  have hfirst := path.named first (by rw [hparts]; exact List.mem_cons_self)
  rw [text, hparts]
  cases rest with
  | nil =>
      rw [List.intercalate_singleton]
      exact hfirst.1
  | cons second rest =>
      rw [List.intercalate_cons_cons]
      simp

theorem pathRoot_text (rest : GitText) : pathRoot (path.text ++ rest) = [] := by
  obtain ⟨first, others, hparts⟩ := List.exists_cons_of_ne_nil path.ne_nil
  obtain ⟨hne, -, -, hslash⟩ := path.named first (by rw [hparts]; exact List.mem_cons_self)
  obtain ⟨c, letters, rfl⟩ := List.exists_cons_of_ne_nil hne
  have hc : c ≠ '/' := fun hc => hslash (hc ▸ List.mem_cons_self)
  have htext : ∃ later, path.text = c :: later := by
    rw [text, hparts]
    cases others with
    | nil => exact ⟨_, List.intercalate_singleton⟩
    | cons second others => exact ⟨_, by rw [List.intercalate_cons_cons]; rfl⟩
  obtain ⟨later, htext⟩ := htext
  rw [htext, List.cons_append, pathRoot.eq_4]
  all_goals simp [hc]

theorem pathParts_text : pathParts path.text = path.parts := by
  have hsplit : (List.intercalate ['/'] path.parts).splitOn '/' = path.parts :=
    List.splitOn_intercalate '/' (fun part hpart => (path.named part hpart).2.2.2) path.ne_nil
  rw [pathParts, text, hsplit]
  apply List.filter_eq_self.mpr
  intro part hpart
  simpa using ⟨(path.named part hpart).1, (path.named part hpart).2.1⟩

theorem pathParts_text_slash : pathParts (path.text ++ ['/']) = path.parts := by
  have hsplit : (path.text ++ ['/']).splitOn '/' = path.text.splitOn '/' ++ [[]] := by
    rw [List.splitOn_append_cons_self, List.splitOn_nil]
  rw [pathParts, hsplit, List.filter_append, ← pathParts, pathParts_text]
  simp

theorem pathText_text : pathText path.text = path.text := by
  have hroot := path.pathRoot_text []
  rw [List.append_nil] at hroot
  rw [pathText, hroot, path.pathParts_text, List.nil_append, ← text, if_neg path.text_ne_nil]

theorem pathText_text_slash : pathText (path.text ++ ['/']) = path.text := by
  rw [pathText, path.pathRoot_text, path.pathParts_text_slash, List.nil_append, ← text,
    if_neg path.text_ne_nil]

end GitPath

theorem UntrackedPath.pathText_line (untracked : UntrackedPath) :
    pathText untracked.line = untracked.path.text := by
  rw [line]
  split
  · exact untracked.path.pathText_text_slash
  · rw [List.append_nil, untracked.path.pathText_text]

theorem UntrackedPath.line_ne_nil (untracked : UntrackedPath) : untracked.line ≠ [] := by
  rw [line]
  exact List.append_ne_nil_of_left_ne_nil untracked.path.text_ne_nil _

/-! ## Spaces -/

/-- How many spaces there are in a text. -/
def spaces (text : GitText) : Nat :=
  text.countP isSpace

theorem spaces_append (text other : GitText) :
    spaces (text ++ other) = spaces text + spaces other :=
  List.countP_append

theorem spaces_eq_zero_iff {text : GitText} :
    spaces text = 0 ↔ ∀ c ∈ text, isSpace c = false := by
  rw [spaces, List.countP_eq_zero]
  simp

theorem spaces_intercalate (parts : List GitText) :
    spaces (List.intercalate ['/'] parts) = (parts.map spaces).sum := by
  induction parts with
  | nil => rfl
  | cons first rest ih =>
      cases rest with
      | nil => simp [List.intercalate_singleton]
      | cons second rest =>
          have hslash : spaces ['/'] = 0 := by decide
          rw [List.intercalate_cons_cons, spaces_append, spaces_append, ih, hslash]
          simp

theorem spaces_pathRoot (text : GitText) : spaces (pathRoot text) = 0 := by
  unfold pathRoot
  split <;> decide

/-- A path has no spaces but those of the text that it is made from. -/
theorem spaces_pathText_le (text : GitText) : spaces (pathText text) ≤ spaces text := by
  have hparts : spaces (List.intercalate ['/'] (pathParts text)) ≤ spaces text := by
    have hall : spaces text = ((text.splitOn '/').map spaces).sum := by
      rw [← spaces_intercalate, List.intercalate_splitOn]
    rw [spaces_intercalate, hall]
    exact ((List.filter_sublist).map spaces).sum_le_sum fun _ _ => Nat.zero_le _
  rw [pathText]
  split
  · exact Nat.zero_le _
  · rw [spaces_append, spaces_pathRoot, Nat.zero_add]
    exact hparts

/-- Only spaces are stripped from a text. -/
theorem trim_eq_self_of_spaces {text : GitText} (hspaces : spaces text ≤ spaces (trim text)) :
    trim text = text := by
  obtain ⟨front, hfront, hleft⟩ := PythonText.exists_blank_append_lstrip text
  obtain ⟨back, hback, hright⟩ := PythonText.exists_rstrip_append_blank (PythonText.lstrip text)
  have hlengths : spaces text = front.length + spaces (trim text) + back.length := by
    have htext : text = front ++ (trim text ++ back) := hleft.trans (congrArg _ hright)
    conv_lhs => rw [htext]
    rw [spaces_append, spaces_append, spaces, List.countP_eq_length.mpr hfront, spaces, spaces,
      List.countP_eq_length.mpr hback, Nat.add_assoc]
  have hnofront : front = [] := List.length_eq_zero_iff.mp (by omega)
  have hnoback : back = [] := List.length_eq_zero_iff.mp (by omega)
  rw [hnoback, List.append_nil] at hright
  rw [hnofront, List.nil_append] at hleft
  exact hright.symm.trans hleft.symm

theorem spaces_trim_le (text : GitText) : spaces (trim text) ≤ spaces text := by
  obtain ⟨front, hfront, hleft⟩ := PythonText.exists_blank_append_lstrip text
  obtain ⟨back, hback, hright⟩ := PythonText.exists_rstrip_append_blank (PythonText.lstrip text)
  have htext : text = front ++ (trim text ++ back) := hleft.trans (congrArg _ hright)
  conv_rhs => rw [htext]
  rw [spaces_append, spaces_append]
  omega

/-! ## Lines -/

/-- Stripping a line loses spaces unless it is a line that is stripped already. -/
theorem spaces_inkLines_le (text : GitText) : ((inkLines text).map spaces).sum ≤ spaces text := by
  rw [PythonText.inkLines_eq_inkParts]
  induction text using @PythonText.mark_induction isLineBreak with
  | plain text hplain =>
      rw [PythonText.inkParts_of_notMark hplain]
      split
      · exact Nat.zero_le _
      · simpa using spaces_trim_le text
  | marked body c rest hbody hc ih =>
      rw [PythonText.inkParts_append_cons _ _ hc, List.map_append, List.sum_append,
        PythonText.inkParts_of_notMark hbody, spaces_append]
      have hbodySpaces := spaces_trim_le body
      have hrest : spaces rest ≤ spaces (c :: rest) :=
        (List.sublist_cons_self c rest).countP_le
      split
      · simp only [List.map_nil, List.sum_nil]
        omega
      · simp only [List.map_cons, List.map_nil, List.sum_cons, List.sum_nil]
        omega

/-- All spaces are kept only where there is one line, without spaces around it. -/
theorem plain_of_spaces_inkLines {text : GitText}
    (hspaces : spaces text ≤ ((inkLines text).map spaces).sum) :
    (∀ c ∈ text, isLineBreak c = false) ∧ trim text = text := by
  rcases PythonText.mark_cases isLineBreak text with hplain | ⟨body, c, rest, rfl, hbody, hc⟩
  · refine ⟨hplain, trim_eq_self_of_spaces (hspaces.trans ?_)⟩
    rw [PythonText.inkLines_eq_inkParts, PythonText.inkParts_of_notMark hplain]
    split
    · exact Nat.zero_le _
    · simp
  · exfalso
    rw [PythonText.inkLines_append_cons _ _ hc, List.map_append, List.sum_append,
      spaces_append] at hspaces
    have hbodySpaces := spaces_inkLines_le body
    have hrestSpaces := spaces_inkLines_le rest
    have hspace : spaces (c :: rest) = spaces rest + 1 := by
      rw [spaces, List.countP_cons_of_pos (PythonText.isSpace_of_isLineBreak hc)]
      rfl
    omega

theorem inkLines_of_plain {text : GitText} (hne : text ≠ [])
    (hbreaks : ∀ c ∈ text, isLineBreak c = false) (htrim : trim text = text) :
    inkLines text = [text] := by
  rw [PythonText.inkLines_eq_inkParts, PythonText.inkParts_of_notMark hbreaks, htrim, if_neg hne]

/-! ## Untracked paths -/

theorem readUntracked_splitlines (text : GitText) :
    readUntracked (splitlines text) =
      (inkLines text).map fun line => ⟨.added, pathText line⟩ := by
  rw [readUntracked, inkLines, List.filter_map, List.map_map]
  rfl

theorem GitRepository.readUntracked_lsFilesOutput (repository : GitRepository) :
    readUntracked (splitlines (trim repository.lsFilesOutput)) =
      repository.untracked.flatMap fun untracked =>
        (inkLines untracked.line).map fun line => ⟨.added, pathText line⟩ := by
  rw [readUntracked_splitlines, PythonText.inkLines_trim, lsFilesOutput,
    PythonText.inkLines_flatMap, List.map_flatMap]

theorem UntrackedPath.Plain.inkLines_line {untracked : UntrackedPath} (hplain : untracked.Plain) :
    (inkLines untracked.line).map (fun line => (⟨.added, pathText line⟩ : GitChange)) =
      [⟨.added, untracked.path.text⟩] := by
  rw [inkLines_of_plain untracked.line_ne_nil hplain.1 hplain.2, List.map_singleton,
    untracked.pathText_line]

/-! ## Changed files -/

/-- How many spaces there are in the paths of changes. -/
def pathSpaces (changes : List GitChange) : Nat :=
  (changes.map fun change => spaces change.path).sum

theorem pathSpaces_append (changes others : List GitChange) :
    pathSpaces (changes ++ others) = pathSpaces changes + pathSpaces others := by
  rw [pathSpaces, List.map_append, List.sum_append]
  rfl

theorem spaces_pathText_word {line word : GitText} (hword : word ∈ words line) :
    spaces (pathText (trim word)) = 0 := by
  have hle := (spaces_pathText_le (trim word)).trans (spaces_trim_le word)
  have hzero := spaces_eq_zero_iff.mpr (PythonText.ink_of_mem_words hword)
  omega

theorem readStatus_ok {status path : GitText} {changes : List GitChange}
    (hread : readStatus status path = .ok changes) :
    ∃ found, changes = [⟨found, pathText path⟩] := by
  unfold readStatus at hread
  simp only at hread
  generalize (if status = ['?', '?'] then ['A'] else if status = ['*'] then ['M'] else status) =
    letter at hread
  split at hread
  · cases hmap : mapGitStatusToEnum letter with
    | error error =>
        rw [hmap] at hread
        cases hread
    | ok found =>
        rw [hmap] at hread
        exact ⟨found, (Except.ok.inj hread).symm⟩
  · cases hread

/-- A line that is read makes a change, and no path with spaces. -/
theorem readLine_ok {line : GitText} {changes : List GitChange}
    (hread : readLine line = .ok changes) : 1 ≤ changes.length ∧ pathSpaces changes = 0 := by
  unfold readLine at hread
  split at hread
  next status path hwords =>
    have hpath := spaces_pathText_word (hwords ▸ List.mem_cons_of_mem status (.head _))
    obtain ⟨found, rfl⟩ := readStatus_ok hread
    simp [pathSpaces, hpath]
  next status oldPath newPath hwords =>
    have hold := spaces_pathText_word (hwords ▸ List.mem_cons_of_mem status (.head _))
    have hnew := spaces_pathText_word (hwords ▸ List.mem_cons_of_mem status (.tail _ (.head _)))
    split at hread
    · cases hread
      simp [pathSpaces, hold, hnew]
    · split at hread
      · cases hread
        simp [pathSpaces, hnew]
      · cases hread
  next => cases hread

theorem readLines_cons_ok {line : GitText} {lines : List GitText} {changes : List GitChange}
    (hline : trim line ≠ []) :
    readLines (line :: lines) = .ok changes ↔ ∃ found others, readLine line = .ok found ∧
      readLines lines = .ok others ∧ changes = found ++ others := by
  rw [readLines, if_neg hline]
  cases hfound : readLine line with
  | error error =>
      constructor
      · intro hread
        cases hread
      · rintro ⟨found, others, hline, _⟩
        cases hline
  | ok found =>
      cases hothers : readLines lines with
      | error error =>
          constructor
          · intro hread
            cases hread
          · rintro ⟨found, others, _, hlines, _⟩
            cases hlines
      | ok others =>
          constructor
          · intro hread
            cases hread
            exact ⟨found, others, rfl, rfl, rfl⟩
          · rintro ⟨_, _, hline, hlines, rfl⟩
            cases hline
            cases hlines
            rfl

theorem readLines_append_ok {lines more : List GitText} {changes : List GitChange} :
    readLines (lines ++ more) = .ok changes ↔ ∃ found others, readLines lines = .ok found ∧
      readLines more = .ok others ∧ changes = found ++ others := by
  induction lines generalizing changes with
  | nil =>
      constructor
      · intro hread
        exact ⟨[], changes, rfl, hread, rfl⟩
      · rintro ⟨_, others, hnil, hmore, rfl⟩
        cases hnil
        exact hmore
  | cons line lines ih =>
      rw [List.cons_append]
      by_cases hline : trim line = []
      · rw [readLines, if_pos hline, ih, readLines, if_pos hline]
      · rw [readLines_cons_ok hline]
        constructor
        · rintro ⟨first, rest, hfirst, hrest, rfl⟩
          obtain ⟨found, others, hfound, hothers, rfl⟩ := ih.mp hrest
          refine ⟨first ++ found, others, ?_, hothers, (List.append_assoc _ _ _).symm⟩
          exact (readLines_cons_ok hline).mpr ⟨first, found, hfirst, hfound, rfl⟩
        · rintro ⟨_, others, hread, hothers, rfl⟩
          obtain ⟨first, found, hfirst, hfound, rfl⟩ := (readLines_cons_ok hline).mp hread
          refine ⟨first, found ++ others, hfirst, ?_, List.append_assoc _ _ _⟩
          exact ih.mpr ⟨found, others, hfound, hothers, rfl⟩

/-- The text of an error apart, spaces around a line do not matter. -/
theorem readLine_trim_ok {line : GitText} {changes : List GitChange} :
    readLine (trim line) = .ok changes ↔ readLine line = .ok changes := by
  unfold readLine
  rw [PythonText.words_trim]
  split
  · rfl
  · split
    · rfl
    · split
      · rfl
      · simp
  · simp

theorem readLines_trim_ok {lines : List GitText} {changes : List GitChange} :
    readLines ((lines.map trim).filter (· ≠ [])) = .ok changes ↔ readLines lines = .ok changes := by
  induction lines generalizing changes with
  | nil => rfl
  | cons line lines ih =>
      rw [List.map_cons]
      by_cases hline : trim line = []
      · rw [readLines, if_pos hline, ← ih, List.filter_cons_of_neg (by simpa using hline)]
      · have htrim : trim (trim line) ≠ [] := by rwa [PythonText.trim_trim]
        rw [List.filter_cons_of_pos (by simpa using hline), readLines_cons_ok htrim,
          readLines_cons_ok hline]
        simp only [readLine_trim_ok, ih]

/-- Every line that is not blank makes a change. -/
theorem readLines_inkLines_ok {text : GitText} {changes : List GitChange}
    (hread : readLines (inkLines text) = .ok changes) :
    (inkLines text).length ≤ changes.length ∧ pathSpaces changes = 0 := by
  have hink : ∀ line ∈ inkLines text, trim line ≠ [] := by
    intro line hline
    obtain ⟨hmem, hne⟩ := List.mem_filter.mp hline
    obtain ⟨whole, -, rfl⟩ := List.mem_map.mp hmem
    rw [PythonText.trim_trim]
    simpa using hne
  generalize inkLines text = lines at hread hink ⊢
  induction lines generalizing changes with
  | nil =>
      cases hread
      exact ⟨le_rfl, rfl⟩
  | cons line lines ih =>
      obtain ⟨found, others, hfound, hothers, rfl⟩ :=
        (readLines_cons_ok (hink line (.head _))).mp hread
      obtain ⟨hone, hnone⟩ := readLine_ok hfound
      obtain ⟨hlength, hspaces⟩ := ih hothers fun other hother => hink other (.tail _ hother)
      rw [List.length_append, List.length_cons, pathSpaces_append]
      omega

/-! ## Lines for changes -/

theorem scoreText_ink (score : Nat) : ∀ c ∈ scoreText score, isSpace c = false := by
  intro c hc
  rcases List.mem_append.mp hc with hc | hc
  · rw [List.eq_of_mem_replicate hc]
    decide
  · exact PythonText.isSpace_of_isDigit (Nat.isDigit_of_mem_toDigits (by decide) (by decide) hc)

theorem words_status {status : GitText} (hne : status ≠ [])
    (hink : ∀ c ∈ status, isSpace c = false) (rest : GitText) :
    words (status ++ '\t' :: rest) = status :: words rest := by
  rw [PythonText.words_append_cons _ _ (by decide), PythonText.words_of_ink hne hink]
  rfl

theorem GitPath.Ink.words_text {path : GitPath} (hink : path.Ink) :
    words path.text = [path.text] :=
  PythonText.words_of_ink path.text_ne_nil hink

theorem GitPath.Ink.pathText_trim {path : GitPath} (hink : path.Ink) :
    pathText (trim path.text) = path.text := by
  rw [PythonText.trim_of_ink hink, path.pathText_text]

theorem isLineBreak_eq_false {c : Char} (hink : isSpace c = false) : isLineBreak c = false := by
  by_contra hbreak
  have hspace := PythonText.isSpace_of_isLineBreak (Bool.eq_true_of_not_eq_false hbreak)
  rw [hink] at hspace
  cases hspace

theorem GitPath.Ink.notLineBreak {path : GitPath} (hink : path.Ink) :
    ∀ c ∈ path.text, isLineBreak c = false :=
  fun c hc => isLineBreak_eq_false (hink c hc)

/-- A status and what follows it, in one line. -/
theorem readLines_inkLines_status {letter : Char} {digits rest : GitText}
    (hstatus : ∀ c ∈ letter :: digits, isSpace c = false)
    (hrest : ∀ c ∈ rest, isLineBreak c = false) {changes : List GitChange} :
    readLines (inkLines (letter :: digits ++ '\t' :: rest)) = .ok changes ↔
      readLine (letter :: digits ++ '\t' :: rest) = .ok changes := by
  have hbreaks : ∀ c ∈ letter :: digits ++ '\t' :: rest, isLineBreak c = false := by
    refine List.forall_mem_append.mpr ⟨fun c hc => ?_, List.forall_mem_cons.mpr ⟨by decide, hrest⟩⟩
    exact isLineBreak_eq_false (hstatus c hc)
  have hblank : trim (letter :: digits ++ '\t' :: rest) ≠ [] := by
    intro hnil
    have hletter := PythonText.trim_eq_nil_iff.mp hnil letter (.head _)
    rw [hstatus letter (.head _)] at hletter
    cases hletter
  rw [PythonText.inkLines_eq_inkParts, PythonText.inkParts_of_notMark hbreaks, if_neg hblank,
    readLines_cons_ok (by rwa [PythonText.trim_trim])]
  simp only [readLine_trim_ok]
  constructor
  · rintro ⟨found, others, hfound, hothers, rfl⟩
    cases hothers
    rwa [List.append_nil]
  · intro hread
    exact ⟨changes, [], hread, rfl, (List.append_nil changes).symm⟩

theorem readLines_inkLines_path {letter : Char} (hletter : isSpace letter = false) {path : GitPath}
    (hink : path.Ink) {changes : List GitChange} :
    readLines (inkLines (letter :: '\t' :: path.text)) = .ok changes ↔
      readStatus [letter] path.text = .ok changes := by
  have hstatus : ∀ c ∈ [letter], isSpace c = false := List.forall_mem_singleton.mpr hletter
  have hwords : words ([letter] ++ '\t' :: path.text) = [[letter], path.text] := by
    rw [words_status (List.cons_ne_nil _ _) hstatus, hink.words_text]
  refine (readLines_inkLines_status hstatus hink.notLineBreak).trans ?_
  rw [readLine, hwords]
  simp only [PythonText.trim_of_ink hstatus, PythonText.trim_of_ink hink]

theorem words_score {letter : Char} (hletter : isSpace letter = false) (score : Nat)
    (oldPath : GitPath) {newPath : GitPath} (hnew : newPath.Ink) :
    words (letter :: scoreText score ++ '\t' :: (oldPath.text ++ '\t' :: newPath.text)) =
      (letter :: scoreText score) :: (words oldPath.text ++ [newPath.text]) := by
  rw [words_status (List.cons_ne_nil _ _) (List.forall_mem_cons.mpr ⟨hletter, scoreText_ink score⟩),
    PythonText.words_append_cons _ _ (by decide), hnew.words_text]

theorem readLines_inkLines_paths {letter : Char} (hletter : isSpace letter = false) (score : Nat)
    {oldPath newPath : GitPath} (hold : ∀ c ∈ oldPath.text, isLineBreak c = false)
    (hnew : newPath.Ink) {changes : List GitChange} :
    readLines (inkLines
        (letter :: scoreText score ++ '\t' :: (oldPath.text ++ '\t' :: newPath.text))) =
        .ok changes ↔
      readLine (letter :: scoreText score ++ '\t' :: (oldPath.text ++ '\t' :: newPath.text)) =
        .ok changes := by
  apply readLines_inkLines_status
  · exact List.forall_mem_cons.mpr ⟨hletter, scoreText_ink score⟩
  · rw [List.forall_mem_append, List.forall_mem_cons]
    exact ⟨hold, by decide, hnew.notLineBreak⟩

namespace DiffChange

theorem read_renamed (score : Nat) {oldPath newPath : GitPath} (hold : oldPath.Ink)
    (hnew : newPath.Ink) :
    readLines (inkLines (renamed score oldPath newPath).line) =
      .ok (renamed score oldPath newPath).listed := by
  apply (readLines_inkLines_paths (by decide) score hold.notLineBreak hnew).mpr
  have hstatus : ∀ c ∈ 'R' :: scoreText score, isSpace c = false :=
    List.forall_mem_cons.mpr ⟨by decide, scoreText_ink score⟩
  rw [readLine, words_score (by decide) score oldPath hnew, hold.words_text]
  simp only [List.singleton_append, PythonText.trim_of_ink hstatus, hold.pathText_trim,
    hnew.pathText_trim]
  rw [if_pos (by simp)]
  rfl

theorem read_copied_iff (score : Nat) {oldPath newPath : GitPath}
    (hold : ∀ c ∈ oldPath.text, isLineBreak c = false) (hnew : newPath.Ink)
    {changes : List GitChange} :
    readLines (inkLines (copied score oldPath newPath).line) = .ok changes ↔
      (words oldPath.text).length = 1 ∧ changes = (copied score oldPath newPath).listed := by
  refine (readLines_inkLines_paths (by decide) score hold hnew).trans ?_
  have hstatus : ∀ c ∈ 'C' :: scoreText score, isSpace c = false :=
    List.forall_mem_cons.mpr ⟨by decide, scoreText_ink score⟩
  rw [readLine, words_score (by decide) score oldPath hnew]
  match words oldPath.text with
  | [] =>
      simp only [List.nil_append, PythonText.trim_of_ink hstatus]
      constructor
      · intro hread
        simp [readStatus] at hread
      · rintro ⟨hlength, _⟩
        cases hlength
  | [word] =>
      simp only [List.singleton_append, PythonText.trim_of_ink hstatus, hnew.pathText_trim]
      rw [if_neg (by simp), if_pos (by simp)]
      constructor
      · intro hread
        exact ⟨rfl, (Except.ok.inj hread).symm⟩
      · rintro ⟨_, rfl⟩
        rfl
  | first :: second :: rest =>
      constructor
      · intro hread
        simp at hread
      · rintro ⟨hlength, _⟩
        simp at hlength

/-- All paths that are to be listed are free of spaces. -/
theorem ink_of_pathSpaces {change : DiffChange} (hspaces : pathSpaces change.listed = 0) :
    ∀ listed ∈ change.listed, ∀ c ∈ listed.path, isSpace c = false := by
  intro listed hlisted
  apply spaces_eq_zero_iff.mp
  exact List.sum_eq_zero_iff_forall_eq_nat.mp hspaces _ (List.mem_map_of_mem hlisted)

/-- A line with a status and a path without spaces. -/
theorem read_path {letter : Char} (hletter : isSpace letter = false) {status : GitChangeStatus}
    (hstatus : ∀ path, readStatus [letter] path = .ok [⟨status, pathText path⟩]) {path : GitPath}
    (hink : path.Ink) :
    readLines (inkLines (letter :: '\t' :: path.text)) = .ok [⟨status, path.text⟩] := by
  apply (readLines_inkLines_path hletter hink).mpr
  rw [hstatus, path.pathText_text]

theorem read_of_plain {change : DiffChange} (hplain : change.Plain) :
    readLines (inkLines change.line) = .ok change.listed := by
  cases change with
  | modified path => exact read_path (by decide) (fun _ => rfl) hplain
  | added path => exact read_path (by decide) (fun _ => rfl) hplain
  | deleted path => exact read_path (by decide) (fun _ => rfl) hplain
  | typeChanged path => exact hplain.elim
  | renamed score oldPath newPath => exact read_renamed score hplain.1 hplain.2
  | copied score oldPath newPath =>
      exact (read_copied_iff score hplain.1 hplain.2.2).mpr ⟨hplain.2.1, rfl⟩

/-- A line break in the old path of a copy makes two lines. -/
theorem two_le_of_lineBreak {score : Nat} {oldPath newPath : GitPath} {c : Char}
    (hmem : c ∈ oldPath.text) (hc : isLineBreak c = true) {changes : List GitChange}
    (hnew : newPath.Ink) (hread : readLines (inkLines (copied score oldPath newPath).line) =
      .ok changes) : 2 ≤ changes.length := by
  obtain ⟨front, back, hold⟩ := List.append_of_mem hmem
  have hline : (copied score oldPath newPath).line =
      ('C' :: scoreText score ++ '\t' :: front) ++ c :: (back ++ '\t' :: newPath.text) := by
    rw [line, hold]
    simp
  have hfront : inkLines ('C' :: scoreText score ++ '\t' :: front) ≠ [] := by
    intro hnil
    have hspace := PythonText.inkLines_eq_nil_iff.mp hnil 'C' (.head _)
    exact absurd hspace (by decide)
  have hback : inkLines (back ++ '\t' :: newPath.text) ≠ [] := by
    intro hnil
    obtain ⟨first, rest, hpath⟩ := List.exists_cons_of_ne_nil newPath.text_ne_nil
    have hfirst : first ∈ newPath.text := hpath ▸ List.mem_cons_self
    have hspace := PythonText.inkLines_eq_nil_iff.mp hnil first
      (List.mem_append_right _ (List.mem_cons_of_mem _ hfirst))
    rw [hnew first hfirst] at hspace
    cases hspace
  have hlength := (readLines_inkLines_ok hread).1
  rw [hline, PythonText.inkLines_append_cons _ _ hc, List.length_append] at hlength
  have hone := List.length_pos_iff.mpr hfront
  have hother := List.length_pos_iff.mpr hback
  omega

/-- Where no path to be listed has spaces, at least as much is read as is to be listed, and more
unless the line is a plain one. -/
theorem plain_of_read {change : DiffChange} (hspaces : pathSpaces change.listed = 0)
    {changes : List GitChange} (hread : readLines (inkLines change.line) = .ok changes) :
    change.listed.length ≤ changes.length ∧
      (changes.length ≤ change.listed.length → change.Plain) := by
  have hink := ink_of_pathSpaces hspaces
  have hsame : change.Plain → change.listed.length ≤ changes.length := by
    intro hplain
    rw [read_of_plain hplain] at hread
    cases hread
    exact le_rfl
  cases change with
  | modified path =>
      have hplain : (modified path).Plain := hink _ (.head _)
      exact ⟨hsame hplain, fun _ => hplain⟩
  | added path =>
      have hplain : (added path).Plain := hink _ (.head _)
      exact ⟨hsame hplain, fun _ => hplain⟩
  | deleted path =>
      have hplain : (deleted path).Plain := hink _ (.head _)
      exact ⟨hsame hplain, fun _ => hplain⟩
  | typeChanged path =>
      exfalso
      have hpath : path.Ink := hink _ (.head _)
      have hstatus := (readLines_inkLines_path (by decide) hpath).mp hread
      cases hstatus
  | renamed score oldPath newPath =>
      have hplain : (renamed score oldPath newPath).Plain :=
        ⟨hink _ (.head _), hink _ (.tail _ (.head _))⟩
      exact ⟨hsame hplain, fun _ => hplain⟩
  | copied score oldPath newPath =>
      have hnew : newPath.Ink := hink _ (.head _)
      by_cases hbreaks : ∀ c ∈ oldPath.text, isLineBreak c = false
      · have hcopied := (read_copied_iff score hbreaks hnew).mp hread
        have hplain : (copied score oldPath newPath).Plain := ⟨hbreaks, hcopied.1, hnew⟩
        exact ⟨hsame hplain, fun _ => hplain⟩
      · simp only [not_forall] at hbreaks
        obtain ⟨c, hmem, hc⟩ := hbreaks
        have htwo := two_le_of_lineBreak hmem (Bool.eq_true_of_not_eq_false hc) hnew hread
        exact ⟨Nat.le_of_succ_le htwo, fun hle => absurd (htwo.trans hle) (by decide : ¬ 2 ≤ 1)⟩

end DiffChange

/-! ## All lines -/

theorem readLines_changes_ok {changes : List DiffChange}
    (hplain : ∀ change ∈ changes, change.Plain) :
    readLines (changes.flatMap fun change => inkLines change.line) =
      .ok (changes.flatMap DiffChange.listed) := by
  induction changes with
  | nil => rfl
  | cons change rest ih =>
      rw [List.forall_mem_cons] at hplain
      rw [List.flatMap_cons, List.flatMap_cons]
      exact readLines_append_ok.mpr ⟨_, _, DiffChange.read_of_plain hplain.1, ih hplain.2, rfl⟩

theorem plain_of_readLines {changes : List DiffChange}
    (hspaces : pathSpaces (changes.flatMap DiffChange.listed) = 0) {found : List GitChange}
    (hread : readLines (changes.flatMap fun change => inkLines change.line) = .ok found) :
    (changes.flatMap DiffChange.listed).length ≤ found.length ∧
      (found.length ≤ (changes.flatMap DiffChange.listed).length →
        ∀ change ∈ changes, change.Plain) := by
  induction changes generalizing found with
  | nil => exact ⟨Nat.zero_le _, fun _ change hchange => nomatch hchange⟩
  | cons change rest ih =>
      rw [List.flatMap_cons, pathSpaces_append, Nat.add_eq_zero_iff] at hspaces
      rw [List.flatMap_cons] at hread
      obtain ⟨first, others, hfirst, hothers, rfl⟩ := readLines_append_ok.mp hread
      obtain ⟨hone, hplain⟩ := DiffChange.plain_of_read hspaces.1 hfirst
      obtain ⟨hrest, hplains⟩ := ih hspaces.2 hothers
      rw [List.flatMap_cons, List.length_append, List.length_append]
      refine ⟨Nat.add_le_add hone hrest, fun hle => ?_⟩
      exact List.forall_mem_cons.mpr ⟨hplain (by omega), hplains (by omega)⟩

/-! ## A whole repository -/

namespace GitRepository

variable (repository : GitRepository)

/-- The untracked paths as they are read. -/
def readPaths : List GitChange :=
  repository.untracked.flatMap fun untracked =>
    (inkLines untracked.line).map fun line => ⟨.added, pathText line⟩

theorem inkLines_diffOutput :
    inkLines (trim repository.diffOutput) =
      repository.changes.flatMap fun change => inkLines change.line := by
  rw [PythonText.inkLines_trim, diffOutput, PythonText.inkLines_flatMap]

theorem spaces_untracked_le (untracked : UntrackedPath) :
    pathSpaces ((inkLines untracked.line).map fun line => ⟨.added, pathText line⟩) ≤
      ((inkLines untracked.line).map spaces).sum := by
  rw [pathSpaces, List.map_map]
  exact List.sum_le_sum fun line _ => spaces_pathText_le line

theorem spaces_line (untracked : UntrackedPath) :
    spaces untracked.line = spaces untracked.path.text := by
  rw [UntrackedPath.line, spaces_append]
  split
  · rfl
  · rfl

theorem pathSpaces_flatMap {α : Type} (items : List α) (changes : α → List GitChange) :
    pathSpaces (items.flatMap changes) = (items.map fun item => pathSpaces (changes item)).sum := by
  induction items with
  | nil => rfl
  | cons item rest ih => rw [List.flatMap_cons, pathSpaces_append, ih, List.map_cons, List.sum_cons]

theorem pathSpaces_untracked (untracked : List UntrackedPath) :
    pathSpaces (untracked.map fun path => ⟨.added, path.path.text⟩) =
      (untracked.map fun path => spaces path.line).sum := by
  rw [pathSpaces, List.map_map]
  congr 1
  apply List.map_congr_left
  intro path _
  exact (spaces_line path).symm

variable {repository}

theorem readPaths_of_plain (hplain : ∀ untracked ∈ repository.untracked, untracked.Plain) :
    repository.readPaths =
      repository.untracked.map fun untracked => ⟨.added, untracked.path.text⟩ := by
  rw [readPaths, List.map_eq_flatMap]
  apply List.flatMap_congr
  intro untracked huntracked
  exact (hplain untracked huntracked).inkLines_line

/-- As long as no spaces are lost, there is nothing that is not plain. -/
theorem plain_of_read {tracked : List GitChange}
    (hread : readLines (repository.changes.flatMap fun change => inkLines change.line) =
      .ok tracked) (hlisting : tracked ++ repository.readPaths = repository.listing) :
    repository.Plain := by
  have hspaces : pathSpaces tracked + pathSpaces repository.readPaths =
      pathSpaces (repository.changes.flatMap DiffChange.listed) +
        (repository.untracked.map fun untracked => spaces untracked.line).sum := by
    rw [← pathSpaces_append, hlisting, listing, pathSpaces_append, pathSpaces_untracked]
  have htracked : pathSpaces tracked = 0 := by
    rw [← inkLines_diffOutput] at hread
    exact (readLines_inkLines_ok hread).2
  have hle : ∀ untracked ∈ repository.untracked,
      pathSpaces ((inkLines untracked.line).map fun line => ⟨.added, pathText line⟩) ≤
        spaces untracked.line :=
    fun untracked _ => (spaces_untracked_le untracked).trans (spaces_inkLines_le _)
  rw [htracked, readPaths, pathSpaces_flatMap] at hspaces
  have hsums := List.sum_le_sum hle
  have hzero : pathSpaces (repository.changes.flatMap DiffChange.listed) = 0 := by omega
  have huntracked : ∀ untracked ∈ repository.untracked, untracked.Plain := by
    intro untracked hmem
    have hsame := (sum_eq_sum_iff_of_le hle).mp (by omega) untracked hmem
    exact plain_of_spaces_inkLines (hsame.le.trans (spaces_untracked_le untracked))
  refine ⟨(plain_of_readLines hzero hread).2 ?_, huntracked⟩
  have hlengths := congrArg List.length hlisting
  rw [listing, readPaths_of_plain huntracked, List.length_append, List.length_append] at hlengths
  omega

end GitRepository

namespace GitHost

variable {host : GitHost} {repoDir : GitText} {ref : Option GitText} {repository : GitRepository}

theorem Shows.getChangesInRepo_ok (hshows : host.Shows repoDir ref repository)
    {changes : List GitChange} :
    host.getChangesInRepo repoDir ref = .ok changes ↔ ∃ tracked,
      readLines (repository.changes.flatMap fun change => inkLines change.line) = .ok tracked ∧
        changes = tracked ++ repository.readPaths := by
  obtain ⟨validatedRepo, found, hvalidate, href, hfound, hdiff, hlsFiles⟩ := hshows.shown
  have hdiffText : host.runGitCommand (diffCommand found) validatedRepo =
      .ok (trim repository.diffOutput) := by
    rw [runGitCommand, hdiff]
    rfl
  have hlsFilesText : host.runGitCommand lsFilesCommand validatedRepo =
      .ok (trim repository.lsFilesOutput) := by
    rw [runGitCommand, hlsFiles]
    rfl
  have hlines : ∀ tracked, readLines (splitlines (trim repository.diffOutput)) = .ok tracked ↔
      readLines (repository.changes.flatMap fun change => inkLines change.line) = .ok tracked := by
    intro tracked
    rw [← readLines_trim_ok, ← repository.inkLines_diffOutput]
    rfl
  simp only [← hlines]
  have hgiven : host.getChangesInRepo repoDir ref =
      (readLines (splitlines (trim repository.diffOutput))).map (· ++ repository.readPaths) := by
    unfold getChangesInRepo
    simp only [bind, Except.bind, hvalidate, href, Option.getD_some, if_neg hfound, hdiffText,
      hlsFilesText]
    rw [repository.readUntracked_lsFilesOutput]
    rfl
  rw [hgiven]
  cases hread : readLines (splitlines (trim repository.diffOutput)) with
  | error error =>
      constructor
      · intro hchanges
        cases hchanges
      · rintro ⟨tracked, htracked, _⟩
        cases htracked
  | ok tracked =>
      constructor
      · intro hchanges
        exact ⟨tracked, rfl, (Except.ok.inj hchanges).symm⟩
      · rintro ⟨_, htracked, rfl⟩
        cases htracked
        rfl

/-- The changes of a repository are listed if and only if all lines are plain ones. -/
theorem Shows.getChangesInRepo_eq_listing_iff (hshows : host.Shows repoDir ref repository) :
    host.getChangesInRepo repoDir ref = .ok repository.listing ↔ repository.Plain := by
  rw [hshows.getChangesInRepo_ok]
  constructor
  · rintro ⟨tracked, hread, hlisting⟩
    exact GitRepository.plain_of_read hread hlisting.symm
  · intro hplain
    refine ⟨_, readLines_changes_ok hplain.changes, ?_⟩
    rw [GitRepository.readPaths_of_plain hplain.untracked]
    rfl

end GitHost

end ShuttleFlow
