import ShuttleFlow.FileEditor.CheckedEditor
import ShuttleFlow.FileEditor.UndoLaw

/-! # Edits that fail

An edit that fails before the file is written leaves everything as it is. Later there is no way
back: the new text may be one that is not read again.
-/

namespace ShuttleFlow

/-- The file and its history are as before. -/
structure FileEditor.Unchanged (editor later : FileEditor) (path : List Char) : Prop where
  file : later.files path = editor.files path
  metadata : later.historyManager.cache.get? (FileHistoryManager.metadataKey path) =
    editor.historyManager.cache.get? (FileHistoryManager.metadataKey path)
  history : ∀ counter,
    later.historyManager.cache.get? (FileHistoryManager.historyKey path counter) =
      editor.historyManager.cache.get? (FileHistoryManager.historyKey path counter)

namespace FileChecks

/-- What fails leaves the file and its history unchanged. -/
def Atomic (editor : FileEditor) (path : List Char) (outcome : Outcome) : Prop :=
  ∀ error, outcome.1 = .error error → editor.Unchanged outcome.2 path

variable (checks : FileChecks)

/-- The content, or some of its lines, can be read. -/
structure Readable (path content : List Char) (lines : Option (Nat × Nat)) : Prop where
  valid : checks.invalid path content = none
  decodes : checks.undecodable path content lines = none

/-- A text that can be encoded has to be readable around the replacement, and one that cannot is no
loss to an empty file. -/
def SafeReplace (path oldStr newStr content : List Char) : Prop :=
  ∀ newText, FileEditor.strReplace path oldStr newStr (translateNewlines content) = .ok newText →
    if checks.unencodable path content newText = none then
      checks.Readable path newText (some (replacedLines oldStr newStr (translateNewlines content)))
    else content = []

def SafeInsert (path : List Char) (insertLine : Int) (newStr content : List Char) : Prop :=
  ∀ newText oldText,
    FileEditor.insertLines insertLine newStr (translateNewlines content) =
      .ok (newText, oldText) →
    checks.unencodable path content newText = none → checks.Readable path newText none

/-- What would come back is there, and can be encoded. -/
def SafeUndo (path content : List Char) (manager : FileHistoryManager) : Prop :=
  ∀ last ∈ (FileHistoryManager.getMetadata path manager.cache).1.getLast?, ∃ text,
    manager.cache.get? (FileHistoryManager.historyKey path last) = some (.content text) ∧
      checks.unencodable path content text = none

def Safe (path content : List Char) (manager : FileHistoryManager) : EditorCommand → Prop
  | .strReplace (some oldStr) (some newStr) =>
      newStr ≠ oldStr → checks.SafeReplace path oldStr newStr content
  | .insert (some insertLine) (some newStr) => checks.SafeInsert path insertLine newStr content
  | .undoEdit => checks.SafeUndo path content manager
  | _ => True

section Reading

variable {checks} {editor : FileEditor} {path content : List Char}
  {lines : Option (Nat × Nat)}

theorem unchanged_self (editor : FileEditor) (path : List Char) : editor.Unchanged editor path where
  file := rfl
  metadata := rfl
  history := fun _ => rfl

theorem atomic_self (editor : FileEditor) (path : List Char)
    (result : Except CheckedError EditorResult) : Atomic editor path (result, editor) :=
  fun _ _ => unchanged_self editor path

theorem Readable.part (hreadable : checks.Readable path content none) (lines : Nat × Nat) :
    checks.Readable path content (some lines) where
  valid := hreadable.valid
  decodes := checks.decodable_part path content lines hreadable.decodes

theorem validateFile_of_readable (hfile : editor.files path = some content)
    (hreadable : checks.Readable path content lines) : checks.validateFile path editor = .ok () := by
  simp only [validateFile, hfile, hreadable.valid]

theorem readFile_whole (hfile : editor.files path = some content)
    (hreadable : checks.Readable path content none) :
    checks.readFile path none editor = .ok (translateNewlines content) := by
  simp only [readFile, decode, validateFile_of_readable hfile hreadable, hfile, Option.getD_some,
    hreadable.decodes, FileEditor.readFile]

theorem readFile_of_readable (hfile : editor.files path = some content)
    (hreadable : checks.Readable path content lines) :
    ∃ text, checks.readFile path lines editor = .ok text := by
  cases lines with
  | none => exact ⟨_, readFile_whole hfile hreadable⟩
  | some lines =>
      simp only [readFile, decode, validateFile_of_readable hfile hreadable, hfile,
        Option.getD_some, hreadable.decodes]
      exact ⟨_, rfl⟩

theorem readFile_of_not_readable (hfile : editor.files path = some content)
    (hnot : ¬checks.Readable path content lines) :
    ∃ error, checks.readFile path lines editor = .error error := by
  cases hinvalid : checks.invalid path content with
  | some reason =>
      simp only [readFile, validateFile, hfile, hinvalid]
      exact ⟨_, rfl⟩
  | none =>
      cases hdecode : checks.undecodable path content lines with
      | some error =>
          simp only [readFile, validateFile, decode, hfile, hinvalid, Option.getD_some, hdecode]
          exact ⟨_, rfl⟩
      | none => exact absurd ⟨hinvalid, hdecode⟩ hnot

theorem files_writeFile (path text : List Char) (editor : FileEditor) :
    (editor.writeFile path text).files path = some text := by
  unfold FileEditor.writeFile
  exact Function.update_self path (some text) editor.files

theorem writeFile_of_readable {text : List Char} (hfile : editor.files path = some content)
    (hreadable : checks.Readable path content lines) :
    checks.writeFile path text editor =
      match checks.unencodable path content text with
      | some error =>
          (.error (.editor (.tool ("Ran into " ++ error ++ " while trying to write to " ++
            String.ofList path))), editor.writeFile path [])
      | none => (.ok (), editor.writeFile path text) := by
  simp only [writeFile, validateFile_of_readable hfile hreadable, hfile, Option.getD_some]
  cases checks.unencodable path content text with
  | none => rfl
  | some error => rfl

end Reading

section Commands

variable {checks} {editor : FileEditor} {path content : List Char}

/-- How a replacement ends, in a file that can be read. -/
inductive ReplaceEnds (checks : FileChecks) (editor : FileEditor)
    (path oldStr newStr content : List Char) : Outcome → Prop
  | notReplaced (error : EditorError)
      (hreplace : FileEditor.strReplace path oldStr newStr (translateNewlines content) =
        .error error) :
      ReplaceEnds checks editor path oldStr newStr content (.error (.editor error), editor)
  | notWritten (newText : List Char) (message : String) (error : CheckedError)
      (hreplace : FileEditor.strReplace path oldStr newStr (translateNewlines content) =
        .ok newText)
      (hencode : checks.unencodable path content newText = some message) :
      ReplaceEnds checks editor path oldStr newStr content
        (.error error, editor.writeFile path [])
  | notRead (newText : List Char) (error : CheckedError) (later : FileEditor)
      (hreplace : FileEditor.strReplace path oldStr newStr (translateNewlines content) =
        .ok newText)
      (hencode : checks.unencodable path content newText = none)
      (hnot : ¬checks.Readable path newText
        (some (replacedLines oldStr newStr (translateNewlines content))))
      (hlater : later.files path = some newText) :
      ReplaceEnds checks editor path oldStr newStr content (.error error, later)
  | replaced (newText : List Char) (result : EditorResult) (later : FileEditor)
      (hreplace : FileEditor.strReplace path oldStr newStr (translateNewlines content) =
        .ok newText)
      (hencode : checks.unencodable path content newText = none)
      (hreadable : checks.Readable path newText
        (some (replacedLines oldStr newStr (translateNewlines content))))
      (hlater : later.files path = some newText) :
      ReplaceEnds checks editor path oldStr newStr content (.ok result, later)

theorem strReplace_ends (oldStr newStr : List Char) (hfile : editor.files path = some content)
    (hreadable : checks.Readable path content none) :
    ReplaceEnds checks editor path oldStr newStr content
      (checks.strReplace path oldStr newStr editor) := by
  simp only [strReplace, readFile_whole hfile hreadable]
  cases hreplace : FileEditor.strReplace path oldStr newStr (translateNewlines content) with
  | error error => exact .notReplaced error hreplace
  | ok newText =>
      simp only [writeFile_of_readable hfile hreadable]
      cases hencode : checks.unencodable path content newText with
      | some message => exact .notWritten newText message _ hreplace hencode
      | none =>
          have hlater : ((editor.writeFile path newText).addHistory path
              (translateNewlines content)).files path = some newText :=
            files_writeFile path newText editor
          by_cases hsnippet : checks.Readable path newText
              (some (replacedLines oldStr newStr (translateNewlines content)))
          · obtain ⟨snippet, hread⟩ := readFile_of_readable hlater hsnippet
            simp only [hread]
            exact .replaced newText _ _ hreplace hencode hsnippet hlater
          · obtain ⟨error, hread⟩ := readFile_of_not_readable hlater hsnippet
            simp only [hread]
            exact .notRead newText error _ hreplace hencode hsnippet hlater

theorem not_unchanged_of_files {later : FileEditor} {text : List Char}
    (hfile : editor.files path = some content) (hlater : later.files path = some text)
    (hne : text ≠ content) : ¬editor.Unchanged later path := by
  intro hunchanged
  rw [hunchanged.file, hfile] at hlater
  exact hne (Option.some.inj hlater).symm

theorem unchanged_writeFile_iff {text : List Char} (hfile : editor.files path = some content) :
    editor.Unchanged (editor.writeFile path text) path ↔ content = text := by
  constructor
  · intro hunchanged
    by_contra hne
    exact not_unchanged_of_files hfile (files_writeFile path text editor) (Ne.symm hne) hunchanged
  · rintro rfl
    exact
      { file := (files_writeFile path content editor).trans hfile.symm
        metadata := rfl
        history := fun _ => rfl }

theorem atomic_ok (result : EditorResult) (later : FileEditor) :
    Atomic editor path (.ok result, later) := fun _ herror => by cases herror

theorem atomic_error_iff {error : CheckedError} {later : FileEditor} :
    Atomic editor path (.error error, later) ↔ editor.Unchanged later path :=
  ⟨fun hatomic => hatomic error rfl, fun hunchanged _ _ => hunchanged⟩

theorem strReplace_atomic_iff (oldStr newStr : List Char)
    (hfile : editor.files path = some content)
    (hreadable : checks.Readable path content none) :
    Atomic editor path (checks.strReplace path oldStr newStr editor) ↔
      checks.SafeReplace path oldStr newStr content := by
  have hends := strReplace_ends oldStr newStr hfile hreadable
  unfold SafeReplace
  generalize checks.strReplace path oldStr newStr editor = outcome at hends
  cases hends with
  | notReplaced error hreplace =>
      rw [hreplace]
      exact iff_of_true (atomic_self _ _ _) (by simp)
  | notWritten newText message error hreplace hencode =>
      simp only [hreplace, Except.ok.injEq, forall_eq', hencode, atomic_error_iff,
        unchanged_writeFile_iff hfile, reduceCtorEq, if_false]
  | notRead newText error later hreplace hencode hnot hlater =>
      simp only [hreplace, Except.ok.injEq, forall_eq', hencode, if_true, atomic_error_iff]
      have hne : newText ≠ content := by
        rintro rfl
        exact hnot (hreadable.part _)
      exact iff_of_false (not_unchanged_of_files hfile hlater hne) hnot
  | replaced newText result later hreplace hencode hsnippet hlater =>
      simp only [hreplace, Except.ok.injEq, forall_eq', hencode, if_true]
      exact iff_of_true (atomic_ok _ _) hsnippet

theorem insert_atomic_iff (insertLine : Int) (newStr : List Char)
    (hfile : editor.files path = some content)
    (hreadable : checks.Readable path content none) :
    Atomic editor path (checks.insert path insertLine newStr editor) ↔
      checks.SafeInsert path insertLine newStr content := by
  have htext : editor.readFile path = translateNewlines content := by
    simp only [FileEditor.readFile, hfile, Option.getD_some]
  simp only [insert, SafeInsert, validateFile_of_readable hfile hreadable, decode, hfile,
    Option.getD_some, hreadable.decodes, htext]
  cases hinsert : FileEditor.insertLines insertLine newStr (translateNewlines content) with
  | error error => exact iff_of_true (atomic_self _ _ _) (by simp)
  | ok texts =>
      obtain ⟨newText, oldText⟩ := texts
      simp only [Except.ok.injEq, Prod.mk.injEq, and_imp, forall_eq', forall_apply_eq_imp_iff]
      cases hencode : checks.unencodable path content newText with
      | some message => exact iff_of_true (atomic_self _ _ _) (by simp)
      | none =>
          have hmoved := files_writeFile path newText editor
          have hlater : ((editor.writeFile path newText).addHistory path oldText).files path =
            some newText := hmoved
          have hne : ¬checks.Readable path newText none → newText ≠ content := by
            rintro hnot rfl
            exact hnot hreadable
          simp only [true_imp_iff]
          by_cases hwhole : checks.Readable path newText none
          · obtain ⟨snippet, hsnippet⟩ := readFile_of_readable hmoved
              (hwhole.part (insertedLines insertLine newStr (translateNewlines content)))
            simp only [hsnippet, readFile_whole hlater hwhole]
            exact iff_of_true (atomic_ok _ _) hwhole
          · refine iff_of_false ?_ hwhole
            obtain ⟨error, hread⟩ := readFile_of_not_readable hlater hwhole
            cases hsnippet : checks.readFile path
              (some (insertedLines insertLine newStr (translateNewlines content)))
              (editor.writeFile path newText) with
            | error error =>
                rw [atomic_error_iff]
                exact not_unchanged_of_files hfile hmoved (hne hwhole)
            | ok snippet =>
                simp only [hread]
                rw [atomic_error_iff]
                exact not_unchanged_of_files hfile hlater (hne hwhole)

theorem getMetadata_of_unchanged {later : FileEditor}
    (hunchanged : editor.Unchanged later path) :
    FileHistoryManager.getMetadata path later.historyManager.cache =
      FileHistoryManager.getMetadata path editor.historyManager.cache := by
  unfold FileHistoryManager.getMetadata
  rw [hunchanged.metadata]

/-- An entry that is taken out is missing later. -/
theorem not_unchanged_of_dropLast {later : FileEditor} {last : Nat}
    (hlast : last ∈ (FileHistoryManager.getMetadata path editor.historyManager.cache).1.getLast?)
    (hlater : (FileHistoryManager.getMetadata path later.historyManager.cache).1 =
      (FileHistoryManager.getMetadata path editor.historyManager.cache).1.dropLast) :
    ¬editor.Unchanged later path := by
  intro hunchanged
  rw [getMetadata_of_unchanged hunchanged] at hlater
  have hlength := congrArg List.length hlater
  have hpos := List.length_pos_of_mem (List.mem_of_getLast? hlast)
  rw [List.length_dropLast] at hlength
  omega

theorem undoEdit_atomic_iff (hfile : editor.files path = some content)
    (hreadable : checks.Readable path content none) :
    Atomic editor path (checks.undoEdit path editor) ↔
      checks.SafeUndo path content editor.historyManager := by
  simp only [undoEdit, SafeUndo, readFile_whole hfile hreadable,
    FileHistoryManager.popLastHistory]
  cases hlast : (FileHistoryManager.getMetadata path editor.historyManager.cache).1.getLast? with
  | none => exact iff_of_true (atomic_self _ _ _) (by simp)
  | some last =>
      have hdrop := fun (cache : FileCache) =>
        congrArg Prod.fst (@FileHistoryManager.getMetadata_set path cache
          (FileHistoryManager.getMetadata path editor.historyManager.cache).1.dropLast
          (FileHistoryManager.getMetadata path editor.historyManager.cache).2)
      simp only [Option.mem_some_iff, forall_eq']
      cases hentry : editor.historyManager.cache.get?
        (FileHistoryManager.historyKey path last) with
      | none =>
          simp only [atomic_error_iff]
          refine iff_of_false (not_unchanged_of_dropLast hlast (hdrop _)) ?_
          rintro ⟨text, hnone, -⟩
          cases hnone
      | some value =>
          cases value with
          | metadata entries counter =>
              simp only [atomic_error_iff]
              refine iff_of_false (not_unchanged_of_dropLast hlast (hdrop _)) ?_
              rintro ⟨text, hnone, -⟩
              cases hnone
          | content text =>
              simp only [Option.some.injEq, CacheValue.content.injEq, exists_eq_left']
              generalize hcache : (editor.historyManager.cache.erase _).set _ _ = cache
              have hpopped : (FileHistoryManager.getMetadata path cache).1 =
                  (FileHistoryManager.getMetadata path
                    editor.historyManager.cache).1.dropLast := by
                rw [← hcache]
                exact hdrop _
              rw [@writeFile_of_readable checks
                { editor with historyManager := { editor.historyManager with cache } } path
                content none text hfile hreadable]
              cases hencode : checks.unencodable path content text with
              | some message =>
                  simp only [atomic_error_iff]
                  exact iff_of_false (not_unchanged_of_dropLast hlast hpopped) (by simp)
              | none => exact iff_of_true (atomic_ok _ _) rfl

/-- Calls whose file cannot be read change nothing. -/
theorem atomic_of_not_readable {host : HostPaths} {command : EditorCommand}
    (hcommand : ∀ fileText, command ≠ .create fileText)
    (hfile : editor.files path = some content) (hnot : ¬checks.Readable path content none) :
    Atomic editor path (checks.call host editor path command) := by
  obtain ⟨error, hread⟩ := readFile_of_not_readable hfile hnot
  unfold call
  split
  next => exact atomic_self _ _ _
  next => exact absurd rfl (hcommand _)
  next =>
    split
    next => exact atomic_self _ _ _
    next =>
      simp only [strReplace, hread]
      exact atomic_self _ _ _
  next => exact atomic_self _ _ _
  next => exact atomic_self _ _ _
  next =>
    unfold insert
    split
    next => exact atomic_self _ _ _
    next => exact atomic_self _ _ _
    next hvalid hdecode =>
      rw [readFile, hvalid, hdecode] at hread
      cases hread
  next => exact atomic_self _ _ _
  next => exact atomic_self _ _ _
  next =>
    simp only [undoEdit, hread]
    exact atomic_self _ _ _

/-- A call that fails leaves the file and its history unchanged, exactly if the file that it would
leave can be read again, and what would come back can be written. -/
theorem atomic_iff_safe (checks : FileChecks) (host : HostPaths) (editor : FileEditor)
    (path : List Char) (command : EditorCommand)
    (hcommand : ∀ fileText, command ≠ .create fileText) :
    Atomic editor path (checks.call host editor path command) ↔
      (FileEditor.validatePath host editor.files path command = .ok () →
        ∀ content, editor.files path = some content → checks.Readable path content none →
          checks.Safe path content editor.historyManager command) := by
  cases hvalid : FileEditor.validatePath host editor.files path command with
  | error error =>
      refine iff_of_true ?_ nofun
      unfold call
      rw [hvalid]
      exact atomic_self _ _ _
  | ok done =>
      have hexists : editor.files path ≠ none := fun hnone => by
        obtain ⟨fileText, heq⟩ := (FileEditor.validatePath_eq_ok hvalid).2.mpr hnone
        exact hcommand fileText heq
      obtain ⟨content, hfile⟩ := Option.ne_none_iff_exists'.mp hexists
      simp only [true_imp_iff, hfile, Option.some.injEq, forall_eq']
      by_cases hreadable : checks.Readable path content none
      · rw [forall_prop_of_true hreadable]
        unfold call
        rw [hvalid]
        match command with
        | .create fileText => exact absurd rfl (hcommand fileText)
        | .strReplace none newStr => exact iff_of_true (atomic_self _ _ _) trivial
        | .strReplace (some oldStr) none => exact iff_of_true (atomic_self _ _ _) trivial
        | .strReplace (some oldStr) (some newStr) =>
            by_cases hsame : newStr = oldStr
            · simp only [if_pos hsame]
              exact iff_of_true (atomic_self _ _ _) fun hne => absurd hsame hne
            · simp only [Safe, ne_eq, hsame, not_false_eq_true, true_imp_iff]
              exact strReplace_atomic_iff oldStr newStr hfile hreadable
        | .insert none newStr => exact iff_of_true (atomic_self _ _ _) trivial
        | .insert (some insertLine) none => exact iff_of_true (atomic_self _ _ _) trivial
        | .insert (some insertLine) (some newStr) =>
            exact insert_atomic_iff insertLine newStr hfile hreadable
        | .undoEdit => exact undoEdit_atomic_iff hfile hreadable
      · exact iff_of_true (atomic_of_not_readable hcommand hfile hreadable)
          fun h => absurd h hreadable

end Commands

/-! ## A limit on the size -/

/-- Files of at most four characters. -/
def fourCharacters : FileChecks where
  invalid := fun _ content => if 4 < content.length then some "File is too large" else none
  undecodable := fun _ _ _ => none
  unencodable := fun _ _ _ => none
  decodable_part := fun _ _ _ _ => rfl

/-- There is nothing to replace. -/
theorem atomic_iff_safe_notFound :
    ∃ error later, fourCharacters.call FileEditor.plainHost (.init FileEditor.oneFile) "/a".toList
        (.strReplace (some "y".toList) (some "long text".toList)) = (.error error, later) ∧
      (FileEditor.init FileEditor.oneFile).Unchanged later "/a".toList := by
  have hatomic := (atomic_iff_safe fourCharacters FileEditor.plainHost
    (.init FileEditor.oneFile) "/a".toList
    (.strReplace (some "y".toList) (some "long text".toList)) nofun).mpr (by
      intro _ content hfile _ _ newText hreplace
      obtain rfl : "x".toList = content := Option.some.inj hfile
      have hnot : (FileEditor.strReplace "/a".toList "y".toList "long text".toList
        (translateNewlines "x".toList)).toOption = none := by decide +kernel
      rw [hreplace] at hnot
      cases hnot)
  exact ⟨_, _, rfl, hatomic _ rfl⟩

/-- The replacement makes the file too large. -/
theorem not_atomic_when_too_large :
    ¬∀ (checks : FileChecks) (host : HostPaths) (editor : FileEditor) (path : List Char)
        (command : EditorCommand), (∀ fileText, command ≠ .create fileText) →
      Atomic editor path (checks.call host editor path command) := by
  intro hall
  have hatomic := hall fourCharacters FileEditor.plainHost (.init FileEditor.oneFile) "/a".toList
    (.strReplace (some "x".toList) (some "long text".toList)) nofun
  have hfile := (hatomic _ rfl).file
  exact absurd hfile (by decide +kernel)

end FileChecks

end ShuttleFlow
