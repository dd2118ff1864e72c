import ShuttleFlow.FileEditor.Editor

/-! # The file editor with its checks

A file is checked each time it is read or written, as it is then: also when an edit is done, and
the lines around it are shown. What is wrong with a file, and with writing a text in its encoding,
is left open.
-/

namespace ShuttleFlow

inductive CheckedError
  | editor (error : EditorError)
  | fileValidation (path : List Char) (reason : String)
  /-- An error of the encoding, as Python raises it. -/
  | unicode (message : String)
  deriving DecidableEq, Repr

def CheckedError.message : CheckedError → String
  | editor error => error.message
  | fileValidation path reason =>
      "File validation failed for " ++ String.ofList path ++ ": " ++ reason
  | unicode message => message

/-- What is checked of the content of a file. -/
structure FileChecks where
  /-- Why the file is too large, or binary. -/
  invalid : (path content : List Char) → Option String
  /-- What goes wrong when all lines, or the lines from one to another, are read. -/
  undecodable : (path content : List Char) → Option (Nat × Nat) → Option String
  /-- What goes wrong when the text is written in the encoding of the content. -/
  unencodable : (path content text : List Char) → Option String
  /-- What can be read whole can be read in part. -/
  decodable_part : ∀ path content lines, undecodable path content none = none →
    undecodable path content (some lines) = none

namespace FileChecks

/-- How many lines are shown before and after an edit. -/
def snippetContextWindow : Nat := 4

abbrev Outcome : Type := Except CheckedError EditorResult × FileEditor

variable (checks : FileChecks)

def validateFile (path : List Char) (editor : FileEditor) : Except CheckedError Unit :=
  match editor.files path with
  | none => .ok ()
  | some content =>
      match checks.invalid path content with
      | some reason => .error (.fileValidation path reason)
      | none => .ok ()

def decode (path : List Char) (lines : Option (Nat × Nat)) (editor : FileEditor) :
    Option String :=
  checks.undecodable path ((editor.files path).getD []) lines

/-- The text of a file, or its lines from one to another. -/
def readFile (path : List Char) (lines : Option (Nat × Nat)) (editor : FileEditor) :
    Except CheckedError (List Char) :=
  match checks.validateFile path editor, checks.decode path lines editor with
  | .error error, _ => .error error
  | .ok (), some error =>
      .error (.editor (.tool ("Ran into " ++ error ++ " while trying to read " ++
        String.ofList path)))
  | .ok (), none =>
      match lines with
      | none => .ok (editor.readFile path)
      | some (startLine, endLine) =>
          .ok (((FileEditor.fileLines (editor.readFile path)).take endLine).drop
            (startLine - 1)).flatten

/-- A file is emptied before its new text is written. -/
def writeFile (path text : List Char) (editor : FileEditor) :
    Except CheckedError Unit × FileEditor :=
  match checks.validateFile path editor,
    checks.unencodable path ((editor.files path).getD []) text with
  | .error error, _ => (.error error, editor)
  | .ok (), some error =>
      (.error (.editor (.tool ("Ran into " ++ error ++ " while trying to write to " ++
        String.ofList path))), editor.writeFile path [])
  | .ok (), none => (.ok (), editor.writeFile path text)

/-- What is searched for, and what it is replaced by. -/
def wanted (oldStr newStr fileContent : List Char) : List Char × List Char :=
  if FileEditor.occurrences oldStr fileContent ≠ [] then (oldStr, newStr)
  else (FileEditor.strip oldStr, FileEditor.strip newStr)

/-- The lines that are shown of a replacement. -/
def replacedLines (oldStr newStr fileContent : List Char) : Nat × Nat :=
  let found := wanted oldStr newStr fileContent
  let line := FileEditor.lineNumber fileContent
    ((FileEditor.occurrences found.1 fileContent).headD 0)
  (line - snippetContextWindow + 1, line + snippetContextWindow + found.2.count '\n')

/-- The content is saved after the file is written, and before it is read again. -/
def strReplace (path oldStr newStr : List Char) (editor : FileEditor) : Outcome :=
  match checks.readFile path none editor with
  | .error error => (.error error, editor)
  | .ok fileContent =>
      match FileEditor.strReplace path oldStr newStr fileContent with
      | .error error => (.error (.editor error), editor)
      | .ok newText =>
          match checks.writeFile path newText editor with
          | (.error error, editor) => (.error error, editor)
          | (.ok (), editor) =>
              let editor := editor.addHistory path fileContent
              match checks.readFile path (some (replacedLines oldStr newStr fileContent))
                editor with
              | .error error => (.error error, editor)
              | .ok _ =>
                  (.ok { prevExist := true, oldContent := some fileContent,
                         newContent := newText }, editor)

/-- The lines that are shown of an insertion. -/
def insertedLines (insertLine : Int) (newStr fileContent : List Char) : Nat × Nat :=
  let numLines := (FileEditor.fileLines fileContent).length
  let newLines := (newStr.splitOn '\n').length
  (insertLine.toNat - snippetContextWindow + 1,
    min (numLines + newLines) (insertLine.toNat + snippetContextWindow + newLines))

/-- The new text is written beside the file and moved there. The content is saved after the lines
around the new ones are read. -/
def insert (path : List Char) (insertLine : Int) (newStr : List Char) (editor : FileEditor) :
    Outcome :=
  match checks.validateFile path editor, checks.decode path none editor with
  | .error error, _ => (.error error, editor)
  | .ok (), some error => (.error (.unicode error), editor)
  | .ok (), none =>
      let fileContent := editor.readFile path
      match FileEditor.insertLines insertLine newStr fileContent with
      | .error error => (.error (.editor error), editor)
      | .ok (newText, oldText) =>
          match checks.unencodable path ((editor.files path).getD []) newText with
          | some error => (.error (.unicode error), editor)
          | none =>
              let editor := editor.writeFile path newText
              match checks.readFile path (some (insertedLines insertLine newStr fileContent))
                editor with
              | .error error => (.error error, editor)
              | .ok _ =>
                  let editor := editor.addHistory path oldText
                  match checks.readFile path none editor with
                  | .error error => (.error error, editor)
                  | .ok newContent =>
                      (.ok { prevExist := true, oldContent := some oldText, newContent },
                        editor)

/-- The history is taken back before the file is written. -/
def undoEdit (path : List Char) (editor : FileEditor) : Outcome :=
  match checks.readFile path none editor with
  | .error error => (.error error, editor)
  | .ok currentText =>
      match editor.historyManager.popLastHistory path with
      | (none, manager) =>
          (.error (.editor (.tool ("No edit history found for " ++ String.ofList path ++ "."))),
            { editor with historyManager := manager })
      | (some oldText, manager) =>
          match checks.writeFile path oldText { editor with historyManager := manager } with
          | (.error error, editor) => (.error error, editor)
          | (.ok (), editor) =>
              (.ok { prevExist := true, oldContent := some currentText, newContent := oldText },
                editor)

def create (host : HostPaths) (path : List Char) (fileText : Option (List Char))
    (editor : FileEditor) : Outcome :=
  match fileText, host.openError path with
  | none, _ => (.error (.editor (.parameterMissing "create" "file_text")), editor)
  | some _, some error =>
      (.error (.editor (.tool ("Ran into " ++ error ++ " while trying to write to " ++
        String.ofList path))), editor)
  | some text, none =>
      match checks.writeFile path text editor with
      | (.error error, editor) => (.error error, editor)
      | (.ok (), editor) =>
          (.ok { prevExist := false, oldContent := none, newContent := text },
            editor.addHistory path text)

/-- A call of the editor. -/
def call (host : HostPaths) (editor : FileEditor) (path : List Char) (command : EditorCommand) :
    Outcome :=
  match FileEditor.validatePath host editor.files path command, command with
  | .error error, _ => (.error (.editor error), editor)
  | .ok (), .create fileText => checks.create host path fileText editor
  | .ok (), .strReplace (some oldStr) (some newStr) =>
      if newStr = oldStr then
        (.error (.editor (.parameterInvalid "new_str" (String.ofList newStr)
          ("No replacement was performed. `new_str` and `old_str` must be " ++ "different."))),
          editor)
      else checks.strReplace path oldStr newStr editor
  | .ok (), .strReplace none _ =>
      (.error (.editor (.parameterMissing "str_replace" "old_str")), editor)
  | .ok (), .strReplace (some _) none =>
      (.error (.editor (.parameterMissing "str_replace" "new_str")), editor)
  | .ok (), .insert (some insertLine) (some newStr) =>
      checks.insert path insertLine newStr editor
  | .ok (), .insert none _ =>
      (.error (.editor (.parameterMissing "insert" "insert_line")), editor)
  | .ok (), .insert (some _) none =>
      (.error (.editor (.parameterMissing "insert" "new_str")), editor)
  | .ok (), .undoEdit => checks.undoEdit path editor

/-- The editor after several calls. -/
def run (host : HostPaths) (editor : FileEditor) (calls : List (List Char × EditorCommand)) :
    FileEditor :=
  calls.foldl (fun editor call => (checks.call host editor call.1 call.2).2) editor

/-! ## Without complaints -/

/-- Checks that find nothing wrong. -/
structure Passes : Prop where
  valid : ∀ path content, checks.invalid path content = none
  decodes : ∀ path content lines, checks.undecodable path content lines = none
  encodes : ∀ path content text, checks.unencodable path content text = none

section Passing

variable {checks} {editor : FileEditor} {path : List Char}

theorem Passes.validateFile (hpasses : checks.Passes) (path : List Char) (editor : FileEditor) :
    checks.validateFile path editor = .ok () := by
  unfold FileChecks.validateFile
  split
  next => rfl
  next content => simp only [hpasses.valid]

theorem Passes.writeFile (hpasses : checks.Passes) (path text : List Char)
    (editor : FileEditor) :
    checks.writeFile path text editor = (.ok (), editor.writeFile path text) := by
  simp only [FileChecks.writeFile, hpasses.validateFile, hpasses.encodes]

theorem Passes.readFile_whole (hpasses : checks.Passes) (path : List Char)
    (editor : FileEditor) : checks.readFile path none editor = .ok (editor.readFile path) := by
  simp only [FileChecks.readFile, decode, hpasses.validateFile, hpasses.decodes]

theorem Passes.readFile_part (hpasses : checks.Passes) (path : List Char) (lines : Nat × Nat)
    (editor : FileEditor) : ∃ text, checks.readFile path (some lines) editor = .ok text := by
  simp only [FileChecks.readFile, decode, hpasses.validateFile, hpasses.decodes]
  exact ⟨_, rfl⟩

theorem Passes.strReplace (hpasses : checks.Passes) {oldStr newStr : List Char}
    (hne : newStr ≠ oldStr) :
    (checks.strReplace path oldStr newStr editor).2 =
      (editor.applyEdit path (.strReplace (some oldStr) (some newStr))).2 := by
  simp only [FileChecks.strReplace, FileEditor.applyEdit, FileEditor.edit, if_neg hne,
    hpasses.readFile_whole]
  cases FileEditor.strReplace path oldStr newStr (editor.readFile path) with
  | error error => rfl
  | ok newText =>
      obtain ⟨snippet, hsnippet⟩ := hpasses.readFile_part path
        (replacedLines oldStr newStr (editor.readFile path))
        ((editor.writeFile path newText).addHistory path (editor.readFile path))
      simp only [hpasses.writeFile, hsnippet]
      rfl

theorem Passes.insert (hpasses : checks.Passes) (insertLine : Int) (newStr : List Char) :
    (checks.insert path insertLine newStr editor).2 =
      (editor.applyEdit path (.insert (some insertLine) (some newStr))).2 := by
  simp only [FileChecks.insert, FileEditor.applyEdit, FileEditor.edit, hpasses.validateFile, decode,
    hpasses.decodes, hpasses.encodes]
  cases FileEditor.insertLines insertLine newStr (editor.readFile path) with
  | error error => rfl
  | ok texts =>
      obtain ⟨snippet, hsnippet⟩ := hpasses.readFile_part path
        (insertedLines insertLine newStr (editor.readFile path))
        (editor.writeFile path texts.1)
      simp only [hsnippet, hpasses.readFile_whole]

theorem Passes.undoEdit (hpasses : checks.Passes) :
    (checks.undoEdit path editor).2 = (editor.undoEdit path).2 := by
  simp only [FileChecks.undoEdit, FileEditor.undoEdit, hpasses.readFile_whole]
  cases editor.historyManager.popLastHistory path with
  | mk oldText manager =>
      cases oldText with
      | none => rfl
      | some oldText => simp only [hpasses.writeFile]

theorem Passes.create (hpasses : checks.Passes) (host : HostPaths) (fileText : Option (List Char)) :
    (checks.create host path fileText editor).2 = (editor.create host path fileText).2 := by
  unfold FileChecks.create FileEditor.create
  cases fileText with
  | none => rfl
  | some text =>
      cases host.openError path with
      | some error => rfl
      | none => simp only [hpasses.writeFile]

/-- If nothing is wrong with any file, the checks change nothing of what a call does. -/
theorem Passes.call (hpasses : checks.Passes) (host : HostPaths) (editor : FileEditor)
    (path : List Char) (command : EditorCommand) :
    (checks.call host editor path command).2 = (editor.call host path command).2 := by
  unfold FileChecks.call FileEditor.call
  cases FileEditor.validatePath host editor.files path command with
  | error error => rfl
  | ok done =>
      match command with
      | .create fileText => exact hpasses.create host fileText
      | .undoEdit => exact hpasses.undoEdit
      | .strReplace none newStr => rfl
      | .strReplace (some oldStr) none => rfl
      | .strReplace (some oldStr) (some newStr) =>
          by_cases hsame : newStr = oldStr
          · simp only [hsame, if_true, FileEditor.applyEdit, FileEditor.edit]
          · simp only [if_neg hsame]
            exact hpasses.strReplace hsame
      | .insert none newStr => rfl
      | .insert (some insertLine) none => rfl
      | .insert (some insertLine) (some newStr) => exact hpasses.insert insertLine newStr

theorem Passes.run (hpasses : checks.Passes) (host : HostPaths) :
    checks.run host = FileEditor.run host := by
  funext editor calls
  unfold FileChecks.run FileEditor.run
  congr
  funext editor call
  exact hpasses.call host editor call.1 call.2

end Passing

end FileChecks

end ShuttleFlow
