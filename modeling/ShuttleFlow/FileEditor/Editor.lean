import Mathlib.Logic.Function.Basic
import ShuttleFlow.FileEditor.FileHistory
import ShuttleFlow.Io.Disk
import ShuttleFlow.Library.PythonText

/-! # The file editor

The commands that change files. Files are texts: what is written in the encoding of a file
is read back from it. Reading translates line endings.
-/

namespace ShuttleFlow

inductive EditorCommand
  | create (fileText : Option (List Char))
  | strReplace (oldStr newStr : Option (List Char))
  | insert (insertLine : Option Int) (newStr : Option (List Char))
  | undoEdit
  deriving DecidableEq

inductive EditorError
  | parameterMissing (command parameter : String)
  | parameterInvalid (parameter value hint : String)
  | tool (message : String)
  deriving DecidableEq, Repr

def EditorError.message : EditorError → String
  | parameterMissing command parameter =>
      "Parameter `" ++ parameter ++ "` is required for command: " ++ command ++ "."
  | parameterInvalid parameter value hint =>
      "Invalid `" ++ parameter ++ "` parameter: " ++ value ++ "." ++
        if hint = "" then "" else " " ++ hint
  | tool message => message

structure EditorResult where
  prevExist : Bool
  oldContent : Option (List Char)
  newContent : List Char
  deriving DecidableEq

/-- What the editor finds about paths. -/
structure HostPaths where
  isAbsolute : List Char → Bool
  isDir : List Char → Bool
  /-- The hint for a path that is not absolute. -/
  suggestion : List Char → String
  /-- What goes wrong when a new file is opened. -/
  openError : List Char → Option String

structure FileEditor where
  files : List Char → Option (List Char)
  historyManager : FileHistoryManager

namespace FileEditor

def init (files : List Char → Option (List Char)) (maxHistoryPerFile : Nat := 10) : FileEditor :=
  { files, historyManager := .init maxHistoryPerFile }

/-! ## Replacements -/

/-- Where the text is found. Occurrences do not overlap; the empty text is found everywhere. -/
def occurrencesFrom (oldStr : List Char) : (position skip : Nat) → List Char → List Nat
  | position, _, [] => if oldStr = [] then [position] else []
  | position, skip + 1, _ :: rest => occurrencesFrom oldStr (position + 1) skip rest
  | position, 0, char :: rest =>
      if oldStr <+: char :: rest then
        position :: occurrencesFrom oldStr (position + 1) (oldStr.length - 1) rest
      else occurrencesFrom oldStr (position + 1) 0 rest

def occurrences (oldStr fileContent : List Char) : List Nat :=
  occurrencesFrom oldStr 0 0 fileContent

def lineNumber (fileContent : List Char) (position : Nat) : Nat :=
  (fileContent.take position).count '\n' + 1

def strip (text : List Char) : List Char :=
  (PythonText.strip (String.ofList text)).toList

/-- How Python shows a list of numbers. -/
def showNumbers (numbers : List Nat) : String :=
  "[" ++ ", ".intercalate (numbers.map toString) ++ "]"

/-- The only occurrence is replaced. -/
def replaceUnique (oldStr newStr fileContent : List Char) : Except EditorError (List Char) :=
  match occurrences oldStr fileContent with
  | [position] =>
      .ok (fileContent.take position ++ newStr ++ fileContent.drop (position + oldStr.length))
  | positions =>
      .error (.tool ("No replacement was performed. Multiple occurrences of old_str `" ++
        String.ofList oldStr ++ "` in lines " ++
        showNumbers (positions.map (lineNumber fileContent)).dedup ++
        ". Please ensure it is unique."))

/-- Without an occurrence, spaces at the ends are taken off. -/
def strReplace (path oldStr newStr fileContent : List Char) : Except EditorError (List Char) :=
  if occurrences oldStr fileContent ≠ [] then replaceUnique oldStr newStr fileContent
  else if occurrences (strip oldStr) fileContent ≠ [] then
    replaceUnique (strip oldStr) (strip newStr) fileContent
  else
    .error (.tool ("No replacement was performed, old_str `" ++ String.ofList (strip oldStr) ++
      "` did not appear verbatim in " ++ String.ofList path ++ "."))

/-! ## Insertions -/

/-- The lines of a file, with their ends. -/
def fileLines : List Char → List (List Char)
  | [] => []
  | '\n' :: rest => ['\n'] :: fileLines rest
  | char :: rest =>
      match fileLines rest with
      | [] => [[char]]
      | line :: lines => (char :: line) :: lines

/-- The new text, and the lines that are saved for the history. -/
def insertLines (insertLine : Int) (newStr fileContent : List Char) :
    Except EditorError (List Char × List Char) :=
  let lines := fileLines fileContent
  if insertLine < 0 ∨ lines.length < insertLine then
    .error (.parameterInvalid "insert_line" (toString insertLine)
      ("It should be within the range of allowed values: " ++ showNumbers [0, lines.length]))
  else
    let before := (lines.take insertLine.toNat).flatten
    let after := (lines.drop insertLine.toNat).flatten
    .ok (before ++ ((newStr.splitOn '\n').flatMap (· ++ ['\n'])) ++ after, before ++ after)

/-! ## Commands -/

def pathExists (host : HostPaths) (files : List Char → Option (List Char)) (path : List Char) :
    Bool :=
  (files path).isSome || host.isDir path

def validatePath (host : HostPaths) (files : List Char → Option (List Char)) (path : List Char)
    (command : EditorCommand) : Except EditorError Unit :=
  let creates := match command with
    | .create _ => true
    | _ => false
  let invalid hint := Except.error (EditorError.parameterInvalid "path" (String.ofList path) hint)
  if !host.isAbsolute path then invalid (host.suggestion path)
  else if creates && pathExists host files path then
    invalid ("File already exists at: " ++ String.ofList path ++
      ". Cannot overwrite files using command `create`.")
  else if !creates && !pathExists host files path then
    invalid ("The path " ++ String.ofList path ++ " does not exist. Please provide a valid path.")
  else if host.isDir path then
    invalid ("The path " ++ String.ofList path ++
      " is a directory and only the `view` command can be used on directories.")
  else .ok ()

def readFile (editor : FileEditor) (path : List Char) : List Char :=
  translateNewlines ((editor.files path).getD [])

def writeFile (path text : List Char) (editor : FileEditor) : FileEditor :=
  { editor with files := Function.update editor.files path (some text) }

def addHistory (path text : List Char) (editor : FileEditor) : FileEditor :=
  { editor with historyManager := editor.historyManager.addHistory path text }

/-- What an edit makes of the content of a file: the new content, and what is saved. -/
def edit (path fileContent : List Char) :
    EditorCommand → Except EditorError (List Char × List Char)
  | .strReplace none _ => .error (.parameterMissing "str_replace" "old_str")
  | .strReplace (some _) none => .error (.parameterMissing "str_replace" "new_str")
  | .strReplace (some oldStr) (some newStr) =>
      if newStr = oldStr then
        .error (.parameterInvalid "new_str" (String.ofList newStr)
          ("No replacement was performed. `new_str` and `old_str` must be " ++ "different."))
      else (strReplace path oldStr newStr fileContent).map fun text => (text, fileContent)
  | .insert none _ => .error (.parameterMissing "insert" "insert_line")
  | .insert (some _) none => .error (.parameterMissing "insert" "new_str")
  | .insert (some insertLine) (some newStr) => insertLines insertLine newStr fileContent
  | .create _ | .undoEdit => .error (.tool "Unrecognized command")

def create (host : HostPaths) (path : List Char) (fileText : Option (List Char))
    (editor : FileEditor) : Except EditorError EditorResult × FileEditor :=
  match fileText, host.openError path with
  | none, _ => (.error (.parameterMissing "create" "file_text"), editor)
  | some _, some error =>
      (.error (.tool ("Ran into " ++ error ++ " while trying to write to " ++
        String.ofList path)), editor)
  | some text, none =>
      (.ok { prevExist := false, oldContent := none, newContent := text },
        (editor.writeFile path text).addHistory path text)

/-- The history is taken back before the file is written. -/
def undoEdit (path : List Char) (editor : FileEditor) :
    Except EditorError EditorResult × FileEditor :=
  let currentText := editor.readFile path
  match editor.historyManager.popLastHistory path with
  | (none, manager) =>
      (.error (.tool ("No edit history found for " ++ String.ofList path ++ ".")),
        { editor with historyManager := manager })
  | (some oldText, manager) =>
      (.ok { prevExist := true, oldContent := some currentText, newContent := oldText },
        writeFile path oldText { editor with historyManager := manager })

/-- The file is written, and then its old content is saved. -/
def applyEdit (path : List Char) (command : EditorCommand) (editor : FileEditor) :
    Except EditorError EditorResult × FileEditor :=
  match edit path (editor.readFile path) command with
  | .error error => (.error error, editor)
  | .ok (newText, oldText) =>
      let editor := (editor.writeFile path newText).addHistory path oldText
      (.ok { prevExist := true, oldContent := some oldText, newContent := newText }, editor)

/-- A call of the editor. -/
def call (host : HostPaths) (editor : FileEditor) (path : List Char) (command : EditorCommand) :
    Except EditorError EditorResult × FileEditor :=
  match validatePath host editor.files path command, command with
  | .error error, _ => (.error error, editor)
  | .ok (), .create fileText => editor.create host path fileText
  | .ok (), .undoEdit => editor.undoEdit path
  | .ok (), command => editor.applyEdit path command

/-- The editor after several calls. -/
def run (host : HostPaths) (editor : FileEditor) (calls : List (List Char × EditorCommand)) :
    FileEditor :=
  calls.foldl (fun editor call => (editor.call host call.1 call.2).2) editor

/-! ## What a call sees -/

theorem validatePath_eq_ok {host : HostPaths} {files : List Char → Option (List Char)}
    {path : List Char} {command : EditorCommand}
    (hvalid : validatePath host files path command = .ok ()) :
    host.isDir path = false ∧
      ((∃ fileText, command = .create fileText) ↔ files path = none) := by
  unfold validatePath pathExists at hvalid
  cases command <;> cases hdir : host.isDir path <;> cases hfile : files path <;>
    cases habsolute : host.isAbsolute path <;> simp_all

/-- A path that is accepted is accepted for undoing, once there is a file. -/
theorem validatePath_update {host : HostPaths} {files : List Char → Option (List Char)}
    {path : List Char} {command : EditorCommand} (text : List Char)
    (hvalid : validatePath host files path command = .ok ()) :
    validatePath host (Function.update files path (some text)) path .undoEdit = .ok () := by
  have hdir := (validatePath_eq_ok hvalid).1
  have habsolute : host.isAbsolute path = true := by
    cases habsolute : host.isAbsolute path with
    | true => rfl
    | false =>
        unfold validatePath at hvalid
        simp only [habsolute, Bool.not_false, if_true] at hvalid
        cases hvalid
  simp only [validatePath, pathExists, Function.update_self, habsolute, hdir, Option.isSome_some,
    Bool.not_true, Bool.not_false, Bool.true_or, Bool.false_and, Bool.and_false,
    Bool.false_eq_true, if_false]

theorem validatePath_congr {host : HostPaths} {files later : List Char → Option (List Char)}
    {path : List Char} {command : EditorCommand} (hfile : later path = files path) :
    validatePath host later path command = validatePath host files path command := by
  simp only [validatePath, pathExists, hfile]

theorem flatten_fileLines (text : List Char) : (fileLines text).flatten = text := by
  fun_induction fileLines text with
  | case1 => rfl
  | case2 rest ih => rw [List.flatten_cons, ih, List.singleton_append]
  | case3 char rest hne hlines ih =>
      rw [hlines] at ih
      rw [← ih]
      rfl
  | case4 char rest hne line lines hlines ih =>
      rw [hlines, List.flatten_cons] at ih
      rw [List.flatten_cons, List.cons_append, ih]

/-- The whole content is saved. -/
theorem edit_saves {path fileContent newText oldText : List Char} {command : EditorCommand}
    (hedit : edit path fileContent command = .ok (newText, oldText)) : oldText = fileContent := by
  unfold edit at hedit
  split at hedit
  next => cases hedit
  next => cases hedit
  next oldStr newStr =>
    split at hedit
    next => cases hedit
    next =>
      cases hreplace : strReplace path oldStr newStr fileContent with
      | error error =>
          rw [hreplace] at hedit
          cases hedit
      | ok text =>
          rw [hreplace] at hedit
          cases hedit
          rfl
  next => cases hedit
  next => cases hedit
  next insertLine newStr =>
    dsimp only [insertLines] at hedit
    split at hedit
    next => cases hedit
    next =>
      cases hedit
      rw [← List.flatten_append, List.take_append_drop, flatten_fileLines]
  next => cases hedit
  next => cases hedit

end FileEditor

end ShuttleFlow
