import ShuttleFlow.FileEditor.CheckedEditor

/-! # What the file editor shows

Texts are shown with numbers in front of their lines: whole files, some lines of a file, and the
lines around an edit.
-/

namespace ShuttleFlow

/-! ## Numbers in front of lines -/

def maxResponseLenChar : Nat := 16000

def textFileContentTruncatedNotice : List Char :=
  ("<response clipped><NOTE>Due to the max output limit, only part of this file has been shown " ++
    "to you. You should retry this tool after you have searched inside the file with `grep -n` " ++
    "in order to find the line numbers of what you are looking for.</NOTE>").toList

/-- A text to be shown, and the number of its first line. -/
structure NumberedOutput where
  note : List Char := []
  snippetContent : List Char
  snippetDescription : List Char
  startLine : Nat

namespace NumberedOutput

def truncated (output : NumberedOutput) : List Char :=
  PythonText.maybeTruncate output.snippetContent maxResponseLenChar textFileContentTruncatedNotice

/-- The lines that are shown, and their numbers. -/
def rows (output : NumberedOutput) : List (List Char × Nat) :=
  (output.truncated.splitOn '\n').zipIdx output.startLine

def rowText (row : List Char × Nat) : List Char :=
  List.leftpad 6 ' ' (Nat.toDigits 10 row.2) ++ '\t' :: row.1

def makeOutput (output : NumberedOutput) : List Char :=
  output.note ++ "Here's the result of running `cat -n` on ".toList ++
    output.snippetDescription ++ ":\n".toList ++
    List.intercalate ['\n'] (output.rows.map rowText) ++ ['\n']

end NumberedOutput

namespace FileChecks

variable (checks : FileChecks)

/-! ## Viewing -/

/-- The last line to show. -/
def endLine (numLines : Nat) (asked : Int) : Int :=
  if asked = -1 ∨ (numLines : Int) < asked then numLines else asked

def warning (numLines : Nat) (asked : Int) : List Char :=
  if asked ≠ -1 ∧ (numLines : Int) < asked then
    ("NOTE: We only show up to " ++ toString numLines ++ " since there're only " ++
      toString numLines ++ " lines in this file.\n").toList
  else []

def viewRangeError (viewRange : List Int) (hint : String) : CheckedError :=
  .editor (.parameterInvalid "view_range" (toString viewRange) hint)

/-- The first and the last line to show. -/
def checkRange (numLines : Nat) (viewRange : List Int) : Except CheckedError (Int × Int) :=
  match viewRange with
  | [startLine, asked] =>
      if startLine < 1 ∨ (numLines : Int) < startLine then
        throw (viewRangeError viewRange ("Its first element `" ++ toString startLine ++
          "` should be within the range of lines of the file: " ++
          FileEditor.showNumbers [1, numLines] ++ "."))
      else if endLine numLines asked < startLine then
        throw (viewRangeError viewRange ("Its second element `" ++
          toString (endLine numLines asked) ++
          "` should be greater than or equal to the first element `" ++ toString startLine ++
          "`."))
      else pure (startLine, asked)
  | _ => throw (viewRangeError viewRange "It should be a list of two integers.")

/-- A text file is shown, or some of its lines. -/
def view (path : List Char) (viewRange : List Int) (editor : FileEditor) :
    Except CheckedError NumberedOutput :=
  match checks.validateFile path editor, checks.decode path none editor with
  | .error error, _ => .error error
  | .ok (), some error =>
      .error (.editor (.tool ("Cannot view " ++ String.ofList path ++
        ": file contains binary content that cannot be decoded as text. Error: " ++ error)))
  | .ok (), none =>
      let numLines := (FileEditor.fileLines (editor.readFile path)).length
      if viewRange = [] then
        (checks.readFile path none editor).map fun fileContent =>
          { snippetContent := fileContent, snippetDescription := path, startLine := 1 }
      else
        match checkRange numLines viewRange with
        | .error error => .error error
        | .ok (startLine, asked) =>
            (checks.readFile path (some (startLine.toNat, (endLine numLines asked).toNat))
              editor).map fun fileContent =>
                { note := warning numLines asked
                  snippetContent := List.intercalate ['\n'] (splitlines fileContent)
                  snippetDescription := path
                  startLine := startLine.toNat }

/-! ## Edits -/

/-- What is shown of a replacement that was made. -/
def strReplaceOutput (path oldStr newStr : List Char) (editor : FileEditor) :
    Except CheckedError (NumberedOutput × FileEditor) :=
  match checks.strReplace path oldStr newStr editor with
  | (.error error, _) => .error error
  | (.ok _, later) =>
      let lines := replacedLines oldStr newStr (editor.readFile path)
      (checks.readFile path (some lines) later).map fun snippet =>
        ({ snippetContent := snippet
           snippetDescription := "a snippet of ".toList ++ path
           startLine := lines.1 }, later)

/-- What is shown of an insertion that was made. -/
def insertOutput (path : List Char) (insertLine : Int) (newStr : List Char)
    (editor : FileEditor) : Except CheckedError (NumberedOutput × FileEditor) :=
  match checks.insert path insertLine newStr editor with
  | (.error error, _) => .error error
  | (.ok _, later) =>
      let lines := insertedLines insertLine newStr (editor.readFile path)
      (checks.readFile path (some lines) later).map fun snippet =>
        ({ snippetContent := snippet
           snippetDescription := "a snippet of the edited file".toList
           startLine := lines.1 }, later)

end FileChecks

end ShuttleFlow
