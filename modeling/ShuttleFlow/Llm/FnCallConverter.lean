import ShuttleFlow.Library.JsonText
import ShuttleFlow.Library.PythonText
import ShuttleFlow.Library.Tags
import ShuttleFlow.Library.Words

/-! # Function calls as texts

For a model without function calling a call is written into the text of its message, and taken
out of the text of the model. The contents of messages are texts here.
-/

namespace ShuttleFlow

open PythonText (isSpace rstrip lstrip trim removePrefix)

inductive FnCallError
  | missingKey (key : String)
  | notFunction
  | invalidArguments (arguments : List Char)
  /-- The arguments have no items. -/
  | attributeError
  | severalToolCalls (number : Nat)
  | notAllowed (param fnName : List Char)
  | notInteger (param : List Char)
  | notArray (param : List Char)
  | notInEnum (param : List Char)
  | missingParams (fnName : List Char) (missing : List (List Char))
  | notFound (fnName : List Char) (available : List (List Char))
  | unexpectedRole
  deriving DecidableEq

/-- What is said of a parameter. A list of types, or a type that is not named here, is another
one. -/
inductive ParamType
  | string | integer | boolean | number | array | object | other
  deriving DecidableEq

structure ParamSchema (Float : Type) where
  type : Option ParamType := none
  /-- Whether a value is in the list of those allowed, if there is one. -/
  enum : Option (JsonValue Float → Bool) := none

structure FnCallTool (Float : Type) where
  name : List Char
  properties : Dict (List Char) (ParamSchema Float)
  required : List (List Char)

structure FnCall where
  name : List Char
  arguments : List Char
  deriving DecidableEq

structure FnToolCall where
  id : Option (List Char)
  type : Option (List Char)
  function : Option FnCall
  deriving DecidableEq

inductive FnRole
  | system | user | assistant | tool
  deriving DecidableEq

structure FnMessage where
  role : FnRole
  content : Option (List Char) := none
  toolCalls : Option (List FnToolCall) := none
  toolCallId : Option (List Char) := none
  name : Option (List Char) := none
  deriving DecidableEq

namespace FnCallConverter

def functionOpening : List Char := "<function=".toList

def functionClosing : List Char := "</function>".toList

def paramOpening : List Char := "<parameter=".toList

def paramClosing : List Char := "</parameter>".toList

/-! ## Writing a call -/

section Writing

variable {Float : Type} (format : FloatFormat Float)

/-- `str(value)`, or JSON for lists and dictionaries. -/
def rendered : JsonValue Float → List Char
  | .arr items => JsonText.dumps format (.arr items)
  | .obj entries => JsonText.dumps format (.obj entries)
  | .str value => value
  | .int value => JsonText.intText value
  | .float value => format.repr value
  | .bool true => "True".toList
  | .bool false => "False".toList
  | .null => "None".toList

def isMultiLine : JsonValue Float → Bool
  | .str value => decide ('\n' ∈ value)
  | _ => false

/-- The text between the tags of a parameter. -/
def paramBody (value : JsonValue Float) : List Char :=
  if isMultiLine value then '\n' :: rendered format value ++ ['\n'] else rendered format value

def paramText (name : List Char) (value : JsonValue Float) : List Char :=
  paramOpening ++ name ++ '>' :: paramBody format value ++ paramClosing

def callText (name : List Char) (args : List (List Char × JsonValue Float)) : List Char :=
  List.intercalate ['\n']
    ((functionOpening ++ name ++ ['>']) ::
      args.map (fun arg => paramText format arg.1 arg.2) ++ [functionClosing])

def convertToolCallToString (toolCall : FnToolCall) : Except FnCallError (List Char) :=
  match toolCall.function, toolCall.id, toolCall.type with
  | none, _, _ => throw (.missingKey "function")
  | some _, none, _ => throw (.missingKey "id")
  | some _, some _, none => throw (.missingKey "type")
  | some function, some _, some type =>
      if type ≠ "function".toList then throw .notFunction
      else
        match JsonText.loads format function.arguments with
        | none => throw (.invalidArguments function.arguments)
        | some (.obj args) => pure (callText format function.name args)
        | some _ => throw .attributeError

end Writing

/-! ## Repairing a text -/

/-- A word that has only spaces between it and another one. The spaces belong to the match. -/
def wordBefore (word ahead : List Char) (hword : word ≠ []) : Pattern Char (List Char) where
  find text :=
    if word <+: text ∧ ahead <+: (text.drop word.length).dropWhile isSpace then
      some ((text.drop word.length).takeWhile isSpace)
    else none
  covers blank := word ++ blank
  covers_ne_nil _ hnil := hword (List.append_eq_nil_iff.mp hnil).1
  covers_initial hfind := by
    rw [Option.ite_none_right_eq_some] at hfind
    obtain ⟨⟨⟨rest, rfl⟩, -⟩, hblank⟩ := hfind
    cases hblank
    rw [List.drop_left]
    exact (List.prefix_append_right_inj word).mpr (List.takeWhile_prefix _)

def thinkPattern : Pattern Char (List Char) :=
  wordBefore "</think>".toList functionOpening (by decide)

def toolCallOpenPattern : Pattern Char (List Char) :=
  wordBefore "<tool_call>".toList functionOpening (by decide)

def toolCallClosing : List Char := "</tool_call>".toList

/-- A closing marker of a function with one of a tool call behind it. -/
def toolCallClosePattern : Pattern Char (List Char) where
  find text :=
    if functionClosing <+: text ∧
        toolCallClosing <+: (text.drop functionClosing.length).dropWhile isSpace then
      some ((text.drop functionClosing.length).takeWhile isSpace)
    else none
  covers blank := functionClosing ++ blank ++ toolCallClosing
  covers_ne_nil _ hnil := absurd (List.append_eq_nil_iff.mp hnil).2 (by decide)
  covers_initial hfind := by
    rw [Option.ite_none_right_eq_some] at hfind
    obtain ⟨⟨⟨rest, rfl⟩, htool⟩, hblank⟩ := hfind
    cases hblank
    rw [List.drop_left] at htool ⊢
    rw [List.append_assoc, List.prefix_append_right_inj]
    obtain ⟨behind, hbehind⟩ := htool
    refine ⟨behind, ?_⟩
    rw [List.append_assoc, hbehind]
    exact List.takeWhile_append_dropWhile

def preprocessModelOutput (content : List Char) : List Char :=
  toolCallClosePattern.sub (fun _ => functionClosing)
    (toolCallOpenPattern.sub (fun _ => []) (thinkPattern.sub (fun _ => []) content))

def fixStopword (content : List Char) : List Char :=
  let content := preprocessModelOutput content
  if functionOpening <:+: content ∧ ((word id functionOpening).findAll content).length = 1 then
    if "</".toList <:+ content then rstrip content ++ "function>".toList
    else if functionClosing <:+ rstrip content then content
    else content ++ '\n' :: functionClosing
  else content

def isWordChar (c : Char) : Bool :=
  ('a' ≤ c && c ≤ 'z') || ('A' ≤ c && c ≤ 'Z') || ('0' ≤ c && c ≤ '9') || c = '_'

/-- A parameter tag with an equals sign behind its name. -/
def malformedPattern : Pattern Char (List Char × List Char) where
  find text :=
    if paramOpening <+: text then
      let rest := text.drop paramOpening.length
      match rest.takeWhile isWordChar, rest.dropWhile isWordChar with
      | first :: name, '=' :: behind =>
          if paramClosing <+: behind.dropWhile (· ≠ '<') then
            some (first :: name, behind.takeWhile (· ≠ '<'))
          else none
      | _, _ => none
    else none
  covers found := paramOpening ++ found.1 ++ '=' :: found.2 ++ paramClosing
  covers_ne_nil _ hnil := by simp at hnil
  covers_initial := by
    intro text found hfind
    rw [Option.ite_none_right_eq_some] at hfind
    obtain ⟨⟨rest, rfl⟩, hfind⟩ := hfind
    rw [List.drop_left] at hfind
    dsimp only at hfind
    split at hfind
    next first name behind hname hbehind =>
      rw [Option.ite_none_right_eq_some] at hfind
      obtain ⟨⟨last, hlast⟩, heq⟩ := hfind
      cases heq
      have hrest : first :: name ++ '=' :: behind = rest := by
        rw [← hname, ← hbehind]
        exact List.takeWhile_append_dropWhile
      have hvalue : behind.takeWhile (· ≠ '<') ++ (paramClosing ++ last) = behind := by
        rw [hlast]
        exact List.takeWhile_append_dropWhile
      refine ⟨last, ?_⟩
      generalize behind.takeWhile (· ≠ '<') = value at hvalue ⊢
      rw [← hrest, ← hvalue]
      simp
    next => cases hfind

def normalizeParameterTags (fnBody : List Char) : List Char :=
  malformedPattern.sub
    (fun found => paramOpening ++ found.1 ++ '>' :: found.2 ++ paramClosing) fnBody

/-! ## Reading a call -/

def fnPattern : Pattern Char (List Char × List Char) :=
  tagPattern functionOpening '>' functionClosing

def paramPattern : Pattern Char (List Char × List Char) :=
  tagPattern paramOpening '>' paramClosing

/-- Digits, with single underscores between them. -/
def isIntDigits (digits : List Char) : Bool :=
  digits.all (fun c => c.isDigit || c = '_') && digits.head?.any Char.isDigit &&
    digits.getLast?.any Char.isDigit && !decide (['_', '_'] <:+: digits)

/-- `int(text)`. -/
def int? (text : List Char) : Option Int :=
  let text := trim text
  let digits := if text.head? = some '-' ∨ text.head? = some '+' then text.tail else text
  if isIntDigits digits then
    let value := Nat.ofDigitChars 10 (digits.filter Char.isDigit) 0
    some (if text.head? = some '-' then -(value : Int) else value)
  else none

section Reading

variable {Float : Type} (format : FloatFormat Float)

/-- Integers and arrays are converted. -/
def convertParam (type : ParamType) (param text : List Char) :
    Except FnCallError (JsonValue Float) :=
  match type with
  | .integer =>
      match int? text with
      | some value => pure (.int value)
      | none => throw (.notInteger param)
  | .array =>
      match JsonText.loads format text with
      | some value => pure value
      | none => throw (.notArray param)
  | _ => pure (.str text)

def extractParam (tool : FnCallTool Float) (fnName : List Char) (found : List Char × List Char) :
    Except FnCallError (JsonValue Float) :=
  if tool.properties.entries ≠ [] ∧ found.1 ∉ tool.properties.keys then
    throw (.notAllowed found.1 fnName)
  else
    let schema := (tool.properties.get? found.1).getD {}
    match convertParam format (schema.type.getD .string) found.1 (trim found.2) with
    | .error error => throw error
    | .ok value =>
        if schema.enum.any (fun accepts => !accepts value) then throw (.notInEnum found.1)
        else pure value

def extractParams (tool : FnCallTool Float) (fnName : List Char) :
    List (List Char × List Char) → Dict (List Char) (JsonValue Float) →
      Except FnCallError (Dict (List Char) (JsonValue Float))
  | [], params => pure params
  | found :: rest, params =>
      match extractParam format tool fnName found with
      | .error error => throw error
      | .ok value => extractParams tool fnName rest (params.set found.1 value)

/-- The security risk may always be left out. -/
def extractAndValidateParams (tool : FnCallTool Float) (paramMatches : List (List Char × List Char))
    (fnName : List Char) : Except FnCallError (Dict (List Char) (JsonValue Float)) :=
  match extractParams format tool fnName paramMatches Dict.empty with
  | .error error => throw error
  | .ok params =>
      let missing := tool.required.filter fun param =>
        param ∉ params.keys ∧ param ≠ "security_risk".toList
      if missing = [] then pure params else throw (.missingParams fnName missing)

def toolNameAliases : List (List Char × List Char) :=
  [("str_replace_editor".toList, "file_editor".toList), ("bash".toList, "terminal".toList),
    ("execute_bash".toList, "terminal".toList), ("str_replace".toList, "file_editor".toList)]

def findTool (tools : List (FnCallTool Float)) (name : List Char) : Option (FnCallTool Float) :=
  tools.find? fun tool => tool.name = name

def resolveToolName (tools : List (FnCallTool Float)) (fnName : List Char) :
    Except FnCallError (List Char × FnCallTool Float) :=
  match findTool tools fnName with
  | some tool => pure (fnName, tool)
  | none =>
      let name := (toolNameAliases.lookup fnName).getD fnName
      match findTool tools name with
      | some tool => pure (name, tool)
      | none => throw (.notFound name (tools.map FnCallTool.name))

/-- `text.split(marker)[0]`. -/
def textBefore (marker text : List Char) : List Char :=
  ((cutAt marker text).map Prod.fst).getD text

def toolUseId (number : Nat) : List Char :=
  "toolu_".toList ++ List.leftpad 2 '0' (Nat.toDigits 10 number)

/-- The newline behind the name does not belong to the body. -/
def dropNewline (text : List Char) : List Char :=
  if text.head? = some '\n' then text.tail else text

def convertAssistantToFncall (message : FnMessage) (content : List Char)
    (tools : List (FnCallTool Float)) (toolCallCounter : Nat) :
    Except FnCallError (FnMessage × Nat) :=
  let content := fixStopword content
  match fnPattern.search content with
  | none => pure (message, toolCallCounter)
  | some (fnName, raw) =>
      match resolveToolName tools fnName with
      | .error error => throw error
      | .ok (fnName, tool) =>
          let fnBody := normalizeParameterTags (dropNewline raw)
          match extractAndValidateParams format tool (paramPattern.findAll fnBody) fnName with
          | .error error => throw error
          | .ok params =>
              pure
                ({ role := .assistant
                   content := some (trim (textBefore functionOpening content))
                   toolCalls := some
                     [{ id := some (toolUseId toolCallCounter)
                        type := some "function".toList
                        function := some
                          { name := fnName
                            arguments := JsonText.dumps format (.obj params.entries) } }] },
                  toolCallCounter + 1)

end Reading

end FnCallConverter

end ShuttleFlow
