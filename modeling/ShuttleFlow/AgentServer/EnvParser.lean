import ShuttleFlow.Library.Entries
import ShuttleFlow.Library.JsonText

/-! # Reading settings from environment variables -/

namespace ShuttleFlow

abbrev EnvText := List Char

/-- What a parser can raise. -/
inductive EnvError
  | assertion
  | jsonDecode
  | value
  | index
  | key
  | type
  | importing
  | recursion
  deriving DecidableEq

/-- A value like one of JSON, or the mark that there is none. -/
inductive JsonType (Float : Type)
  | missing
  | none
  | bool (value : Bool)
  | int (value : Int)
  | float (value : Float)
  | str (value : EnvText)
  | list (items : List (JsonType Float))
  | dict (entries : List (EnvText × JsonType Float))

namespace JsonType

variable {Float : Type}

def isMissing : JsonType Float → Bool
  | .missing => true
  | _ => false

mutual

/-- The value that `json.loads` makes of a text. -/
def ofJson : JsonValue Float → JsonType Float
  | .null => .none
  | .bool value => .bool value
  | .int value => .int value
  | .float value => .float value
  | .str value => .str value
  | .arr items => .list (ofItems items)
  | .obj entries => .dict (ofEntries entries)

def ofItems : List (JsonValue Float) → List (JsonType Float)
  | [] => []
  | item :: rest => ofJson item :: ofItems rest

def ofEntries : List (EnvText × JsonValue Float) → List (EnvText × JsonType Float)
  | [] => []
  | (key, value) :: rest => (key, ofJson value) :: ofEntries rest

end

/-- `dict.get(key, MISSING)`. -/
def getMissing (entries : List (EnvText × JsonType Float)) (key : EnvText) : JsonType Float :=
  (Entries.get? entries key).getD .missing

/-- `dict.get(key)`. -/
def getNone (entries : List (EnvText × JsonType Float)) (key : EnvText) : JsonType Float :=
  (Entries.get? entries key).getD .none

/-- `list[index] = value`. -/
def setItem (items : List (JsonType Float)) (index : Nat) (value : JsonType Float) :
    Except EnvError (List (JsonType Float)) :=
  if index < items.length then .ok (items.set index value) else .error .index

end JsonType

open JsonType (getMissing getNone setItem ofEntries ofItems)

variable {Float : Type}

mutual

def merge (a b : JsonType Float) : Except EnvError (JsonType Float) :=
  match a, b with
  | .missing, b => .ok b
  | a, .missing => .ok a
  | .dict entries, .dict updates => (mergeEntries entries updates).map .dict
  | .list items, .list updates => (mergeItems items.length items 0 updates).map .list
  | a, .none => .ok a
  | _, b => .ok b

def mergeEntries (result : List (EnvText × JsonType Float)) :
    List (EnvText × JsonType Float) → Except EnvError (List (EnvText × JsonType Float))
  | [] => .ok result
  | (key, value) :: rest => do
      let merged ← merge (getNone result key) value
      mergeEntries (Entries.set result key merged) rest

/-- The list that is written to has as many items as there were at first. -/
def mergeItems (size : Nat) (result : List (JsonType Float)) (index : Nat) :
    List (JsonType Float) → Except EnvError (List (JsonType Float))
  | [] => .ok result
  | value :: rest =>
      if size ≤ index then do
        let result ← setItem result index value
        mergeItems size result (index + 1) rest
      else do
        let merged ← merge (result.getD index .missing) value
        let result ← setItem result index merged
        mergeItems size result (index + 1) rest

end

/-- The parsers, with a name in place of a parser that is made later on. -/
inductive EnvParser
  | bool
  | int
  | float
  | str
  | none
  | literal (values : List (Option EnvText))
  | model (parsers : List (EnvText × EnvParser))
  | dict
  | list (itemParser : EnvParser)
  | union (parsers : List EnvParser)
  | discriminated (parsers : List (EnvText × EnvParser))
  | delayed (target : Nat)

/-- What parsing rests on: the variables, the parsers that delayed ones stand for, and the
functions of Python that read a text. -/
structure EnvHost (Float : Type) where
  environ : List (EnvText × EnvText)
  parser : Nat → Option EnvParser
  upper : EnvText → EnvText
  int : EnvText → Except EnvError Int
  float : EnvText → Except EnvError Float
  format : FloatFormat Float
  /-- `get_env_parser` for a class of a module that is imported. -/
  importClass : EnvText → EnvText → Except EnvError EnvParser

/-- The result of parsing, `none` when there was not enough fuel. -/
abbrev Parsed (α : Type) := Option (Except EnvError α)

namespace Parsed

variable {α β : Type}

def ok (value : α) : Parsed α := some (.ok value)

def raise (error : EnvError) : Parsed α := some (.error error)

def bind (parsed : Parsed α) (f : α → Parsed β) : Parsed β :=
  match parsed with
  | none => none
  | some (.error error) => some (.error error)
  | some (.ok value) => f value

end Parsed

namespace EnvHost

variable (host : EnvHost Float)

def getenv (key : EnvText) : Option EnvText :=
  Entries.get? host.environ key

def isTrue (value : EnvText) : Bool :=
  host.upper value = ['1'] || host.upper value = "TRUE".toList

/-- A variable that has to be JSON for an object, when it is not empty. -/
def readObject (key : EnvText) : Except EnvError (Option (List (EnvText × JsonType Float))) :=
  match host.getenv key with
  | none => .ok none
  | some value =>
      if value = [] then .ok none
      else
        match JsonText.loads host.format value with
        | none => .error .jsonDecode
        | some (.obj entries) => .ok (some (ofEntries entries))
        | some _ => .error .assertion

/-- A variable that has to be JSON for an array, or for the length of one. -/
def readList (value : EnvText) : Except EnvError (List (JsonType Float)) :=
  match JsonText.loads host.format value with
  | none => .error .jsonDecode
  | some (.int size) => .ok (List.replicate size.toNat .missing)
  | some (.bool value) => .ok (if value then [.missing] else [])
  | some (.arr items) => .ok (ofItems items)
  | some _ => .error .assertion

/-- `f"{key}_{field_name.upper()}"` -/
def fieldKey (key name : EnvText) : EnvText :=
  key ++ '_' :: host.upper name

/-- `f"{key}_{index}"` -/
def itemKey (key : EnvText) (index : Nat) : EnvText :=
  key ++ '_' :: Nat.toDigits 10 index

def hasPossibleKeys (name : EnvText) : Bool :=
  host.environ.any fun entry => decide (name <+: entry.1)

/-- What the variables say of a field. -/
def fieldValue (read : EnvParser → EnvText → Parsed (JsonType Float)) (key : EnvText)
    (field : EnvText × EnvParser) : Parsed (JsonType Float) :=
  if host.hasPossibleKeys (host.fieldKey key field.1) then
    read field.2 (host.fieldKey key field.1)
  else .ok .missing

/-- The result is made when there is a first value to be put into it. -/
def overrideField (result : Option (List (EnvText × JsonType Float))) (name : EnvText)
    (value : JsonType Float) : Except EnvError (Option (List (EnvText × JsonType Float))) :=
  if value.isMissing then .ok result
  else do
    let merged ← merge (getMissing (result.getD []) name) value
    if merged.isMissing then .ok (some (result.getD []))
    else .ok (some (Entries.set (result.getD []) name merged))

/-- The object that was read, or the mark that there is none. -/
def toDict (result : Option (List (EnvText × JsonType Float))) : JsonType Float :=
  match result with
  | none => .missing
  | some entries => .dict entries

def overrideFields (read : EnvParser → EnvText → Parsed (JsonType Float)) (key : EnvText) :
    List (EnvText × EnvParser) → Option (List (EnvText × JsonType Float)) →
      Parsed (Option (List (EnvText × JsonType Float)))
  | [], result => .ok result
  | field :: rest, result =>
      (host.fieldValue read key field).bind fun value =>
        Parsed.bind (some (overrideField result field.1 value)) fun result =>
          overrideFields read key rest result

/-- Items one after the other, up to the first one that is missing. -/
def readItems (read : EnvText → Parsed (JsonType Float)) (key : EnvText) :
    Nat → Nat → List (JsonType Float) → Parsed (List (JsonType Float))
  | 0, _, _ => none
  | fuel + 1, index, result =>
      (read (itemKey key index)).bind fun item =>
        if item.isMissing then .ok result
        else readItems read key fuel (index + 1) (result ++ [item])

def fillItems (read : EnvText → Parsed (JsonType Float)) (key : EnvText) :
    Nat → List (JsonType Float) → Parsed (List (JsonType Float))
  | _, [] => .ok []
  | index, item :: rest =>
      (read (itemKey key index)).bind fun found =>
        Parsed.bind (some (merge item found)) fun merged =>
          (fillItems read key (index + 1) rest).bind fun rest => .ok (merged :: rest)

def mergeParsed (read : EnvParser → Parsed (JsonType Float)) :
    List EnvParser → JsonType Float → Parsed (JsonType Float)
  | [], result => .ok result
  | parser :: rest, result =>
      (read parser).bind fun found =>
        Parsed.bind (some (merge result found)) fun result => mergeParsed read rest result

/-- The name of the class and the parser for it. A class is imported unless one of its name is
known. What an import adds to the parsers of the union is not kept from one call to the next. -/
def importAndRegisterClass (parsers : List (EnvText × EnvParser)) (fullClassName : EnvText) :
    Except EnvError (EnvText × EnvParser) :=
  let className := (fullClassName.reverse.takeWhile (· ≠ '.')).reverse
  match Entries.get? parsers className with
  | some parser => .ok (className, parser)
  | none =>
      let moduleName := fullClassName.take (fullClassName.length - className.length - 1)
      (host.importClass moduleName className).map fun parser => (className, parser)

/-- A full class name has a dot. -/
def kindParser (parsers : List (EnvText × EnvParser)) (kind : EnvText) :
    Except EnvError (EnvText × EnvParser) :=
  if '.' ∈ kind then host.importAndRegisterClass parsers kind
  else
    match Entries.get? parsers kind with
    | some parser => .ok (kind, parser)
    | none => .error .key

/-- The kind that a variable gives, or else the only kind there is. -/
def kindOf (parsers : List (EnvText × EnvParser)) (key : EnvText) : Option EnvText :=
  match host.getenv (key ++ "_KIND".toList) with
  | some kind => some kind
  | none =>
      match parsers with
      | [only] => some only.1
      | _ => none

def withKind (kind : EnvText) (found : JsonType Float) : Except EnvError (JsonType Float) :=
  match found with
  | .missing => .ok (.dict [("kind".toList, .str kind)])
  | .dict entries => .ok (.dict (Entries.set entries "kind".toList (.str kind)))
  | _ => .error .type

def fromEnv : Nat → EnvParser → EnvText → Parsed (JsonType Float)
  | 0, _, _ => none
  | fuel + 1, parser, key =>
      match parser with
      | .bool =>
          match host.getenv key with
          | none => .ok .missing
          | some value => .ok (.bool (host.isTrue value))
      | .int =>
          match host.getenv key with
          | none => .ok .missing
          | some value => some ((host.int value).map .int)
      | .float =>
          match host.getenv key with
          | none => .ok .missing
          | some value => some ((host.float value).map .float)
      | .str =>
          match host.getenv key with
          | none => .ok .missing
          | some value => .ok (.str value)
      | .none =>
          if host.isTrue ((host.getenv (key ++ "_IS_NONE".toList)).getD []) then .ok .none
          else .ok .missing
      | .literal values =>
          if host.getenv key ∈ values then
            match host.getenv key with
            | none => .ok .none
            | some value => .ok (.str value)
          else .ok .missing
      | .model parsers =>
          Parsed.bind (some (host.readObject key)) fun base =>
            (host.overrideFields (fromEnv fuel) key parsers base).bind fun result =>
              .ok (toDict result)
      | .dict =>
          Parsed.bind (some (host.readObject key)) fun result => .ok (toDict result)
      | .list itemParser =>
          match host.getenv key with
          | none =>
              (readItems (fromEnv fuel itemParser) key fuel 0 []).bind fun items =>
                .ok (if items = [] then .missing else .list items)
          | some value =>
              Parsed.bind (some (host.readList value)) fun items =>
                (fillItems (fromEnv fuel itemParser) key 0 items).bind fun items =>
                  .ok (.list items)
      | .union parsers => mergeParsed (fromEnv fuel · key) parsers .missing
      | .discriminated parsers =>
          match host.kindOf parsers key with
          | none => .ok .missing
          | some kind =>
              Parsed.bind (some (host.kindParser parsers kind)) fun chosen =>
                (fromEnv fuel chosen.2 key).bind fun found =>
                  if found.isMissing ∧ host.getenv (key ++ "_KIND".toList) = none then
                    .ok .missing
                  else some (withKind chosen.1 found)
      | .delayed target =>
          match host.parser target with
          | none => .raise .assertion
          | some parser => fromEnv fuel parser key

end EnvHost

end ShuttleFlow
