import Mathlib.Data.List.Infix
import ShuttleFlow.Library.PythonText

/-! # The metadata in prompts -/

namespace ShuttleFlow

structure CmdOutputMetadata where
  exitCode : Int := -1
  pid : Int := -1
  username : Option (List Char) := none
  hostname : Option (List Char) := none
  workingDir : Option (List Char) := none
  pyInterpreterPath : Option (List Char) := none
  outputPrefix : List Char := []
  outputSuffix : List Char := []
  deriving DecidableEq

namespace CmdOutputMetadata

def ps1Begin : List Char := "###PS1JSON###".toList

def ps1End : List Char := "###PS1END###".toList

/-- A match of a block, and what stands between its markers. -/
structure Ps1Block where
  start : Nat
  stop : Nat
  content : List Char
  deriving DecidableEq

/-- How much stands in front of the end marker. Another begin marker must not come first. -/
def contentLength : List Char → Option Nat
  | [] => none
  | first :: rest =>
      if ps1End <+: first :: rest then some 0
      else if ps1Begin <+: first :: rest then none
      else (contentLength rest).map (· + 1)

/-- The content of the block that begins here, at the beginning of a line. -/
def blockAt (lineStart : Bool) (text : List Char) : Option (List Char) :=
  if lineStart && ps1Begin <+: text then
    let behind := text.drop ps1Begin.length
    (contentLength behind).map behind.take
  else none

/-- The blocks of a text. The first `skip` characters belong to a block already. -/
def blocksFrom : (lineStart : Bool) → (position skip : Nat) → List Char → List Ps1Block
  | _, _, _, [] => []
  | _, position, skip + 1, first :: rest => blocksFrom (first = '\n') (position + 1) skip rest
  | lineStart, position, 0, first :: rest =>
      match blockAt lineStart (first :: rest) with
      | none => blocksFrom (first = '\n') (position + 1) 0 rest
      | some content =>
          let length := ps1Begin.length + content.length + ps1End.length
          { start := position, stop := position + length, content } ::
            blocksFrom (first = '\n') (position + 1) (length - 1) rest

/-- What becomes of a text that is read as JSON. Texts that are nested too deeply, or hold too
long a number, raise another error. -/
inductive Loaded (Value : Type)
  | value (value : Value)
  | decodeError
  | raised (error : String)

variable {Value : Type}

/-- The blocks whose content can be read. -/
def readable (loads : List Char → Loaded Value) : List Ps1Block → Except String (List Ps1Block)
  | [] => .ok []
  | block :: rest =>
      match loads (PythonText.trim block.content) with
      | .value _ => (readable loads rest).map (block :: ·)
      | .decodeError => readable loads rest
      | .raised error => .error error

def matchesPs1Metadata (loads : List Char → Loaded Value) (text : List Char) :
    Except String (List Ps1Block) :=
  readable loads (blocksFrom true 0 0 text)

/-! ## Decoding -/

/-- A value that JSON is read as. A text with half of a surrogate pair is no Unicode text. -/
inductive MetadataValue (Float : Type)
  | null
  | bool (value : Bool)
  | int (value : Int)
  | float (value : Float)
  | str (text : List Char)
  | surrogates (codes : List Nat)
  | arr (items : List (MetadataValue Float))
  | obj (entries : List (List Char × MetadataValue Float))

/-- What `float(str(value))` gives. A finite number is known by its whole part. -/
inductive ParsedFloat
  | invalid
  | nan
  | infinite
  | finite (whole : Int)
  | raised (error : String)

/-- How texts and values are read. -/
structure MetadataReader (Float : Type) where
  loads : List Char → Loaded (MetadataValue Float)
  float : MetadataValue Float → ParsedFloat

inductive DecodeFailure
  | jsonDecodeError
  | attributeError (message : String)
  | typeError (message : String)
  | overflowError (message : String)
  | validationError (fields : List (List Char))
  | indexError
  | raised (error : String)

abbrev MetadataEntries (Float : Type) : Type := List (List Char × MetadataValue Float)

namespace MetadataValue

variable {Float : Type}

def typeName : MetadataValue Float → String
  | .null => "NoneType"
  | .bool _ => "bool"
  | .int _ => "int"
  | .float _ => "float"
  | .str _ => "str"
  | .surrogates _ => "str"
  | .arr _ => "list"
  | .obj _ => "dict"

/-- The text of a field that must have one. -/
def text? : MetadataValue Float → Option (List Char)
  | .str text => some text
  | _ => none

/-- The text of a field that may have none. -/
def textOrNull? : MetadataValue Float → Option (Option (List Char))
  | .null => some none
  | .str text => some (some text)
  | _ => none

end MetadataValue

variable {Float : Type}

/-- The number in a field. Only an infinite one is not replaced when it is none. -/
def intField (reader : MetadataReader Float) (metadata : MetadataEntries Float)
    (field : List Char) : Except DecodeFailure Int :=
  match metadata.lookup field with
  | none => .ok (-1)
  | some value =>
      match reader.float value with
      | .invalid => .ok (-1)
      | .nan => .ok (-1)
      | .infinite => .error (.overflowError "cannot convert float infinity to integer")
      | .finite whole => .ok whole
      | .raised error => .error (.raised error)

def optionalField (metadata : MetadataEntries Float) (field : List Char) :
    Option (Option (List Char)) :=
  (metadata.lookup field).elim (some none) MetadataValue.textOrNull?

def textField (metadata : MetadataEntries Float) (field : List Char) : Option (List Char) :=
  (metadata.lookup field).elim (some []) MetadataValue.text?

def optionalFields : List (List Char) :=
  ["username".toList, "hostname".toList, "working_dir".toList, "py_interpreter_path".toList]

def textFields : List (List Char) :=
  ["prefix".toList, "suffix".toList]

/-- The fields that do not hold a text. -/
def invalidFields (metadata : MetadataEntries Float) : List (List Char) :=
  (optionalFields.filter fun field => (optionalField metadata field).isNone) ++
    textFields.filter fun field => (textField metadata field).isNone

/-- Only whole metadata is made. -/
def validate (metadata : MetadataEntries Float) (pid exitCode : Int) :
    Except DecodeFailure CmdOutputMetadata :=
  if invalidFields metadata = [] then
    .ok {
      exitCode, pid
      username := (optionalField metadata "username".toList).join
      hostname := (optionalField metadata "hostname".toList).join
      workingDir := (optionalField metadata "working_dir".toList).join
      pyInterpreterPath := (optionalField metadata "py_interpreter_path".toList).join
      outputPrefix := (textField metadata "prefix".toList).getD []
      outputSuffix := (textField metadata "suffix".toList).getD [] }
  else .error (.validationError (invalidFields metadata))

/-- A list is indexed by the fields it has, or is no mapping in the end. -/
def listMessage (items : List (MetadataValue Float)) : String :=
  if items.any fun item => item.text? = some "pid".toList ∨ item.text? = some "exit_code".toList
  then "list indices must be integers or slices, not str"
  else "openhands.tools.terminal.metadata.CmdOutputMetadata() argument after ** must be a " ++
    "mapping, not list"

def fromPs1Match (reader : MetadataReader Float) (block : Ps1Block) :
    Except DecodeFailure CmdOutputMetadata :=
  -- unlike before, the spaces around the content are kept
  match reader.loads block.content with
  | .decodeError => .error .jsonDecodeError
  | .raised error => .error (.raised error)
  | .value (.obj metadata) =>
      match intField reader metadata "pid".toList with
      | .error failure => .error failure
      | .ok pid =>
          match intField reader metadata "exit_code".toList with
          | .error failure => .error failure
          | .ok exitCode => validate metadata pid exitCode
  | .value (.arr items) => .error (.typeError (listMessage items))
  | .value value =>
      .error (.attributeError ("'" ++ value.typeName ++ "' object has no attribute 'copy'"))

end CmdOutputMetadata

end ShuttleFlow
