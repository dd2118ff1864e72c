import ShuttleFlow.Library.Dict

/-! # JSON as Python writes and reads it

Floats are whatever can be written as a number with a fraction or an exponent, and read again.
-/

namespace ShuttleFlow

namespace JsonText

/-! ## Numbers -/

/-- The digits of an integer that may be negative. -/
def intText (value : Int) : List Char :=
  if value < 0 then '-' :: Nat.toDigits 10 value.natAbs else Nat.toDigits 10 value.natAbs

/-- The value of an integer text. -/
def intValue (text : List Char) : Int :=
  if text.head? = some '-' then -(Nat.ofDigitChars 10 text.tail 0 : Int)
  else (Nat.ofDigitChars 10 text 0 : Int)

/-- No digits before the others may be zero. -/
def scanNat (text : List Char) : Option (List Char × List Char) :=
  match text with
  | [] => none
  | c :: rest =>
      if c = '0' then some (['0'], rest)
      else if c.isDigit then some (c :: rest.takeWhile Char.isDigit, rest.dropWhile Char.isDigit)
      else none

def scanInt (text : List Char) : Option (List Char × List Char) :=
  match text with
  | [] => none
  | c :: rest =>
      if c = '-' then (scanNat rest).map fun found => ('-' :: found.1, found.2) else scanNat text

def scanFraction (text : List Char) : List Char × List Char :=
  match text with
  | [] => ([], [])
  | c :: rest =>
      if c = '.' ∧ rest.takeWhile Char.isDigit ≠ [] then
        ('.' :: rest.takeWhile Char.isDigit, rest.dropWhile Char.isDigit)
      else ([], text)

def signLength (text : List Char) : Nat :=
  if text.head? = some '+' ∨ text.head? = some '-' then 1 else 0

def scanExponent (text : List Char) : List Char × List Char :=
  match text with
  | [] => ([], [])
  | c :: rest =>
      let behind := rest.drop (signLength rest)
      if (c = 'e' ∨ c = 'E') ∧ behind.takeWhile Char.isDigit ≠ [] then
        (c :: rest.take (signLength rest) ++ behind.takeWhile Char.isDigit,
          behind.dropWhile Char.isDigit)
      else ([], text)

/-- The parts of a number: its integer, its fraction and exponent, and what is behind it. -/
def scanNumber (text : List Char) : Option (List Char × List Char × List Char) :=
  (scanInt text).map fun found =>
    let fraction := scanFraction found.2
    let exponent := scanExponent fraction.2
    (found.1, fraction.1 ++ exponent.1, exponent.2)

/-- What is behind a number does not go on with it. -/
def NumberEnds (rest : List Char) : Prop :=
  ∀ c ∈ rest.head?, c.isDigit = false ∧ c ≠ '.' ∧ c ≠ 'e' ∧ c ≠ 'E'

/-! ## Strings -/

def hexText (code : Nat) : List Char :=
  [Nat.digitChar (code / 4096), Nat.digitChar (code / 256 % 16), Nat.digitChar (code / 16 % 16),
    Nat.digitChar (code % 16)]

/-- What stands for a character in a string. Only ASCII is written. -/
def escapeChar (c : Char) : List Char :=
  if c = '"' then ['\\', '"']
  else if c = '\\' then ['\\', '\\']
  else if c = '\n' then ['\\', 'n']
  else if c = '\r' then ['\\', 'r']
  else if c = '\t' then ['\\', 't']
  else if c.toNat = 8 then ['\\', 'b']
  else if c.toNat = 12 then ['\\', 'f']
  else if 32 ≤ c.toNat ∧ c.toNat < 127 then [c]
  else if c.toNat < 65536 then '\\' :: 'u' :: hexText c.toNat
  else
    '\\' :: 'u' :: hexText (0xD800 + (c.toNat - 65536) / 1024) ++
      '\\' :: 'u' :: hexText (0xDC00 + (c.toNat - 65536) % 1024)

def stringText (value : List Char) : List Char :=
  '"' :: value.flatMap escapeChar ++ ['"']

def hexValue? (c : Char) : Option Nat :=
  if c.isDigit then some (c.toNat - 48)
  else if 'a' ≤ c ∧ c ≤ 'f' then some (c.toNat - 87)
  else if 'A' ≤ c ∧ c ≤ 'F' then some (c.toNat - 55)
  else none

def scanHex (text : List Char) : Option (Nat × List Char) :=
  match text with
  | first :: second :: third :: fourth :: rest => do
      let first ← hexValue? first
      let second ← hexValue? second
      let third ← hexValue? third
      let fourth ← hexValue? fourth
      some (((first * 16 + second) * 16 + third) * 16 + fourth, rest)
  | _ => none

/-- The second one of two characters that stand for one. -/
def scanLow (high : Nat) (text : List Char) : Option (Char × List Char) :=
  if ['\\', 'u'] <+: text then
    match scanHex (text.drop 2) with
    | none => none
    | some (low, rest) =>
        if 0xDC00 ≤ low ∧ low < 0xE000 then
          some (Char.ofNat (65536 + (high - 0xD800) * 1024 + (low - 0xDC00)), rest)
        else none
  else none

def scanUnicode (text : List Char) : Option (Char × List Char) :=
  match scanHex text with
  | none => none
  | some (code, rest) =>
      if 0xD800 ≤ code ∧ code < 0xDC00 then scanLow code rest
      else if 0xDC00 ≤ code ∧ code < 0xE000 then none
      else some (Char.ofNat code, rest)

/-- What is behind a backslash. -/
def scanEscape (text : List Char) : Option (Char × List Char) :=
  match text with
  | [] => none
  | c :: rest =>
      if c = '"' ∨ c = '\\' ∨ c = '/' then some (c, rest)
      else if c = 'n' then some ('\n', rest)
      else if c = 'r' then some ('\r', rest)
      else if c = 't' then some ('\t', rest)
      else if c = 'b' then some (Char.ofNat 8, rest)
      else if c = 'f' then some (Char.ofNat 12, rest)
      else if c = 'u' then scanUnicode rest
      else none

/-- A string is read up to its closing quote. There are as many characters as there is fuel. -/
def scanString : Nat → List Char → Option (List Char × List Char)
  | 0, _ => none
  | _, [] => none
  | fuel + 1, c :: rest =>
      if c = '"' then some ([], rest)
      else if c = '\\' then
        match scanEscape rest with
        | none => none
        | some (escaped, behind) =>
            (scanString fuel behind).map fun found => (escaped :: found.1, found.2)
      else if c.toNat < 32 then none
      else (scanString fuel rest).map fun found => (c :: found.1, found.2)

end JsonText

/-- How floats are written and read. -/
structure FloatFormat (Float : Type) where
  repr : Float → List Char
  read : List Char → Float
  read_repr : ∀ value, read (repr value) = value
  scanNumber_repr : ∀ value, ∃ whole tail, tail ≠ [] ∧ repr value = whole ++ tail ∧
    ∀ rest, JsonText.NumberEnds rest →
      JsonText.scanNumber (repr value ++ rest) = some (whole, tail, rest)

/-- A value of JSON. -/
inductive JsonValue (Float : Type)
  | null
  | bool (value : Bool)
  | int (value : Int)
  | float (value : Float)
  | str (value : List Char)
  | arr (items : List (JsonValue Float))
  | obj (entries : List (List Char × JsonValue Float))

namespace JsonText

variable {Float : Type} (format : FloatFormat Float)

/-! ## Values -/

mutual

/-- `json.dumps`. -/
def dumps : JsonValue Float → List Char
  | .null => "null".toList
  | .bool true => "true".toList
  | .bool false => "false".toList
  | .int value => intText value
  | .float value => format.repr value
  | .str value => stringText value
  | .arr [] => ['[', ']']
  | .arr (first :: rest) => '[' :: (dumps first ++ dumpItems rest)
  | .obj [] => ['{', '}']
  | .obj ((key, first) :: rest) =>
      '{' :: (stringText key ++ ':' :: ' ' :: (dumps first ++ dumpEntries rest))

def dumpItems : List (JsonValue Float) → List Char
  | [] => [']']
  | item :: rest => ',' :: ' ' :: (dumps item ++ dumpItems rest)

def dumpEntries : List (List Char × JsonValue Float) → List Char
  | [] => ['}']
  | (key, value) :: rest =>
      ',' :: ' ' :: (stringText key ++ ':' :: ' ' :: (dumps value ++ dumpEntries rest))

end

def isBlank (c : Char) : Bool :=
  c = ' ' || c = '\t' || c = '\n' || c = '\r'

def skipBlank (text : List Char) : List Char :=
  text.dropWhile isBlank

def scanWord (text : List Char) : Option (JsonValue Float × List Char) :=
  if "null".toList <+: text then some (.null, text.drop 4)
  else if "true".toList <+: text then some (.bool true, text.drop 4)
  else if "false".toList <+: text then some (.bool false, text.drop 5)
  else none

def numberValue (whole tail : List Char) : JsonValue Float :=
  if tail = [] then .int (intValue whole) else .float (format.read (whole ++ tail))

/-- A key and its colon. -/
def scanKey (text : List Char) : Option (List Char × List Char) :=
  if text.head? = some '"' then
    match scanString text.tail.length text.tail with
    | none => none
    | some (key, rest) =>
        if (skipBlank rest).head? = some ':' then some (key, skipBlank (skipBlank rest).tail)
        else none
  else none

/-- Of two entries with one key the later one counts. -/
def dictionary (pairs : List (List Char × JsonValue Float)) :
    List (List Char × JsonValue Float) :=
  (pairs.foldl (fun dict pair => dict.set pair.1 pair.2) Dict.empty).entries

mutual

/-- A value and what is behind it. Each call consumes a character. -/
def scanOnce : Nat → List Char → Option (JsonValue Float × List Char)
  | 0, _ => none
  | _, [] => none
  | fuel + 1, c :: rest =>
      if c = '"' then
        (scanString rest.length rest).map fun found => (.str found.1, found.2)
      else if c = '[' then
        if (skipBlank rest).head? = some ']' then some (.arr [], (skipBlank rest).tail)
        else
          match scanOnce fuel (skipBlank rest) with
          | none => none
          | some (first, behind) =>
              (scanItems fuel behind).map fun found => (.arr (first :: found.1), found.2)
      else if c = '{' then
        if (skipBlank rest).head? = some '}' then some (.obj [], (skipBlank rest).tail)
        else
          match scanKey (skipBlank rest) with
          | none => none
          | some (key, behind) =>
              match scanOnce fuel behind with
              | none => none
              | some (first, behind) =>
                  (scanEntries fuel behind).map fun found =>
                    (.obj (dictionary ((key, first) :: found.1)), found.2)
      else
        match scanWord (c :: rest) with
        | some found => some found
        | none =>
            (scanNumber (c :: rest)).map fun found =>
              (numberValue format found.1 found.2.1, found.2.2)

def scanItems : Nat → List Char → Option (List (JsonValue Float) × List Char)
  | 0, _ => none
  | fuel + 1, text =>
      match skipBlank text with
      | [] => none
      | c :: rest =>
          if c = ']' then some ([], rest)
          else if c = ',' then
            match scanOnce fuel (skipBlank rest) with
            | none => none
            | some (item, behind) =>
                (scanItems fuel behind).map fun found => (item :: found.1, found.2)
          else none

def scanEntries : Nat → List Char → Option (List (List Char × JsonValue Float) × List Char)
  | 0, _ => none
  | fuel + 1, text =>
      match skipBlank text with
      | [] => none
      | c :: rest =>
          if c = '}' then some ([], rest)
          else if c = ',' then
            match scanKey (skipBlank rest) with
            | none => none
            | some (key, behind) =>
                match scanOnce fuel behind with
                | none => none
                | some (value, behind) =>
                    (scanEntries fuel behind).map fun found => ((key, value) :: found.1, found.2)
          else none

end

/-- `json.loads`. -/
def loads (text : List Char) : Option (JsonValue Float) :=
  match scanOnce format (text.length + 1) (skipBlank text) with
  | none => none
  | some (value, rest) => if skipBlank rest = [] then some value else none

end JsonText

end ShuttleFlow
