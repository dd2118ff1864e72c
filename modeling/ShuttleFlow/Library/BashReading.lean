import Mathlib.Data.List.Basic

/-! # Assignments as bash reads them

A value in `$'...'` is read from left to right, up to the first quote that is not escaped. What
bash makes of an escape with a number or a control character is a parameter.
-/

namespace ShuttleFlow.BashReading

/-! ## Names -/

def isNameStart (c : Char) : Bool :=
  c.isAlpha || c = '_'

def isNameChar (c : Char) : Bool :=
  c.isAlphanum || c = '_'

/-- A letter or an underscore, and letters, digits and underscores behind it. -/
def isIdentifier (name : List Char) : Bool :=
  match name with
  | [] => false
  | c :: rest => isNameStart c && rest.all isNameChar

theorem isNameChar_of_start {c : Char} (hstart : isNameStart c = true) : isNameChar c = true := by
  simp only [isNameStart, isNameChar, Char.isAlphanum, Bool.or_eq_true] at hstart ⊢
  tauto

theorem isNameChar_of_identifier {name : List Char} (hname : isIdentifier name = true) :
    ∀ c ∈ name, isNameChar c = true := by
  cases name with
  | nil => cases hname
  | cons first rest =>
      rw [isIdentifier, Bool.and_eq_true, List.all_eq_true] at hname
      intro c hc
      rcases List.mem_cons.mp hc with rfl | hrest
      · exact isNameChar_of_start hname.1
      · exact hname.2 c hrest

/-! ## Values -/

/-- The escapes that stand for one character. -/
def simpleEscape (c : Char) : Option Char :=
  if c = '\\' ∨ c = '\'' ∨ c = '"' ∨ c = '?' then some c
  else if c = 'n' then some '\n'
  else if c = 'r' then some '\r'
  else if c = 't' then some '\t'
  else if c = 'a' then some (Char.ofNat 7)
  else if c = 'b' then some (Char.ofNat 8)
  else if c = 'v' then some (Char.ofNat 11)
  else if c = 'f' then some (Char.ofNat 12)
  else if c = 'e' ∨ c = 'E' then some (Char.ofNat 27)
  else none

variable (numbered : List Char → Option (List Char × List Char))

/-- What stands for a backslash and the text behind it, and what is left. -/
def readEscape (text : List Char) : Option (List Char × List Char) :=
  match text with
  | [] => none
  | c :: rest =>
      match simpleEscape c with
      | some escaped => some ([escaped], rest)
      | none =>
          match numbered text with
          | some found => some found
          | none => some (['\\', c], rest)

/-- The text behind `$'`, and what is behind the closing quote. There are as many characters as
there is fuel. -/
def readQuoted : Nat → List Char → Option (List Char × List Char)
  | 0, _ => none
  | _, [] => none
  | fuel + 1, c :: rest =>
      if c = '\'' then some ([], rest)
      else if c = '\\' then
        match readEscape numbered rest with
        | none => none
        | some (escaped, behind) =>
            (readQuoted fuel behind).map fun found => (escaped ++ found.1, found.2)
      else (readQuoted fuel rest).map fun found => (c :: found.1, found.2)

/-! ## Chains -/

def exportWord : List Char := "export ".toList

def quoteStart : List Char := "=$'".toList

def andSign : List Char := " && ".toList

/-- What is behind a text that has to come first. -/
def behind? (first text : List Char) : Option (List Char) :=
  if first <+: text then some (text.drop first.length) else none

theorem behind?_append (first rest : List Char) : behind? first (first ++ rest) = some rest := by
  rw [behind?, if_pos (List.prefix_append _ _), List.drop_left]

/-- `NAME=$'...'`, and what is behind it. -/
def readAssignment (text : List Char) : Option ((List Char × List Char) × List Char) :=
  let name := text.takeWhile isNameChar
  if isIdentifier name then
    match behind? quoteStart (text.dropWhile isNameChar) with
    | none => none
    | some quoted =>
        (readQuoted numbered (quoted.length + 1) quoted).map fun found =>
          ((name, found.1), found.2)
  else none

/-- Assignments by `export`, with `&&` between them. -/
def readChain : Nat → List Char → Option (List (List Char × List Char))
  | 0, _ => none
  | fuel + 1, text =>
      match (behind? exportWord text).bind (readAssignment numbered) with
      | none => none
      | some (assigned, rest) =>
          if rest = [] then some [assigned]
          else
            match behind? andSign rest with
            | none => none
            | some later => (readChain fuel later).map fun found => assigned :: found

/-- A command that does nothing but assign. -/
def readExports (text : List Char) : Option (List (List Char × List Char)) :=
  if text = [] then some [] else readChain numbered text.length text

/-! ## Reading back -/

variable {numbered}

/-- Each character is written as something that is read as the character. -/
structure Escapes (numbered : List Char → Option (List Char × List Char))
    (escape : Char → List Char) : Prop where
  reads : ∀ c fuel rest, readQuoted numbered (fuel + 1) (escape c ++ rest) =
    (readQuoted numbered fuel rest).map fun found => (c :: found.1, found.2)
  written : ∀ c, escape c ≠ []

variable {escape : Char → List Char}

theorem readQuoted_flatMap (hescapes : Escapes numbered escape) (value rest : List Char)
    {fuel : Nat} (hfuel : value.length < fuel) :
    readQuoted numbered fuel (value.flatMap escape ++ '\'' :: rest) = some (value, rest) := by
  induction value generalizing fuel with
  | nil =>
      obtain ⟨fuel, rfl⟩ := Nat.exists_eq_succ_of_ne_zero (Nat.ne_zero_of_lt hfuel)
      rw [List.flatMap_nil, List.nil_append, readQuoted, if_pos rfl]
  | cons c value ih =>
      obtain ⟨fuel, rfl⟩ := Nat.exists_eq_succ_of_ne_zero (Nat.ne_zero_of_lt hfuel)
      rw [List.flatMap_cons, List.append_assoc, hescapes.reads,
        ih (Nat.lt_of_succ_lt_succ hfuel)]
      rfl

theorem Escapes.length_le (hescapes : Escapes numbered escape) (value : List Char) :
    value.length ≤ (value.flatMap escape).length := by
  induction value with
  | nil => exact Nat.le_refl _
  | cons c value ih =>
      have hpositive := List.length_pos_iff.mpr (hescapes.written c)
      rw [List.flatMap_cons, List.length_append, List.length_cons]
      omega

/-- An assignment with the value escaped. -/
def exportText (escape : Char → List Char) (assigned : List Char × List Char) : List Char :=
  exportWord ++ (assigned.1 ++ (quoteStart ++ (assigned.2.flatMap escape ++ ['\''])))

theorem name_ends (rest : List Char) :
    (quoteStart ++ rest).takeWhile isNameChar = [] ∧
      (quoteStart ++ rest).dropWhile isNameChar = quoteStart ++ rest := by
  have hletters : quoteStart = ['=', '$', '\''] := rfl
  rw [hletters, List.cons_append, List.takeWhile_cons_of_neg (by decide),
    List.dropWhile_cons_of_neg (by decide)]
  exact ⟨rfl, rfl⟩

theorem readAssignment_text (hescapes : Escapes numbered escape)
    {name : List Char} (hname : isIdentifier name = true) (value rest : List Char) :
    readAssignment numbered
        (name ++ (quoteStart ++ (value.flatMap escape ++ '\'' :: rest))) =
      some ((name, value), rest) := by
  have hchars := isNameChar_of_identifier hname
  have hlength := hescapes.length_le value
  simp only [readAssignment, List.takeWhile_append_of_pos hchars,
    List.dropWhile_append_of_pos hchars, (name_ends _).1, (name_ends _).2, List.append_nil,
    if_pos hname, behind?_append]
  rw [readQuoted_flatMap hescapes]
  · rfl
  · rw [List.length_append]
    omega

theorem readExport_exportText (hescapes : Escapes numbered escape)
    {assigned : List Char × List Char} (hname : isIdentifier assigned.1 = true)
    (rest : List Char) :
    (behind? exportWord (exportText escape assigned ++ rest)).bind
      (readAssignment numbered) = some (assigned, rest) := by
  obtain ⟨name, value⟩ := assigned
  have htext : exportText escape (name, value) ++ rest =
      exportWord ++ (name ++ (quoteStart ++ (value.flatMap escape ++ '\'' :: rest))) := by
    rw [exportText, List.append_assoc, List.append_assoc, List.append_assoc, List.append_assoc,
      List.singleton_append]
  rw [htext, behind?_append, Option.bind_some, readAssignment_text hescapes hname]

theorem readChain_intercalate (hescapes : Escapes numbered escape)
    {entries : List (List Char × List Char)}
    (hnames : ∀ entry ∈ entries, isIdentifier entry.1 = true)
    (hsome : entries ≠ []) {fuel : Nat} (hfuel : entries.length ≤ fuel) :
    readChain numbered fuel (andSign.intercalate (entries.map (exportText escape))) =
      some entries := by
  induction entries generalizing fuel with
  | nil => exact absurd rfl hsome
  | cons first rest ih =>
      obtain ⟨fuel, rfl⟩ := Nat.exists_eq_succ_of_ne_zero (Nat.ne_zero_of_lt hfuel)
      have hfirst := hnames first List.mem_cons_self
      cases rest with
      | nil =>
          have hread := readExport_exportText hescapes hfirst []
          rw [List.append_nil] at hread
          rw [List.map_singleton, List.intercalate_singleton, readChain, hread]
          rfl
      | cons second later =>
          have hrest := ih (fun entry hentry => hnames entry (.tail _ hentry))
            (List.cons_ne_nil _ _) (Nat.le_of_succ_le_succ hfuel)
          have hmore : ∀ rest : List Char, andSign ++ rest ≠ [] := by
            intro rest hnil
            have hletters : andSign = [' ', '&', '&', ' '] := rfl
            rw [hletters] at hnil
            exact List.cons_ne_nil _ _ hnil
          rw [List.map_cons] at hrest ⊢
          rw [List.map_cons, List.intercalate_cons_cons, List.append_assoc, readChain,
            readExport_exportText hescapes hfirst]
          simp only [if_neg (hmore _), behind?_append, hrest, Option.map_some]

end ShuttleFlow.BashReading
