import ShuttleFlow.Library.JsonRepair
import ShuttleFlow.Library.JsonRoundTrip

/-! # Arguments of tool calls

A model writes the arguments as JSON, at times with raw control characters in its strings. A text
that cannot be loaded is loaded again with each control character replaced by its escape, also
where it stands between two tokens.
-/

namespace ShuttleFlow

namespace ToolArguments

open JsonTree

variable {Float : Type} (read : List Char → Float)

/-! ## Loading arguments -/

/-- `_escape_control_char`, with `_CTRL_ESCAPE_TABLE`. -/
def escapeControlChar (ch : Char) : List Char :=
  if ch.toNat = 8 then ['\\', 'b']
  else if ch.toNat = 9 then ['\\', 't']
  else if ch.toNat = 10 then ['\\', 'n']
  else if ch.toNat = 12 then ['\\', 'f']
  else if ch.toNat = 13 then ['\\', 'r']
  else '\\' :: 'u' :: JsonText.hexText ch.toNat

def sanitizeJsonControlChars (raw : List Char) : List Char :=
  repair escapeControlChar raw

/-- A string of the source as a string of JSON. -/
def units (text : String) : List Nat :=
  text.toList.map Char.toNat

def securityRiskTypos : List (List Nat) :=
  [units "security_rort", units "securtiy_risk", units "security_riks"]

/-- The typos are a set. A process goes through it in an order of its own. -/
structure TypoOrder where
  order : List (List Nat)
  perm : order.Perm securityRiskTypos

/-- `_normalize_arguments`. -/
def normalizeArguments (typos : TypoOrder) (arguments : Dict (List Nat) (JsonTree Float)) :
    Dict (List Nat) (JsonTree Float) :=
  let normalized :=
    match typos.order.find? fun typo => typo ∈ arguments.keys with
    | none => arguments
    | some typo =>
        match arguments.get? typo with
        | none => arguments
        | some value => (arguments.erase typo).set (units "security_risk") value
  normalized.filterMap fun _ value =>
    match value with
    | .null => none
    | value => some value

def asDictionary (parsed : JsonTree Float) : Dict (List Nat) (JsonTree Float) :=
  match parsed with
  | .obj entries => dictionary entries
  | _ => Dict.empty

/-- `parse_tool_call_arguments`. There is nothing if the second attempt fails too. -/
def parseToolCallArguments (typos : TypoOrder) (rawArguments : List Char) :
    Option (Dict (List Nat) (JsonTree Float)) :=
  let parsed :=
    match loads read (literal true) rawArguments with
    | some parsed => some parsed
    | none => loads read (literal true) (sanitizeJsonControlChars rawArguments)
  parsed.map fun parsed => normalizeArguments typos (asDictionary parsed)

/-! ## The escapes -/

theorem escapeControlChar_cases (c : Char) :
    (∃ letter, escapeControlChar c = ['\\', letter] ∧ letter ≠ 'u' ∧
      ∀ rest, scanEscape (letter :: rest) = some (c.toNat, rest)) ∨
    escapeControlChar c = '\\' :: 'u' :: JsonText.hexText c.toNat := by
  rw [escapeControlChar]
  split_ifs with hb ht hn hf hr
  · exact .inl ⟨'b', rfl, by decide, fun rest => by rw [hb]; rfl⟩
  · exact .inl ⟨'t', rfl, by decide, fun rest => by rw [ht]; rfl⟩
  · exact .inl ⟨'n', rfl, by decide, fun rest => by rw [hn]; rfl⟩
  · exact .inl ⟨'f', rfl, by decide, fun rest => by rw [hf]; rfl⟩
  · exact .inl ⟨'r', rfl, by decide, fun rest => by rw [hr]; rfl⟩
  · exact .inr rfl

theorem escapesControl_escapeControlChar : EscapesControl escapeControlChar where
  reads := by
    intro c hcontrol
    have hcode : c.toNat < 32 := of_decide_eq_true hcontrol
    rcases escapeControlChar_cases c with ⟨letter, hletter, -, hreads⟩ | hnumber
    · exact ⟨[letter], hletter, hreads⟩
    · refine ⟨_, hnumber, fun rest => ?_⟩
      have hhex := JsonText.scanHex_hexText (show c.toNat < 65536 by omega) rest
      have hunit : scanEscape ('u' :: JsonText.hexText c.toNat ++ rest) =
          scanUnit (JsonText.hexText c.toNat ++ rest) := rfl
      rw [hunit, scanUnit, hhex]
      simp only
      rw [if_neg (by omega)]
  whole := by
    intro c hcontrol rest
    have hcode : c.toNat < 32 := of_decide_eq_true hcontrol
    rcases escapeControlChar_cases c with ⟨letter, hletter, hne, -⟩ | hnumber
    · rw [hletter, List.cons_append, List.cons_append, List.nil_append]
      refine lowHalf_other ?_
      rw [List.cons_prefix_cons, List.cons_prefix_cons]
      exact fun hstart => hne hstart.2.1.symm
    · have hhex := JsonText.scanHex_hexText (show c.toNat < 65536 by omega) rest
      rw [hnumber, List.cons_append, List.cons_append, lowHalf_prefixed, hhex]
      simp only
      rw [if_neg (by omega)]

/-! ## Texts that are tolerated -/

variable {read}

/-- A text that is an object but for raw control characters in its strings has its arguments. -/
def ArgumentsFound (read : List Char → Float) (typos : TypoOrder) (text : List Char) : Prop :=
  ∀ entries, loads read (literal false) text = some (.obj entries) →
    parseToolCallArguments read typos text = some (normalizeArguments typos (dictionary entries))

/-- Sanitizing does not change what a text of JSON stands for. -/
def ValueKept (read : List Char → Float) (text : List Char) : Prop :=
  ∀ value, loads read (literal true) text = some value →
    loads read (literal true) (sanitizeJsonControlChars text) = some value

def Tolerated (read : List Char → Float) (typos : TypoOrder) (text : List Char) : Prop :=
  ArgumentsFound read typos text ∧ ValueKept read text

/-- An object but for raw control characters in its strings, or a text of JSON. -/
def Loadable (read : List Char → Float) (text : List Char) : Prop :=
  (∃ entries, loads read (literal false) text = some (.obj entries)) ∨
    ∃ value, loads read (literal true) text = some value

theorem loads_sanitized {text : List Char} {value : JsonTree Float}
    (hloose : loads read (literal false) text = some value) :
    loads read (literal true) (sanitizeJsonControlChars text) =
      if controlOutside .outside text then none else some value :=
  loads_repair escapesControl_escapeControlChar hloose

/-- The arguments are found at the first attempt, or at the second one. -/
theorem argumentsFound_iff (typos : TypoOrder) {text : List Char}
    {entries : List (List Nat × JsonTree Float)}
    (hloose : loads read (literal false) text = some (.obj entries)) :
    ArgumentsFound read typos text ↔
      (loads read (literal true) text).isSome ∨ controlOutside .outside text = false := by
  have hsanitized := loads_sanitized hloose
  have honly : ArgumentsFound read typos text ↔ parseToolCallArguments read typos text =
      some (normalizeArguments typos (dictionary entries)) := by
    constructor
    · exact fun hfound => hfound entries hloose
    · intro hparse others hothers
      obtain rfl := JsonTree.obj.inj (Option.some.inj (hloose.symm.trans hothers))
      exact hparse
  rw [honly, parseToolCallArguments]
  cases hstrict : loads read (literal true) text with
  | some value =>
      obtain rfl := Option.some.inj ((loads_loose hstrict).symm.trans hloose)
      simp [asDictionary]
  | none =>
      simp only [hsanitized, Option.isSome_none, Bool.false_eq_true, false_or]
      cases controlOutside .outside text with
      | true => simp
      | false => simp [asDictionary]

theorem valueKept_iff {text : List Char} {value : JsonTree Float}
    (hstrict : loads read (literal true) text = some value) :
    ValueKept read text ↔ controlOutside .outside text = false := by
  have hsanitized := loads_sanitized (loads_loose hstrict)
  constructor
  · intro hkept
    have hsame := hkept value hstrict
    rw [hsanitized] at hsame
    cases houtside : controlOutside .outside text with
    | true =>
        rw [houtside, if_pos rfl] at hsame
        cases hsame
    | false => rfl
  · intro houtside other hother
    rw [hsanitized, houtside, ← hother, hstrict]
    rfl

/-- A newline between two tokens, and a tab in a string. -/
def indentedText : List Char :=
  ['\x7b', '\n', '"', 'a', '"', ':', '"', '\t', '"', '\x7d']

end ToolArguments

end ShuttleFlow
