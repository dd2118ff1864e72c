import Mathlib.Data.List.Basic
import ShuttleFlow.Event.Basic

/-! # Names of event files

A name holds the index and the id of its event. Reading names back is stricter
than writing them: five digits, and an id of hexadecimal digits and dashes.
-/

namespace ShuttleFlow

/-- The decimal digits of Unicode. The names that are written use ASCII only. -/
structure DecimalDigits where
  value : Char → Option Nat
  ascii : ∀ char, char.isDigit → value char = some (char.toNat - '0'.toNat)

namespace EventName

/-- An index with at least five digits. -/
def padIndex (idx : Nat) : List Char := List.leftpad 5 '0' (Nat.toDigits 10 idx)

def nameChars (idx : Nat) (eventId : List Char) : List Char :=
  ['e', 'v', 'e', 'n', 't', '-'] ++ (padIndex idx ++ '-' :: (eventId ++ ['.', 'j', 's', 'o', 'n']))

/-- `EVENT_FILE_PATTERN`. -/
def format (idx : Nat) (eventId : EventID) : String := String.ofList (nameChars idx eventId.toList)

def number (digits : DecimalDigits) : List Char → Nat → Option Nat
  | [], total => some total
  | char :: rest, total =>
      (digits.value char).bind fun digit => number digits rest (10 * total + digit)

def isIdChar (char : Char) : Bool :=
  char.isDigit || ('a' ≤ char && char ≤ 'f') || ('A' ≤ char && char ≤ 'F') || char = '-'

/-- At least eight hexadecimal digits and dashes. -/
def isEventId (eventId : List Char) : Bool := 8 ≤ eventId.length && eventId.all isIdChar

/-- Drop the extension. As in Python, `$` also matches before a final newline. -/
def dropExtension (chars : List Char) : Option (List Char) :=
  let chars := if chars.getLast? = some '\n' then chars.dropLast else chars
  if ['.', 'j', 's', 'o', 'n'] <:+ chars then some (chars.take (chars.length - 5)) else none

/-- `EVENT_NAME_RE`. -/
def parse (digits : DecimalDigits) (name : String) : Option (Nat × EventID) := do
  let rest ← name.toList.dropPrefix? ['e', 'v', 'e', 'n', 't', '-']
  let idx ← if 5 ≤ rest.length then number digits (rest.take 5) 0 else none
  match rest.drop 5 with
  | '-' :: rest =>
      let eventId ← dropExtension rest
      if isEventId eventId then some (idx, String.ofList eventId) else none
  | _ => none

/-- Files are counted by prefix and extension alone. -/
def isCounted (name : String) : Bool :=
  ['e', 'v', 'e', 'n', 't', '-'] <+: name.toList && ['.', 'j', 's', 'o', 'n'] <:+ name.toList

/-! ## Reading back what is written -/

variable {digits : DecimalDigits}

theorem isDigit_of_mem_padIndex {idx : Nat} {char : Char} (hmem : char ∈ padIndex idx) :
    char.isDigit := by
  rw [padIndex, List.leftpad, List.mem_append] at hmem
  rcases hmem with hmem | hmem
  · rw [List.eq_of_mem_replicate hmem]
    rfl
  · exact Nat.isDigit_of_mem_toDigits (by decide) (by decide) hmem

theorem length_padIndex (idx : Nat) : 5 ≤ (padIndex idx).length := by
  rw [padIndex, List.length_leftpad]
  exact le_max_left ..

/-- Five digits are enough below a hundred thousand. -/
theorem length_padIndex_iff {idx : Nat} : (padIndex idx).length = 5 ↔ idx < 100000 := by
  have hdigits := @Nat.length_toDigits_le_iff 10 idx 5 (by decide) (by decide)
  rw [padIndex, List.length_leftpad]
  omega

theorem number_of_isDigit {chars : List Char} (hdigits : ∀ char ∈ chars, char.isDigit)
    (total : Nat) : number digits chars total = some (Nat.ofDigitChars 10 chars total) := by
  induction chars generalizing total with
  | nil => rfl
  | cons char rest ih =>
      rw [number, digits.ascii char (hdigits char List.mem_cons_self), Option.bind_some,
        ih fun other hother => hdigits other (.tail _ hother), Nat.ofDigitChars_cons]

theorem number_padIndex (idx : Nat) : number digits (padIndex idx) 0 = some idx := by
  have hzeros : ∀ count, Nat.ofDigitChars 10 (List.replicate count '0') 0 = 0 := by
    intro count
    induction count with
    | zero => rfl
    | succ count ih =>
        rw [List.replicate_succ, Nat.ofDigitChars_cons]
        exact ih
  rw [number_of_isDigit (fun _ => isDigit_of_mem_padIndex), padIndex, List.leftpad,
    Nat.ofDigitChars_append, hzeros, Nat.ofDigitChars_toDigits (by decide) (by decide)]

theorem dropExtension_append (eventId : List Char) :
    dropExtension (eventId ++ ['.', 'j', 's', 'o', 'n']) = some eventId := by
  simp [dropExtension]

theorem toList_format (idx : Nat) (eventId : EventID) :
    (format idx eventId).toList = nameChars idx eventId.toList := by
  rw [format, String.toList_ofList]

theorem isCounted_format (idx : Nat) (eventId : EventID) : isCounted (format idx eventId) := by
  rw [isCounted, toList_format, nameChars, Bool.and_eq_true]
  refine ⟨decide_eq_true (List.prefix_append _ _), decide_eq_true ?_⟩
  refine List.IsSuffix.trans ?_ (List.suffix_append _ _)
  refine List.IsSuffix.trans ?_ (List.suffix_append _ _)
  exact (List.suffix_append _ _).trans (List.suffix_cons _ _)

/-- A name is read back exactly when its index has five digits and its id is valid. -/
theorem parse_format (idx : Nat) (eventId : EventID) :
    parse digits (format idx eventId) =
      if idx < 100000 ∧ isEventId eventId.toList then some (idx, eventId) else none := by
  have hpre : (nameChars idx eventId.toList).dropPrefix? ['e', 'v', 'e', 'n', 't', '-'] =
      some (padIndex idx ++ '-' :: (eventId.toList ++ ['.', 'j', 's', 'o', 'n'])) :=
    List.dropPrefix?_append_of_beq _ (by decide)
  have hlong := length_padIndex idx
  simp only [parse, toList_format, hpre, Option.bind_eq_bind, Option.bind_some]
  by_cases hidx : idx < 100000
  · have hlength := length_padIndex_iff.mpr hidx
    have htake : (padIndex idx ++ '-' :: (eventId.toList ++ ['.', 'j', 's', 'o', 'n'])).take 5 =
        padIndex idx := by
      rw [← hlength, List.take_left]
    have hdrop : (padIndex idx ++ '-' :: (eventId.toList ++ ['.', 'j', 's', 'o', 'n'])).drop 5 =
        '-' :: (eventId.toList ++ ['.', 'j', 's', 'o', 'n']) := by
      rw [← hlength, List.drop_left]
    rw [htake, hdrop, if_pos (by simp; omega), number_padIndex]
    simp [dropExtension_append, hidx]
  · -- the sixth character is a digit, not a dash
    have hlonger : 5 < (padIndex idx).length :=
      lt_of_le_of_ne hlong fun hsame => hidx (length_padIndex_iff.mp hsame.symm)
    have hdrop : (padIndex idx ++ '-' :: (eventId.toList ++ ['.', 'j', 's', 'o', 'n'])).drop 5 =
        (padIndex idx)[5] :: ((padIndex idx).drop 6 ++
          '-' :: (eventId.toList ++ ['.', 'j', 's', 'o', 'n'])) := by
      rw [List.drop_append_of_le_length hlong, List.drop_eq_getElem_cons hlonger]
      rfl
    have hdigit := isDigit_of_mem_padIndex (List.getElem_mem hlonger)
    have hdash : (padIndex idx)[5] ≠ '-' := by
      intro hdash
      rw [hdash] at hdigit
      exact absurd hdigit (by decide)
    have hinvalid : ¬ (idx < 100000 ∧ isEventId eventId.toList) := fun hboth => hidx hboth.1
    rw [hdrop, if_neg hinvalid, if_pos (by simp; omega), Option.bind_eq_none_iff]
    intro found _
    split
    next heq => exact absurd (List.cons.inj heq).1 hdash
    next => rfl

end EventName

end ShuttleFlow
