import Mathlib.Data.List.Infix
import Mathlib.Data.List.TakeWhile
import ShuttleFlow.Library.Patterns

/-! # The filter for terminal queries

Queries that a terminal would answer are taken out of the output. What may be the beginning
of one is held back until more output comes. The patterns are about ASCII characters, so
bytes outside ASCII are not told apart here.
-/

namespace ShuttleFlow

namespace TerminalQueryFilter

def esc : Char := Char.ofNat 27

def bel : Char := Char.ofNat 7

/-! ## Queries -/

/-- How long a match of one of these words is. -/
def wordLength (words : List (List Char)) (text : List Char) : Option Nat :=
  (words.find? fun word => word <+: text).map List.length

def dsrPattern : Pattern Char (List Char) :=
  .ofLength (wordLength [esc :: "[6n".toList])

def daPattern : Pattern Char (List Char) :=
  .ofLength (wordLength [esc :: "[0c".toList, esc :: "[c".toList])

def da2Pattern : Pattern Char (List Char) :=
  .ofLength (wordLength [esc :: "[>0c".toList, esc :: "[>c".toList])

/-- The query marker and the terminator. -/
def queryEnd : List Char → Option Nat
  | ';' :: '?' :: first :: rest =>
      if first = bel then some 3
      else if first = esc ∧ rest.head? = some '\\' then some 4
      else none
  | _ => none

/-- The optional part in front of the query marker. -/
def subParameter : List Char → Option (List Char)
  | ';' :: rest => some (rest.takeWhile fun c => c ≠ ';' ∧ c ≠ bel ∧ c ≠ esc)
  | _ => none

def oscQueryLength : List Char → Option Nat
  | first :: ']' :: rest =>
      let digits := rest.takeWhile Char.isDigit
      let behind := rest.dropWhile Char.isDigit
      if first ≠ esc ∨ digits = [] then none
      else
        let withParameter := (subParameter behind).bind fun parameter =>
          (queryEnd (behind.drop (1 + parameter.length))).map (1 + parameter.length + ·)
        (withParameter.or (queryEnd behind)).map (2 + digits.length + ·)
  | _ => none

def oscQueryPattern : Pattern Char (List Char) :=
  .ofLength oscQueryLength

def decrqssLength : List Char → Option Nat
  | first :: 'P' :: '$' :: 'q' :: rest =>
      let setting := rest.takeWhile (· ≠ esc)
      if first = esc ∧ [esc, '\\'] <+: rest.dropWhile (· ≠ esc) then
        some (4 + setting.length + 2)
      else none
  | _ => none

def decrqssPattern : Pattern Char (List Char) :=
  .ofLength decrqssLength

def remove (pattern : Pattern Char (List Char)) (text : List Char) : List Char :=
  pattern.sub (fun _ => []) text

def filterCompleteQueries (text : List Char) : List Char :=
  remove decrqssPattern (remove da2Pattern (remove daPattern (remove oscQueryPattern
    (remove dsrPattern text))))

/-! ## Incomplete sequences -/

/-- The end of the text, or a newline and the end. -/
def atEnd (text : List Char) : Bool :=
  text = [] ∨ text = ['\n']

/-- Behind the escape character: a sequence without its end. -/
def mayContinue : List Char → Bool
  | '[' :: params => atEnd (params.dropWhile fun c => c.isDigit || c = ';' || c = '>')
  | ']' :: content => !content.contains bel
  | 'P' :: content => !decide ([esc, '\\'] <:+: content)
  | _ => false

def isIncomplete : List Char → Bool
  | [] => false
  | first :: rest => first = esc && (atEnd rest || mayContinue rest)

/-- What is complete, and what is held back: everything from the first incomplete sequence. -/
def holdBack : List Char → List Char × List Char
  | [] => ([], [])
  | first :: rest =>
      if isIncomplete (first :: rest) then ([], first :: rest)
      else (first :: (holdBack rest).1, (holdBack rest).2)

/-- The filtered output, and the pending characters. -/
def filter (pending output : List Char) : List Char × List Char :=
  let parts := holdBack (pending ++ output)
  (filterCompleteQueries parts.1, parts.2)

/-- Nothing is pending afterwards. -/
def flush (pending : List Char) : List Char :=
  filterCompleteQueries pending

/-- A whole output, without a filter that goes on. -/
def filterTerminalQueries (output : List Char) : List Char :=
  let filtered := filter [] output
  filtered.1 ++ flush filtered.2

/-- The outputs for some chunks, and what is flushed in the end. -/
def filterChunks : (pending : List Char) → (chunks : List (List Char)) → List Char
  | pending, [] => flush pending
  | pending, chunk :: rest =>
      let filtered := filter pending chunk
      filtered.1 ++ filterChunks filtered.2 rest

/-! ## Texts without queries -/

variable {pattern : Pattern Char (List Char)} {text pending output : List Char} {letter : Char}

/-- Texts without the letter do not match. -/
def Needs (pattern : Pattern Char (List Char)) (letter : Char) : Prop :=
  ∀ text, letter ∉ text → pattern.find text = none

theorem Needs.remove (hneeds : Needs pattern letter) (htext : letter ∉ text) :
    remove pattern text = text := by
  refine Pattern.sub_eq_self_of_find_eq_none fun before first rest hsplit => ?_
  refine hneeds _ fun hmem => htext ?_
  rw [hsplit]
  exact List.mem_append_right _ hmem

theorem needs_words {words : List (List Char)} (hwords : ∀ word ∈ words, letter ∈ word) :
    Needs (.ofLength (wordLength words)) letter := by
  refine fun text htext => Pattern.find_ofLength_eq_none ?_
  rw [wordLength, Option.map_eq_none_iff, List.find?_eq_none]
  intro word hmem hbegins
  exact htext ((of_decide_eq_true hbegins).subset (hwords word hmem))

theorem needs_oscQuery (hletter : letter = esc ∨ letter = ']') :
    Needs oscQueryPattern letter := by
  refine fun text htext => Pattern.find_ofLength_eq_none ?_
  unfold oscQueryLength
  split
  next first rest =>
    refine if_pos (.inl fun hfirst => htext ?_)
    rcases hletter with rfl | rfl
    · rw [hfirst]
      exact List.mem_cons_self
    · exact List.mem_cons_of_mem _ List.mem_cons_self
  next => rfl

theorem needs_decrqss (hletter : letter = esc ∨ letter = 'P') : Needs decrqssPattern letter := by
  refine fun text htext => Pattern.find_ofLength_eq_none ?_
  unfold decrqssLength
  split
  next first rest =>
    refine if_neg fun hmatch => htext ?_
    rcases hletter with rfl | rfl
    · rw [hmatch.1]
      exact List.mem_cons_self
    · exact List.mem_cons_of_mem _ List.mem_cons_self
  next => rfl

/-- A text that lacks a letter of each query has no query. -/
theorem filterCompleteQueries_of_needs (hdsr : ∃ letter ∉ text, Needs dsrPattern letter)
    (hosc : ∃ letter ∉ text, Needs oscQueryPattern letter)
    (hda : ∃ letter ∉ text, Needs daPattern letter)
    (hda2 : ∃ letter ∉ text, Needs da2Pattern letter)
    (hdecrqss : ∃ letter ∉ text, Needs decrqssPattern letter) :
    filterCompleteQueries text = text := by
  obtain ⟨_, hdsr, hneeds⟩ := hdsr
  rw [filterCompleteQueries, hneeds.remove hdsr]
  obtain ⟨_, hosc, hneeds⟩ := hosc
  rw [hneeds.remove hosc]
  obtain ⟨_, hda, hneeds⟩ := hda
  rw [hneeds.remove hda]
  obtain ⟨_, hda2, hneeds⟩ := hda2
  rw [hneeds.remove hda2]
  obtain ⟨_, hdecrqss, hneeds⟩ := hdecrqss
  rw [hneeds.remove hdecrqss]

theorem filterCompleteQueries_of_notMem (htext : esc ∉ text) :
    filterCompleteQueries text = text :=
  filterCompleteQueries_of_needs ⟨esc, htext, needs_words (by decide)⟩
    ⟨esc, htext, needs_oscQuery (.inl rfl)⟩ ⟨esc, htext, needs_words (by decide)⟩
    ⟨esc, htext, needs_words (by decide)⟩ ⟨esc, htext, needs_decrqss (.inl rfl)⟩

/-! ## What is held back -/

theorem holdBack_cons {first : Char} {rest : List Char}
    (hcomplete : ¬isIncomplete (first :: rest) = true) :
    holdBack (first :: rest) = (first :: (holdBack rest).1, (holdBack rest).2) := by
  rw [holdBack, if_neg hcomplete]

end TerminalQueryFilter

end ShuttleFlow
