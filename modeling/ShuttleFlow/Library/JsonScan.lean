import ShuttleFlow.Library.JsonText

/-! # Scanners of JSON texts

A scanner is made of smaller ones, so that what holds of the parts holds of the whole. How string
literals are read is left to another scanner. A string is the list of its code points, since an
escape may stand for half of a character.
-/

namespace ShuttleFlow

/-- A value at the front of a text, and what is behind it. -/
abbrev Scanner (α : Type) := List Char → Option (α × List Char)

/-- A value of JSON with strings of code points. -/
inductive JsonTree (Float : Type)
  | null
  | bool (value : Bool)
  | int (value : Int)
  | float (value : Float)
  | str (units : List Nat)
  | arr (items : List (JsonTree Float))
  | obj (entries : List (List Nat × JsonTree Float))

namespace Scanner

variable {α β : Type}

/-! ## Parts of scanners -/

def fail : Scanner α :=
  fun _ => none

def give (value : α) : Scanner α :=
  fun text => some (value, text)

def andThen (first : Scanner α) (next : α → Scanner β) : Scanner β :=
  fun text => (first text).bind fun found => next found.1 found.2

def blanks : Scanner Unit :=
  fun text => some ((), JsonText.skipBlank text)

/-- A sign at the front says how to go on behind it. -/
def choose (sign : Char) (taken other : Scanner α) : Scanner α :=
  fun text => if text.head? = some sign then taken text.tail else other text

theorem andThen_eq_some {first : Scanner α} {next : α → Scanner β} {text rest : List Char}
    {value : β} (hscan : first.andThen next text = some (value, rest)) :
    ∃ found behind, first text = some (found, behind) ∧
      next found behind = some (value, rest) := by
  obtain ⟨⟨found, behind⟩, hfirst, hnext⟩ := Option.bind_eq_some_iff.mp hscan
  exact ⟨found, behind, hfirst, hnext⟩

theorem andThen_of_some {first : Scanner α} {text behind : List Char} {found : α}
    (hfirst : first text = some (found, behind)) (next : α → Scanner β) :
    first.andThen next text = next found behind := by
  rw [andThen, hfirst, Option.bind_some]

theorem andThen_of_none {first : Scanner α} {text : List Char} (hfirst : first text = none)
    (next : α → Scanner β) : first.andThen next text = none := by
  rw [andThen, hfirst, Option.bind_none]

end Scanner

namespace JsonTree

open Scanner

/-! ## String literals -/

/-- The second half of a character, written as an escape. -/
def lowHalf : Scanner Nat := fun text =>
  if ['\\', 'u'] <+: text then
    match JsonText.scanHex (text.drop 2) with
    | none => none
    | some (low, rest) => if 0xDC00 ≤ low ∧ low < 0xE000 then some (low, rest) else none
  else none

/-- A code point by its number. A half that has no other half stays as it is. -/
def scanUnit : Scanner Nat := fun text =>
  match JsonText.scanHex text with
  | none => none
  | some (code, rest) =>
      if 0xD800 ≤ code ∧ code < 0xDC00 then
        match lowHalf rest with
        | some (low, behind) => some (0x10000 + (code - 0xD800) * 1024 + (low - 0xDC00), behind)
        | none => some (code, rest)
      else some (code, rest)

/-- What is behind a backslash. -/
def scanEscape : Scanner Nat := fun text =>
  match text with
  | [] => none
  | c :: rest =>
      if c = '"' ∨ c = '\\' ∨ c = '/' then some (c.toNat, rest)
      else if c = 'n' then some (10, rest)
      else if c = 'r' then some (13, rest)
      else if c = 't' then some (9, rest)
      else if c = 'b' then some (8, rest)
      else if c = 'f' then some (12, rest)
      else if c = 'u' then scanUnit rest
      else none

def isControl (c : Char) : Bool :=
  c.toNat < 32

/-- A string up to its closing quote. There are as many characters as there is fuel. -/
def scanText (strict : Bool) : Nat → Scanner (List Nat)
  | 0, _ => none
  | _, [] => none
  | fuel + 1, c :: rest =>
      if c = '"' then some ([], rest)
      else if c = '\\' then
        match scanEscape rest with
        | none => none
        | some (code, behind) =>
            (scanText strict fuel behind).map fun found => (code :: found.1, found.2)
      else if strict && isControl c then none
      else (scanText strict fuel rest).map fun found => (c.toNat :: found.1, found.2)

/-- A string literal. A strict scanner takes no control characters as they are. -/
def literal (strict : Bool) : Scanner (List Nat) := fun text =>
  if text.head? = some '"' then scanText strict text.tail.length text.tail else none

/-! ## Values -/

section Values

variable {Float : Type} (read : List Char → Float) (literal : Scanner (List Nat))

def words : List (List Char × JsonTree Float) :=
  [("null".toList, .null), ("true".toList, .bool true), ("false".toList, .bool false),
    ("NaN".toList, .float (read "NaN".toList)),
    ("Infinity".toList, .float (read "Infinity".toList)),
    ("-Infinity".toList, .float (read "-Infinity".toList))]

def scanWord (table : List (List Char × JsonTree Float)) : Scanner (JsonTree Float) := fun text =>
  (table.find? fun word => word.1 <+: text).map fun word => (word.2, text.drop word.1.length)

def scanNumber : Scanner (JsonTree Float) := fun text =>
  (JsonText.scanNumber text).map fun (whole, tail, rest) =>
    (if tail = [] then .int (JsonText.intValue whole) else .float (read (whole ++ tail)), rest)

def scanPlain : Scanner (JsonTree Float) := fun text =>
  match scanWord (words read) text with
  | some found => some found
  | none => scanNumber read text

def scanScalar : Scanner (JsonTree Float) := fun text =>
  if text.head? = some '"' then literal.andThen (fun units => give (.str units)) text
  else scanPlain read text

/-- A key and its colon. -/
def scanKey : Scanner (List Nat) :=
  literal.andThen fun key => blanks.andThen fun _ =>
    choose ':' (blanks.andThen fun _ => give key) fail

/-- Of two entries with one key the later one counts. -/
def dictionary (pairs : List (List Nat × JsonTree Float)) : Dict (List Nat) (JsonTree Float) :=
  pairs.foldl (fun dict pair => dict.set pair.1 pair.2) Dict.empty

mutual

/-- `scan_once`. -/
def scanOnce : Nat → Scanner (JsonTree Float)
  | 0 => fail
  | fuel + 1 =>
      choose '['
        (blanks.andThen fun _ => choose ']' (give (.arr []))
          ((scanOnce fuel).andThen fun first => (scanItems fuel).andThen fun rest =>
            give (.arr (first :: rest))))
        (choose '{'
          (blanks.andThen fun _ => choose '}' (give (.obj []))
            ((scanKey literal).andThen fun key => (scanOnce fuel).andThen fun first =>
              (scanEntries fuel).andThen fun rest =>
                give (.obj (dictionary ((key, first) :: rest)).entries)))
          (scanScalar read literal))

def scanItems : Nat → Scanner (List (JsonTree Float))
  | 0 => fail
  | fuel + 1 =>
      blanks.andThen fun _ => choose ']' (give [])
        (choose ','
          (blanks.andThen fun _ => (scanOnce fuel).andThen fun item =>
            (scanItems fuel).andThen fun rest => give (item :: rest))
          fail)

def scanEntries : Nat → Scanner (List (List Nat × JsonTree Float))
  | 0 => fail
  | fuel + 1 =>
      blanks.andThen fun _ => choose '}' (give [])
        (choose ','
          (blanks.andThen fun _ => (scanKey literal).andThen fun key =>
            (scanOnce fuel).andThen fun value => (scanEntries fuel).andThen fun rest =>
              give ((key, value) :: rest))
          fail)

end

/-- A value with blanks around it. -/
def scanDocument (fuel : Nat) : Scanner (JsonTree Float) :=
  blanks.andThen fun _ => (scanOnce read literal fuel).andThen fun value =>
    blanks.andThen fun _ => give value

/-- `json.loads`. -/
def loads (text : List Char) : Option (JsonTree Float) :=
  match scanDocument read literal (text.length + 1) text with
  | none => none
  | some (value, rest) => if rest = [] then some value else none

end Values

/-! ## Scanners with other literals

What relates two ways to read a literal relates the scanners for values, if each part of a scanner
keeps the relation.
-/

variable {Float : Type}

/-- Nothing but a backslash is left to go on with. -/
def Off {α : Type} (found : Option (α × List Char)) : Prop :=
  ∀ value rest, found = some (value, rest) → rest.head? = some '\\'

/-- Where a literal would have to be there already, a backslash is not read. -/
def Stuck {α : Type} (scan : Scanner α) : Prop :=
  ∀ text, text.head? = some '\\' → Off (scan text)

structure Congruent (relates : ∀ {α : Type}, Scanner α → Scanner α → Prop) : Prop where
  fail : ∀ {α : Type} (scan : Scanner α), relates fail scan
  give : ∀ {α : Type} (value : α), relates (give value) (give value)
  blanks : relates blanks blanks
  choose : ∀ {α : Type} {sign : Char} {taken other taken' other' : Scanner α},
    sign ≠ '"' → sign ≠ '\\' → isControl sign = false →
      relates taken taken' → relates other other' →
        relates (choose sign taken other) (choose sign taken' other')
  andThen : ∀ {α β : Type} {first first' : Scanner α} {next next' : α → Scanner β},
    relates first first' → (∀ value, relates (next value) (next' value)) →
      (∀ value, Stuck (next' value)) → relates (first.andThen next) (first'.andThen next')

section Relating

variable {relates : ∀ {α : Type}, Scanner α → Scanner α → Prop} {read : List Char → Float}
  {first second : Scanner (List Nat)}

theorem stuck_give {α : Type} (value : α) : Stuck (give value) := by
  intro text htext found rest hfound
  cases hfound
  exact htext

theorem stuck_fail {α : Type} : Stuck (fail : Scanner α) := by
  intro text _ found rest hfound
  cases hfound

theorem skipBlank_of_head {text : List Char} (htext : text.head? = some '\\') :
    JsonText.skipBlank text = text := by
  cases text with
  | nil => rfl
  | cons c rest =>
      obtain rfl := Option.some.inj htext
      exact List.dropWhile_cons_of_neg (by decide)

theorem stuck_blanks : Stuck blanks := by
  intro text htext found rest hfound
  cases hfound
  rwa [skipBlank_of_head htext]

theorem stuck_choose {α : Type} {sign : Char} (hsign : sign ≠ '\\') (taken : Scanner α)
    {other : Scanner α} (hother : Stuck other) : Stuck (choose sign taken other) := by
  intro text htext
  have hne : text.head? ≠ some sign := by
    rw [htext]
    intro heq
    exact hsign (Option.some.inj heq).symm
  rw [choose, if_neg hne]
  exact hother text htext

theorem stuck_andThen {α β : Type} {scan : Scanner α} {next : α → Scanner β}
    (hscan : Stuck scan) (hnext : ∀ value, Stuck (next value)) : Stuck (scan.andThen next) := by
  intro text htext value rest hfound
  obtain ⟨found, behind, hfirst, hsecond⟩ := andThen_eq_some hfound
  exact hnext found behind (hscan text htext found behind hfirst) value rest hsecond

theorem stuck_scanPlain : Stuck (scanPlain read) := by
  intro text htext
  cases text with
  | nil => cases htext
  | cons c rest =>
      obtain rfl := Option.some.inj htext
      have hword : scanWord (words read) ('\\' :: rest) = none := by
        simp [scanWord, words]
      have hnumber : scanNumber read ('\\' :: rest) = none := rfl
      intro value behind hfound
      rw [scanPlain, hword, hnumber] at hfound
      cases hfound

theorem stuck_scanScalar : Stuck (scanScalar read second) := by
  intro text htext
  have hne : text.head? ≠ some '"' := by
    rw [htext]
    decide
  rw [scanScalar, if_neg hne]
  exact stuck_scanPlain text htext

theorem stuck_scanOnce (fuel : Nat) : Stuck (scanOnce read second fuel) := by
  cases fuel with
  | zero => exact stuck_fail
  | succ fuel =>
      exact stuck_choose (by decide) _ (stuck_choose (by decide) _ stuck_scanScalar)

theorem stuck_scanItems (fuel : Nat) : Stuck (scanItems read second fuel) := by
  cases fuel with
  | zero => exact stuck_fail
  | succ fuel =>
      exact stuck_andThen stuck_blanks fun _ =>
        stuck_choose (by decide) _ (stuck_choose (by decide) _ stuck_fail)

theorem stuck_scanEntries (fuel : Nat) : Stuck (scanEntries read second fuel) := by
  cases fuel with
  | zero => exact stuck_fail
  | succ fuel =>
      exact stuck_andThen stuck_blanks fun _ =>
        stuck_choose (by decide) _ (stuck_choose (by decide) _ stuck_fail)

/-- The relation holds, and the second scanner has nothing to do with a backslash. -/
structure Related (relates : ∀ {α : Type}, Scanner α → Scanner α → Prop) {α : Type}
    (scan scan' : Scanner α) : Prop where
  related : relates scan scan'
  stuck : Stuck scan'

namespace Related

variable {α β : Type} (hrelates : Congruent relates)

include hrelates

theorem fail {scan : Scanner α} (hstuck : Stuck scan) : Related relates fail scan :=
  ⟨hrelates.fail scan, hstuck⟩

theorem give (value : α) : Related relates (give value) (give value) :=
  ⟨hrelates.give value, stuck_give value⟩

theorem blanks : Related relates blanks blanks :=
  ⟨hrelates.blanks, stuck_blanks⟩

theorem choose {sign : Char} {taken other taken' other' : Scanner α} (hquote : sign ≠ '"')
    (hbackslash : sign ≠ '\\') (hcontrol : isControl sign = false)
    (htaken : Related relates taken taken') (hother : Related relates other other') :
    Related relates (choose sign taken other) (choose sign taken' other') :=
  ⟨hrelates.choose hquote hbackslash hcontrol htaken.related hother.related,
    stuck_choose hbackslash taken' hother.stuck⟩

theorem andThen {scan scan' : Scanner α} {next next' : α → Scanner β}
    (hscan : Related relates scan scan')
    (hnext : ∀ value, Related relates (next value) (next' value)) :
    Related relates (scan.andThen next) (scan'.andThen next') :=
  ⟨hrelates.andThen hscan.related (fun value => (hnext value).related)
      fun value => (hnext value).stuck,
    stuck_andThen hscan.stuck fun value => (hnext value).stuck⟩

end Related

variable (hrelates : Congruent relates) (hliteral : Related relates first second)
  (hscalar : relates (scanScalar read first) (scanScalar read second))

include hrelates hliteral

theorem related_scanKey : Related relates (scanKey first) (scanKey second) := by
  refine Related.andThen hrelates hliteral fun key => ?_
  refine Related.andThen hrelates (Related.blanks hrelates) fun _ => ?_
  refine Related.choose hrelates (by decide) (by decide) (by decide) ?_
    (Related.fail hrelates stuck_fail)
  exact Related.andThen hrelates (Related.blanks hrelates) fun _ => Related.give hrelates key

include hscalar

/-- More fuel does not matter, so the second scanner may have some to spare. -/
theorem related_scan (fuel : Nat) :
    (∀ more, fuel ≤ more →
      Related relates (scanOnce read first fuel) (scanOnce read second more)) ∧
    (∀ more, fuel ≤ more →
      Related relates (scanItems read first fuel) (scanItems read second more)) ∧
    ∀ more, fuel ≤ more →
      Related relates (scanEntries read first fuel) (scanEntries read second more) := by
  have hkey := related_scanKey hrelates hliteral
  have hblanks := Related.blanks hrelates
  induction fuel with
  | zero =>
      refine ⟨fun more _ => ?_, fun more _ => ?_, fun more _ => ?_⟩
      · exact Related.fail hrelates (stuck_scanOnce more)
      · exact Related.fail hrelates (stuck_scanItems more)
      · exact Related.fail hrelates (stuck_scanEntries more)
  | succ fuel ih =>
      obtain ⟨honce, hitems, hentries⟩ := ih
      refine ⟨fun more hmore => ?_, fun more hmore => ?_, fun more hmore => ?_⟩
      · obtain ⟨more, rfl⟩ := Nat.exists_eq_succ_of_ne_zero (Nat.ne_zero_of_lt hmore)
        have hfuel := Nat.le_of_succ_le_succ hmore
        refine Related.choose hrelates (by decide) (by decide) (by decide) ?_ ?_
        · refine Related.andThen hrelates hblanks fun _ => ?_
          refine Related.choose hrelates (by decide) (by decide) (by decide)
            (Related.give hrelates _) ?_
          refine Related.andThen hrelates (honce more hfuel) fun item => ?_
          exact Related.andThen hrelates (hitems more hfuel) fun _ => Related.give hrelates _
        · refine Related.choose hrelates (by decide) (by decide) (by decide) ?_
            ⟨hscalar, stuck_scanScalar⟩
          refine Related.andThen hrelates hblanks fun _ => ?_
          refine Related.choose hrelates (by decide) (by decide) (by decide)
            (Related.give hrelates _) ?_
          refine Related.andThen hrelates hkey fun key => ?_
          refine Related.andThen hrelates (honce more hfuel) fun value => ?_
          exact Related.andThen hrelates (hentries more hfuel) fun _ => Related.give hrelates _
      · obtain ⟨more, rfl⟩ := Nat.exists_eq_succ_of_ne_zero (Nat.ne_zero_of_lt hmore)
        have hfuel := Nat.le_of_succ_le_succ hmore
        refine Related.andThen hrelates hblanks fun _ => ?_
        refine Related.choose hrelates (by decide) (by decide) (by decide)
          (Related.give hrelates _) ?_
        refine Related.choose hrelates (by decide) (by decide) (by decide) ?_
          (Related.fail hrelates stuck_fail)
        refine Related.andThen hrelates hblanks fun _ => ?_
        refine Related.andThen hrelates (honce more hfuel) fun item => ?_
        exact Related.andThen hrelates (hitems more hfuel) fun _ => Related.give hrelates _
      · obtain ⟨more, rfl⟩ := Nat.exists_eq_succ_of_ne_zero (Nat.ne_zero_of_lt hmore)
        have hfuel := Nat.le_of_succ_le_succ hmore
        refine Related.andThen hrelates hblanks fun _ => ?_
        refine Related.choose hrelates (by decide) (by decide) (by decide)
          (Related.give hrelates _) ?_
        refine Related.choose hrelates (by decide) (by decide) (by decide) ?_
          (Related.fail hrelates stuck_fail)
        refine Related.andThen hrelates hblanks fun _ => ?_
        refine Related.andThen hrelates hkey fun key => ?_
        refine Related.andThen hrelates (honce more hfuel) fun value => ?_
        exact Related.andThen hrelates (hentries more hfuel) fun _ => Related.give hrelates _

theorem related_scanDocument {fuel more : Nat} (hfuel : fuel ≤ more) :
    relates (scanDocument read first fuel) (scanDocument read second more) := by
  have honce := (related_scan hrelates hliteral hscalar fuel).1 more hfuel
  have hblanks := Related.blanks hrelates
  refine (Related.andThen hrelates hblanks fun _ => ?_).related
  refine Related.andThen hrelates honce fun value => ?_
  exact Related.andThen hrelates hblanks fun _ => Related.give hrelates value

end Relating

variable {read : List Char → Float}

/-! ## Strict and loose scanners -/

/-- Whatever the first scanner reads, the second one reads as well. -/
def Extends {α : Type} (scan more : Scanner α) : Prop :=
  ∀ text found, scan text = some found → more text = some found

theorem congruent_extends : Congruent Extends where
  fail := by
    intro α scan text found hfound
    cases hfound
  give := by
    intro α value text found hfound
    exact hfound
  blanks := by
    intro text found hfound
    exact hfound
  choose := by
    intro α sign taken other taken' other' _ _ _ htaken hother text found hfound
    rw [choose] at hfound ⊢
    split at hfound
    next hsign =>
      rw [if_pos hsign]
      exact htaken _ _ hfound
    next hsign =>
      rw [if_neg hsign]
      exact hother _ _ hfound
  andThen := by
    intro α β first first' next next' hfirst hnext _ text found hfound
    obtain ⟨value, behind, hvalue, hrest⟩ := andThen_eq_some hfound
    rw [andThen_of_some (hfirst _ _ hvalue)]
    exact hnext value _ _ hrest

theorem scanText_loose {fuel more : Nat} (hfuel : fuel ≤ more) (text : List Char)
    {found : List Nat × List Char} (hstrict : scanText true fuel text = some found) :
    scanText false more text = some found := by
  induction fuel generalizing more text found with
  | zero => cases hstrict
  | succ fuel ih =>
      obtain ⟨more, rfl⟩ := Nat.exists_eq_succ_of_ne_zero (Nat.ne_zero_of_lt hfuel)
      have hmore := Nat.le_of_succ_le_succ hfuel
      cases text with
      | nil => cases hstrict
      | cons c rest =>
          rw [scanText] at hstrict ⊢
          by_cases hquote : c = '"'
          · rwa [if_pos hquote] at hstrict ⊢
          rw [if_neg hquote] at hstrict ⊢
          by_cases hbackslash : c = '\\'
          · rw [if_pos hbackslash] at hstrict ⊢
            cases hescape : scanEscape rest with
            | none =>
                rw [hescape] at hstrict
                cases hstrict
            | some escaped =>
                rw [hescape] at hstrict
                obtain ⟨later, hlater, rfl⟩ := Option.map_eq_some_iff.mp hstrict
                exact Option.map_eq_some_iff.mpr ⟨later, ih hmore _ hlater, rfl⟩
          · rw [if_neg hbackslash] at hstrict ⊢
            split at hstrict
            next => cases hstrict
            next =>
              obtain ⟨later, hlater, rfl⟩ := Option.map_eq_some_iff.mp hstrict
              simp only [Bool.false_and, Bool.false_eq_true, if_false]
              exact Option.map_eq_some_iff.mpr ⟨later, ih hmore _ hlater, rfl⟩

theorem stuck_literal (strict : Bool) : Stuck (literal strict) := by
  intro text htext value rest hfound
  have hne : text.head? ≠ some '"' := by
    rw [htext]
    decide
  rw [literal, if_neg hne] at hfound
  cases hfound

theorem extends_literal : Extends (literal true) (literal false) := by
  intro text found hfound
  rw [literal] at hfound ⊢
  split at hfound
  next hquote =>
    rw [if_pos hquote]
    exact scanText_loose (Nat.le_refl _) _ hfound
  next => cases hfound

theorem extends_scanScalar :
    Extends (scanScalar read (literal true)) (scanScalar read (literal false)) := by
  intro text found hfound
  rw [scanScalar] at hfound ⊢
  split at hfound
  next hquote =>
    rw [if_pos hquote]
    exact congruent_extends.andThen extends_literal
      (fun units => congruent_extends.give _) (fun units => stuck_give _) _ _ hfound
  next hquote => rwa [if_neg hquote]

theorem loads_loose {text : List Char} {value : JsonTree Float}
    (hstrict : loads read (literal true) text = some value) :
    loads read (literal false) text = some value := by
  have hextends : Extends (scanDocument read (literal true) (text.length + 1))
      (scanDocument read (literal false) (text.length + 1)) :=
    related_scanDocument congruent_extends ⟨extends_literal, stuck_literal false⟩
      extends_scanScalar (Nat.le_refl _)
  rw [loads] at hstrict ⊢
  split at hstrict
  next => cases hstrict
  next found rest hscan => rwa [hextends _ _ hscan]

end JsonTree

end ShuttleFlow
