import Mathlib.Data.List.DropRight

/-! # Characters as Python classifies them

Texts are strings, or lists of characters where they are taken apart.
-/

namespace ShuttleFlow

/-- Where `str.splitlines` splits a text. -/
def isLineBreak (c : Char) : Bool :=
  c = '\n' || c = '\r' || c.toNat = 0x0B || c.toNat = 0x0C ||
    (0x1C ≤ c.toNat && c.toNat ≤ 0x1E) || c.toNat = 0x85 || c.toNat = 0x2028 || c.toNat = 0x2029

def splitlines : List Char → List (List Char)
  | [] => []
  | '\r' :: '\n' :: rest => [] :: splitlines rest
  | char :: rest =>
      if isLineBreak char then [] :: splitlines rest
      else
        match splitlines rest with
        | [] => [[char]]
        | line :: lines => (char :: line) :: lines

def defaultTruncateNotice : List Char :=
  ("<response clipped><NOTE>Due to the max output limit, only part of the full " ++
    "response has been shown to you.</NOTE>").toList

end ShuttleFlow

namespace ShuttleFlow.PythonText

/-- `str.isspace` for one character. -/
def isSpace (c : Char) : Bool :=
  let code := c.toNat
  (9 ≤ code && code ≤ 13) || (28 ≤ code && code ≤ 32) || code = 0x85 || code = 0xA0 ||
    code = 0x1680 || (0x2000 ≤ code && code ≤ 0x200A) || code = 0x2028 || code = 0x2029 ||
    code = 0x202F || code = 0x205F || code = 0x3000

/-- Whether `str.strip` leaves nothing. -/
def isBlank (text : String) : Bool :=
  text.toList.all isSpace

/-- `str.strip` without arguments. -/
def strip (text : String) : String :=
  String.ofList ((text.toList.dropWhile isSpace).reverse.dropWhile isSpace).reverse

/-- `str.lstrip` without arguments. -/
def lstrip (text : List Char) : List Char :=
  text.dropWhile isSpace

/-- `str.rstrip` without arguments. -/
def rstrip (text : List Char) : List Char :=
  text.rdropWhile isSpace

def trim (text : List Char) : List Char :=
  rstrip (lstrip text)

/-- What is left without any spaces. -/
def ink (text : List Char) : List Char :=
  text.filter fun c => !isSpace c

/-- `str.removeprefix`. -/
def removePrefix (front text : List Char) : List Char :=
  if front <+: text then text.drop front.length else text

/-- The middle of a long text is replaced by a notice. -/
def maybeTruncate (content : List Char) (truncateAfter : Nat) (notice : List Char) : List Char :=
  if truncateAfter = 0 ∨ content.length ≤ truncateAfter then content
  else if truncateAfter ≤ notice.length then notice.take truncateAfter
  else
    let available := truncateAfter - notice.length
    let head := available / 2 + available % 2
    let tail := available - head
    content.take head ++ notice ++ content.drop (content.length - tail)

variable {blank text front : List Char}

theorem isSpace_of_isDigit {c : Char} (hdigit : c.isDigit = true) : isSpace c = false := by
  obtain ⟨hle, hge⟩ := Char.isDigit_iff_toNat.mp hdigit
  have hlower : '0'.toNat = 48 := rfl
  have hupper : '9'.toNat = 57 := rfl
  simp only [isSpace, Bool.or_eq_false_iff, Bool.and_eq_false_iff, decide_eq_false_iff_not]
  omega

theorem lstrip_append_of_blank (hblank : ∀ c ∈ blank, isSpace c = true) :
    lstrip (blank ++ text) = lstrip text :=
  List.dropWhile_append_of_pos hblank

theorem rstrip_append_of_blank (hblank : ∀ c ∈ blank, isSpace c = true) :
    rstrip (text ++ blank) = rstrip text := by
  rw [rstrip, List.rdropWhile, List.reverse_append, List.dropWhile_append_of_pos, rstrip,
    List.rdropWhile]
  exact fun c hmem => hblank c (List.mem_reverse.mp hmem)

/-- Nothing is stripped beyond a character that is not a space. -/
theorem lstrip_append_of_ink (hink : ∃ c ∈ text, isSpace c = false) (rest : List Char) :
    lstrip (text ++ rest) = lstrip text ++ rest := by
  obtain ⟨c, hmem, hspace⟩ := hink
  unfold lstrip
  rw [List.dropWhile_append, if_neg]
  rw [List.isEmpty_iff, List.dropWhile_eq_nil_iff]
  intro hblank
  exact absurd (hblank c hmem) (by rw [hspace]; decide)

theorem rstrip_append_of_ink (hink : ∃ c ∈ text, isSpace c = false) (rest : List Char) :
    rstrip (rest ++ text) = rest ++ rstrip text := by
  obtain ⟨c, hmem, hspace⟩ := hink
  have hreverse := lstrip_append_of_ink ⟨c, List.mem_reverse.mpr hmem, hspace⟩ rest.reverse
  unfold rstrip List.rdropWhile
  rw [List.reverse_append]
  refine (congrArg List.reverse hreverse).trans ?_
  rw [List.reverse_append, List.reverse_reverse]
  rfl

/-- A text is what is stripped on the left, and the rest. -/
theorem exists_blank_append_lstrip (text : List Char) :
    ∃ blank, (∀ c ∈ blank, isSpace c = true) ∧ text = blank ++ lstrip text :=
  ⟨text.takeWhile isSpace, fun _ hmem => List.mem_takeWhile_imp hmem,
    List.takeWhile_append_dropWhile.symm⟩

theorem exists_rstrip_append_blank (text : List Char) :
    ∃ blank, (∀ c ∈ blank, isSpace c = true) ∧ text = rstrip text ++ blank := by
  obtain ⟨blank, hblank, heq⟩ := exists_blank_append_lstrip text.reverse
  refine ⟨blank.reverse, fun c hmem => hblank c (List.mem_reverse.mp hmem), ?_⟩
  have hreverse := congrArg List.reverse heq
  rwa [List.reverse_reverse, List.reverse_append] at hreverse

@[simp] theorem lstrip_lstrip (text : List Char) : lstrip (lstrip text) = lstrip text :=
  List.dropWhile_idempotent _ _

theorem trim_append_of_blank (hblank : ∀ c ∈ blank, isSpace c = true) :
    trim (text ++ blank) = trim text := by
  obtain ⟨front, hfront, heq⟩ := exists_blank_append_lstrip text
  rw [trim, trim, heq, List.append_assoc, lstrip_append_of_blank hfront,
    lstrip_append_of_blank hfront, lstrip_lstrip]
  cases hrest : lstrip text with
  | nil =>
      rw [List.nil_append, lstrip, List.dropWhile_eq_nil_iff.mpr hblank]
  | cons first rest =>
      have hfirst : isSpace first = false := by
        have hhead := List.head?_dropWhile_not isSpace text
        rw [← lstrip, hrest] at hhead
        simpa only [List.head?_cons, Bool.not_eq_true] using hhead
      rw [List.cons_append, lstrip, List.dropWhile_cons_of_neg (by rw [hfirst]; decide),
        ← List.cons_append, rstrip_append_of_blank hblank]

@[simp] theorem trim_trim (text : List Char) : trim (trim text) = trim text := by
  obtain ⟨blank, hblank, heq⟩ := exists_rstrip_append_blank (lstrip text)
  calc trim (trim text) = trim (trim text ++ blank) := (trim_append_of_blank hblank).symm
    _ = trim (lstrip text) := congrArg trim heq.symm
    _ = trim text := congrArg rstrip (lstrip_lstrip text)

/-- Nothing is stripped from a text that neither begins nor ends with a space. -/
theorem trim_of_ends (hfirst : ∀ c ∈ text.head?, isSpace c = false)
    (hlast : ∀ c ∈ text.getLast?, isSpace c = false) : trim text = text := by
  have hleft : lstrip text = text := by
    cases text with
    | nil => rfl
    | cons c rest => rw [lstrip, List.dropWhile_cons_of_neg (by simp [hfirst c rfl])]
  have hright : rstrip text = text := by
    rcases List.eq_nil_or_concat text with rfl | ⟨rest, c, rfl⟩
    · rfl
    · rw [List.concat_eq_append] at hlast ⊢
      rw [rstrip, List.rdropWhile_concat_neg]
      simp [hlast c (by simp)]
  rw [trim, hleft, hright]

theorem trim_newlines (text : List Char) : trim ('\n' :: text ++ ['\n']) = trim text := by
  have hblank : ∀ c ∈ ['\n'], isSpace c = true := by
    intro c hc
    rw [List.mem_singleton.mp hc]
    decide
  rw [trim_append_of_blank hblank]
  have hleft := @lstrip_append_of_blank ['\n'] text hblank
  rw [List.singleton_append] at hleft
  rw [trim, hleft, trim]

theorem strip_strip (text : String) : strip (strip text) = strip text := by
  change String.ofList (trim (String.ofList (trim text.toList)).toList) = _
  rw [String.toList_ofList, trim_trim]
  rfl

@[simp] theorem ink_append (text other : List Char) : ink (text ++ other) = ink text ++ ink other :=
  List.filter_append _ _

theorem ink_eq_nil_of_blank (hblank : ∀ c ∈ blank, isSpace c = true) : ink blank = [] := by
  rw [ink, List.filter_eq_nil_iff]
  intro c hmem
  rw [hblank c hmem]
  decide

@[simp] theorem ink_lstrip (text : List Char) : ink (lstrip text) = ink text := by
  obtain ⟨blank, hblank, heq⟩ := exists_blank_append_lstrip text
  conv_rhs => rw [heq]
  rw [ink_append, ink_eq_nil_of_blank hblank, List.nil_append]

@[simp] theorem ink_rstrip (text : List Char) : ink (rstrip text) = ink text := by
  obtain ⟨blank, hblank, heq⟩ := exists_rstrip_append_blank text
  conv_rhs => rw [heq]
  rw [ink_append, ink_eq_nil_of_blank hblank, List.append_nil]

@[simp] theorem ink_trim (text : List Char) : ink (trim text) = ink text := by
  rw [trim, ink_rstrip, ink_lstrip]

@[simp] theorem removePrefix_nil (text : List Char) : removePrefix [] text = text := by
  rw [removePrefix, if_pos List.nil_prefix, List.length_nil, List.drop_zero]

end ShuttleFlow.PythonText
