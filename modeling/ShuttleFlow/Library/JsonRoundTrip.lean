import Mathlib.Tactic.IntervalCases
import ShuttleFlow.Library.JsonText

/-! # What is written as JSON is read again -/

namespace ShuttleFlow

namespace JsonText

/-! ## Strings -/

theorem hexValue?_digitChar : ∀ digit < 16, hexValue? (Nat.digitChar digit) = some digit := by
  decide

theorem scanHex_hexText {code : Nat} (hcode : code < 65536) (rest : List Char) :
    scanHex (hexText code ++ rest) = some (code, rest) := by
  have hvalue : ((code / 4096 * 16 + code / 256 % 16) * 16 + code / 16 % 16) * 16 + code % 16 =
      code := by
    omega
  unfold hexText
  simp only [List.cons_append, List.nil_append, scanHex]
  rw [hexValue?_digitChar _ (by omega), hexValue?_digitChar _ (by omega),
    hexValue?_digitChar _ (by omega), hexValue?_digitChar _ (by omega)]
  simp only [Option.bind_eq_bind, Option.bind_some, hvalue]

/-- No character has the code of a half of a pair. -/
theorem toNat_cases (c : Char) :
    c.toNat < 0xD800 ∨ 0xDFFF < c.toNat ∧ c.toNat < 0x110000 := by
  have hvalid := c.valid
  simp only [UInt32.isValidChar, Nat.isValidChar] at hvalid
  simp only [Char.toNat]
  omega

theorem scanUnicode_of_scanHex {text rest : List Char} {code : Nat}
    (hscan : scanHex text = some (code, rest)) (hcode : code < 0xD800 ∨ 0xDFFF < code) :
    scanUnicode text = some (Char.ofNat code, rest) := by
  unfold scanUnicode
  rw [hscan]
  dsimp only
  rw [if_neg (by omega), if_neg (by omega)]

theorem scanUnicode_of_pair {text middle rest : List Char} {high low : Nat}
    (hhigh : scanHex text = some (high, '\\' :: 'u' :: middle))
    (hlow : scanHex middle = some (low, rest)) (hhighCode : 0xD800 ≤ high ∧ high < 0xDC00)
    (hlowCode : 0xDC00 ≤ low ∧ low < 0xE000) :
    scanUnicode text =
      some (Char.ofNat (65536 + (high - 0xD800) * 1024 + (low - 0xDC00)), rest) := by
  unfold scanUnicode
  rw [hhigh]
  dsimp only
  rw [if_pos hhighCode]
  unfold scanLow
  rw [if_pos ⟨middle, rfl⟩]
  simp only [List.drop_succ_cons, List.drop_zero]
  rw [hlow]
  dsimp only
  rw [if_pos hlowCode]

theorem scanUnicode_hexText (c : Char) (hcode : c.toNat < 65536) (rest : List Char) :
    scanUnicode (hexText c.toNat ++ rest) = some (c, rest) := by
  have hcases : c.toNat < 0xD800 ∨ 0xDFFF < c.toNat := (toNat_cases c).imp_right And.left
  rw [scanUnicode_of_scanHex (scanHex_hexText hcode rest) hcases, Char.ofNat_toNat]

theorem scanUnicode_pair (c : Char) (hcode : 65536 ≤ c.toNat) (rest : List Char) :
    scanUnicode (hexText (0xD800 + (c.toNat - 65536) / 1024) ++
      '\\' :: 'u' :: (hexText (0xDC00 + (c.toNat - 65536) % 1024) ++ rest)) = some (c, rest) := by
  have hcases := toNat_cases c
  generalize hoffset : c.toNat - 65536 = offset
  have hlt : offset < 1048576 := by omega
  have hpair : 65536 + (0xD800 + offset / 1024 - 0xD800) * 1024 +
      (0xDC00 + offset % 1024 - 0xDC00) = c.toNat := by
    omega
  rw [scanUnicode_of_pair (scanHex_hexText (by omega) _) (scanHex_hexText (by omega) _)
    (by omega) (by omega), hpair, Char.ofNat_toNat]

theorem scanString_backslash {fuel : Nat} {c : Char} {text rest : List Char}
    (hescape : scanEscape text = some (c, rest)) :
    scanString (fuel + 1) ('\\' :: text) =
      (scanString fuel rest).map fun found => (c :: found.1, found.2) := by
  rw [scanString, if_neg (by decide), if_pos rfl, hescape]

theorem scanEscape_unicode (text : List Char) : scanEscape ('u' :: text) = scanUnicode text := by
  simp [scanEscape]

theorem eq_of_toNat {c : Char} {code : Nat} (hcode : c.toNat = code) : Char.ofNat code = c := by
  rw [← hcode, Char.ofNat_toNat]

theorem scanString_escapeChar (c : Char) (fuel : Nat) (rest : List Char) :
    scanString (fuel + 1) (escapeChar c ++ rest) =
      (scanString fuel rest).map fun found => (c :: found.1, found.2) := by
  unfold escapeChar
  split
  next heq => exact scanString_backslash (by rw [heq]; rfl)
  split
  next heq => exact scanString_backslash (by rw [heq]; rfl)
  split
  next heq => exact scanString_backslash (by rw [heq]; rfl)
  split
  next heq => exact scanString_backslash (by rw [heq]; rfl)
  split
  next heq => exact scanString_backslash (by rw [heq]; rfl)
  split
  next hcode => exact scanString_backslash (by rw [← eq_of_toNat hcode]; rfl)
  split
  next hcode => exact scanString_backslash (by rw [← eq_of_toNat hcode]; rfl)
  split
  next hquote hbackslash _ _ _ _ _ hcode =>
    rw [List.singleton_append, scanString, if_neg hquote, if_neg hbackslash, if_neg (by omega)]
  split
  next hcode =>
    exact scanString_backslash ((scanEscape_unicode _).trans (scanUnicode_hexText c hcode rest))
  next hcode =>
    rw [List.append_assoc]
    exact scanString_backslash
      ((scanEscape_unicode _).trans (scanUnicode_pair c (by omega) rest))

theorem scanString_flatMap (value : List Char) {fuel : Nat} (hfuel : value.length < fuel)
    (rest : List Char) :
    scanString fuel (value.flatMap escapeChar ++ '"' :: rest) = some (value, rest) := by
  induction value generalizing fuel with
  | nil =>
      obtain ⟨fuel, rfl⟩ := Nat.exists_eq_succ_of_ne_zero hfuel.ne'
      rw [List.flatMap_nil, List.nil_append, scanString, if_pos rfl]
  | cons c value ih =>
      obtain ⟨fuel, rfl⟩ := Nat.exists_eq_succ_of_ne_zero (Nat.ne_zero_of_lt hfuel)
      rw [List.flatMap_cons, List.append_assoc, scanString_escapeChar,
        ih (Nat.lt_of_succ_lt_succ hfuel)]
      rfl

theorem length_escapeChar_pos (c : Char) : 0 < (escapeChar c).length := by
  unfold escapeChar
  split_ifs <;> exact Nat.succ_pos _

theorem length_le_flatMap (value : List Char) :
    value.length ≤ (value.flatMap escapeChar).length := by
  induction value with
  | nil => exact Nat.le_refl _
  | cons c value ih =>
      have hpos := length_escapeChar_pos c
      rw [List.flatMap_cons, List.length_append, List.length_cons]
      omega

/-- The fuel is the length of the text. -/
theorem scanString_stringText (value rest : List Char) :
    scanString (value.flatMap escapeChar ++ '"' :: rest).length
      (value.flatMap escapeChar ++ '"' :: rest) = some (value, rest) := by
  apply scanString_flatMap
  have hle := length_le_flatMap value
  rw [List.length_append, List.length_cons]
  omega

/-! ## Numbers -/

theorem isDigit_toDigits {value : Nat} {c : Char} (hmem : c ∈ Nat.toDigits 10 value) :
    c.isDigit = true :=
  Nat.isDigit_of_mem_toDigits (by decide) (by decide) hmem

/-- Only zero begins with the digit zero. -/
theorem head_toDigits_ne {value : Nat} (hpos : 0 < value) :
    (Nat.toDigits 10 value).head? ≠ some '0' := by
  induction value using Nat.strong_induction_on with
  | _ value ih =>
      by_cases hsmall : value < 10
      · rw [Nat.toDigits_of_lt_base hsmall]
        interval_cases value <;> decide
      · rw [Nat.toDigits_of_base_le (by decide) (not_lt.mp hsmall)]
        rw [List.head?_append_of_ne_nil _ Nat.toDigits_ne_nil]
        exact ih (value / 10) (by omega) (by omega)

theorem span_digits {digits rest : List Char} (hdigits : ∀ c ∈ digits, c.isDigit = true)
    (hends : ∀ c ∈ rest.head?, c.isDigit = false) :
    (digits ++ rest).takeWhile Char.isDigit = digits ∧
      (digits ++ rest).dropWhile Char.isDigit = rest := by
  rw [List.takeWhile_append_of_pos hdigits, List.dropWhile_append_of_pos hdigits]
  cases rest with
  | nil => exact ⟨List.append_nil _, rfl⟩
  | cons c rest =>
      have hc := hends c rfl
      rw [List.takeWhile_cons_of_neg (by rw [hc]; decide), List.append_nil,
        List.dropWhile_cons_of_neg (by rw [hc]; decide)]
      exact ⟨rfl, rfl⟩

theorem scanNat_toDigits (value : Nat) {rest : List Char}
    (hends : ∀ c ∈ rest.head?, c.isDigit = false) :
    scanNat (Nat.toDigits 10 value ++ rest) = some (Nat.toDigits 10 value, rest) := by
  obtain rfl | hpos := Nat.eq_zero_or_pos value
  · rfl
  have hhead := head_toDigits_ne hpos
  have hdigits : ∀ c ∈ Nat.toDigits 10 value, c.isDigit = true := fun c => isDigit_toDigits
  cases htext : Nat.toDigits 10 value with
  | nil => exact absurd htext Nat.toDigits_ne_nil
  | cons c digits =>
      rw [htext] at hhead hdigits
      obtain ⟨htake, hdrop⟩ :=
        span_digits (fun c hc => hdigits c (List.mem_cons_of_mem _ hc)) hends
      rw [List.cons_append, scanNat, if_neg fun heq => hhead (congrArg some heq),
        if_pos (hdigits c List.mem_cons_self), htake, hdrop]

theorem scanInt_intText (value : Int) {rest : List Char}
    (hends : ∀ c ∈ rest.head?, c.isDigit = false) :
    scanInt (intText value ++ rest) = some (intText value, rest) := by
  unfold intText
  split
  · rw [List.cons_append, scanInt, if_pos rfl, scanNat_toDigits _ hends]
    rfl
  · have hscan := scanNat_toDigits value.natAbs hends
    cases htext : Nat.toDigits 10 value.natAbs with
    | nil => exact absurd htext Nat.toDigits_ne_nil
    | cons c digits =>
        have hdigit : c.isDigit = true := isDigit_toDigits (htext ▸ List.mem_cons_self)
        have hminus : c ≠ '-' := by
          rintro rfl
          cases hdigit
        rw [htext] at hscan
        rw [List.cons_append, scanInt, if_neg hminus]
        exact hscan

theorem scanFraction_of_ends {rest : List Char} (hends : NumberEnds rest) :
    scanFraction rest = ([], rest) := by
  cases rest with
  | nil => rfl
  | cons c rest => rw [scanFraction, if_neg fun hpoint => (hends c rfl).2.1 hpoint.1]

theorem scanExponent_of_ends {rest : List Char} (hends : NumberEnds rest) :
    scanExponent rest = ([], rest) := by
  cases rest with
  | nil => rfl
  | cons c rest =>
      obtain ⟨-, -, hlower, hupper⟩ := hends c rfl
      exact if_neg fun hexponent => hexponent.1.elim hlower hupper

theorem scanNumber_intText (value : Int) {rest : List Char} (hends : NumberEnds rest) :
    scanNumber (intText value ++ rest) = some (intText value, [], rest) := by
  rw [scanNumber, scanInt_intText value fun c hc => (hends c hc).1, Option.map_some,
    scanFraction_of_ends hends]
  dsimp only
  rw [scanExponent_of_ends hends]
  rfl

theorem intValue_intText (value : Int) : intValue (intText value) = value := by
  unfold intText
  split
  next hneg =>
    rw [intValue, List.head?_cons, if_pos rfl, List.tail_cons, Nat.ofDigitChars_ten_toDigits]
    omega
  next hneg =>
    have hminus : (Nat.toDigits 10 value.natAbs).head? ≠ some '-' := by
      intro hhead
      cases isDigit_toDigits (List.mem_of_mem_head? hhead)
    rw [intValue, if_neg hminus, Nat.ofDigitChars_ten_toDigits]
    omega

theorem head_of_scanNumber {text whole tail rest : List Char}
    (hscan : scanNumber text = some (whole, tail, rest)) :
    ∃ c behind, text = c :: behind ∧ (c = '-' ∨ c.isDigit = true) := by
  obtain ⟨found, hfound, -⟩ := Option.map_eq_some_iff.mp hscan
  cases text with
  | nil => cases hfound
  | cons c behind =>
      refine ⟨c, behind, rfl, ?_⟩
      rw [scanInt] at hfound
      split at hfound
      next heq => exact .inl heq
      next =>
        rw [scanNat] at hfound
        split at hfound
        next heq => exact .inr (heq ▸ rfl)
        next =>
          split at hfound
          next hdigit => exact .inr hdigit
          next => cases hfound

end JsonText

/-! ## Values -/

namespace JsonValue

variable {Float : Type}

/-- The keys of each object are distinct. -/
inductive Valid : JsonValue Float → Prop
  | null : Valid .null
  | bool (value : Bool) : Valid (.bool value)
  | int (value : Int) : Valid (.int value)
  | float (value : Float) : Valid (.float value)
  | str (value : List Char) : Valid (.str value)
  | arr {items : List (JsonValue Float)} (hitems : ∀ item ∈ items, Valid item) : Valid (.arr items)
  | obj {entries : List (List Char × JsonValue Float)} (hkeys : (entries.map Prod.fst).Nodup)
      (hvalues : ∀ entry ∈ entries, Valid entry.2) : Valid (.obj entries)

end JsonValue

namespace JsonText

variable {Float : Type} {format : FloatFormat Float}

/-- A value is written as something that does not begin with a blank, or end an array. -/
theorem head_dumps (format : FloatFormat Float) (value : JsonValue Float) :
    ∃ c rest, dumps format value = c :: rest ∧ isBlank c = false ∧ c ≠ ']' := by
  have hnumber : ∀ c : Char, c = '-' ∨ c.isDigit = true → isBlank c = false ∧ c ≠ ']' := by
    rintro c (rfl | hdigit)
    · decide
    · constructor
      · apply Bool.eq_false_iff.mpr
        intro hblank
        simp only [isBlank, Bool.or_eq_true, decide_eq_true_eq, or_assoc] at hblank
        obtain rfl | rfl | rfl | rfl := hblank <;> cases hdigit
      · rintro rfl
        cases hdigit
  have hscanned : ∀ text found, scanNumber text = some found →
      ∃ c rest, text = c :: rest ∧ isBlank c = false ∧ c ≠ ']' := by
    intro text found hscan
    obtain ⟨c, rest, htext, hc⟩ := head_of_scanNumber hscan
    exact ⟨c, rest, htext, hnumber c hc⟩
  have hnil : NumberEnds [] := by
    intro c hc
    cases hc
  unfold dumps
  cases value with
  | null => exact ⟨_, _, rfl, by decide, by decide⟩
  | bool value => cases value <;> exact ⟨_, _, rfl, by decide, by decide⟩
  | int value =>
      have hscan := scanNumber_intText value hnil
      rw [List.append_nil] at hscan
      exact hscanned _ _ hscan
  | float value =>
      obtain ⟨whole, tail, -, -, hscan⟩ := format.scanNumber_repr value
      have hscan := hscan [] hnil
      rw [List.append_nil] at hscan
      exact hscanned _ _ hscan
  | str value => exact ⟨_, _, rfl, by decide, by decide⟩
  | arr items => cases items <;> exact ⟨_, _, rfl, by decide, by decide⟩
  | obj entries => cases entries <;> exact ⟨_, _, rfl, by decide, by decide⟩

theorem skipBlank_cons {c : Char} (hc : isBlank c = false) (rest : List Char) :
    skipBlank (c :: rest) = c :: rest :=
  List.dropWhile_cons_of_neg (by rw [hc]; decide)

theorem skipBlank_dumps (format : FloatFormat Float) (value : JsonValue Float) (rest : List Char) :
    skipBlank (dumps format value ++ rest) = dumps format value ++ rest := by
  obtain ⟨c, behind, htext, hc, -⟩ := head_dumps format value
  rw [htext]
  exact skipBlank_cons hc _

theorem scanKey_stringText (key rest : List Char) (hrest : skipBlank rest = rest) :
    scanKey (stringText key ++ ':' :: ' ' :: rest) = some (key, rest) := by
  have hskip : skipBlank (' ' :: rest) = rest := hrest
  have htext : stringText key ++ ':' :: ' ' :: rest =
      '"' :: (key.flatMap escapeChar ++ '"' :: ':' :: ' ' :: rest) := by
    simp [stringText]
  rw [htext, scanKey, List.head?_cons, if_pos rfl, List.tail_cons, scanString_stringText]
  dsimp only
  rw [skipBlank_cons (by decide), List.head?_cons, if_pos rfl, List.tail_cons, hskip]

/-- What is written for a value is read as the value. -/
def Reads (format : FloatFormat Float) (value : JsonValue Float) : Prop :=
  ∀ fuel rest, (dumps format value).length ≤ fuel → NumberEnds rest →
    scanOnce format fuel (dumps format value ++ rest) = some (value, rest)

theorem numberEnds_cons {c : Char} (hc : c = ',' ∨ c = ']' ∨ c = '}') (rest : List Char) :
    NumberEnds (c :: rest) := by
  intro other hother
  cases hother
  obtain rfl | rfl | rfl := hc <;> decide

theorem numberEnds_dumpItems (items : List (JsonValue Float)) (rest : List Char) :
    NumberEnds (dumpItems format items ++ rest) := by
  cases items with
  | nil => exact numberEnds_cons (.inr (.inl rfl)) rest
  | cons item items => exact numberEnds_cons (.inl rfl) _

theorem numberEnds_dumpEntries (entries : List (List Char × JsonValue Float)) (rest : List Char) :
    NumberEnds (dumpEntries format entries ++ rest) := by
  cases entries with
  | nil => exact numberEnds_cons (.inr (.inr rfl)) rest
  | cons entry entries => exact numberEnds_cons (.inl rfl) _

theorem scanItems_dumpItems {items : List (JsonValue Float)}
    (hitems : ∀ item ∈ items, Reads format item) {fuel : Nat} (rest : List Char)
    (hfuel : (dumpItems format items).length ≤ fuel) :
    scanItems format fuel (dumpItems format items ++ rest) = some (items, rest) := by
  induction items generalizing fuel with
  | nil =>
      obtain ⟨fuel, rfl⟩ := Nat.exists_eq_succ_of_ne_zero (Nat.ne_zero_of_lt hfuel)
      rfl
  | cons item items ih =>
      rw [dumpItems, List.length_cons, List.length_cons, List.length_append] at hfuel
      obtain ⟨fuel, rfl⟩ := Nat.exists_eq_succ_of_ne_zero (Nat.ne_zero_of_lt hfuel)
      have hitem := hitems item List.mem_cons_self fuel (dumpItems format items ++ rest) (by omega)
        (numberEnds_dumpItems items rest)
      have hfuel : (dumpItems format items).length ≤ fuel := by omega
      have hrest := ih (fun other hother => hitems other (List.mem_cons_of_mem _ hother)) hfuel
      have hskip : skipBlank (' ' :: (dumps format item ++ (dumpItems format items ++ rest))) =
          dumps format item ++ (dumpItems format items ++ rest) := skipBlank_dumps format item _
      rw [dumpItems, List.cons_append, List.cons_append, List.append_assoc, scanItems,
        skipBlank_cons (by decide)]
      dsimp only
      rw [if_neg (by decide), if_pos rfl, hskip, hitem]
      dsimp only
      rw [hrest]
      rfl

theorem scanEntries_dumpEntries {entries : List (List Char × JsonValue Float)}
    (hentries : ∀ entry ∈ entries, Reads format entry.2) {fuel : Nat} (rest : List Char)
    (hfuel : (dumpEntries format entries).length ≤ fuel) :
    scanEntries format fuel (dumpEntries format entries ++ rest) = some (entries, rest) := by
  induction entries generalizing fuel with
  | nil =>
      obtain ⟨fuel, rfl⟩ := Nat.exists_eq_succ_of_ne_zero (Nat.ne_zero_of_lt hfuel)
      rfl
  | cons entry entries ih =>
      obtain ⟨key, value⟩ := entry
      simp only [dumpEntries, List.length_cons, List.length_append] at hfuel
      obtain ⟨fuel, rfl⟩ := Nat.exists_eq_succ_of_ne_zero (Nat.ne_zero_of_lt hfuel)
      have hle : (dumps format value).length ≤ fuel := by omega
      have hvalue := hentries (key, value) List.mem_cons_self fuel
        (dumpEntries format entries ++ rest) hle (numberEnds_dumpEntries entries rest)
      have hfuel : (dumpEntries format entries).length ≤ fuel := by omega
      have hrest := ih (fun other hother => hentries other (List.mem_cons_of_mem _ hother)) hfuel
      have htext : dumpEntries format ((key, value) :: entries) ++ rest =
          ',' :: ' ' :: (stringText key ++
            ':' :: ' ' :: (dumps format value ++ (dumpEntries format entries ++ rest))) := by
        simp [dumpEntries]
      have hskip : ∀ behind, skipBlank (' ' :: (stringText key ++ behind)) =
          stringText key ++ behind := fun behind => rfl
      rw [htext, scanEntries, skipBlank_cons (by decide)]
      dsimp only
      rw [if_neg (by decide), if_pos rfl, hskip,
        scanKey_stringText key _ (skipBlank_dumps format value _)]
      dsimp only
      rw [hvalue]
      dsimp only
      rw [hrest]
      rfl

/-- Nothing is set twice. -/
theorem dictionary_of_nodup {pairs : List (List Char × JsonValue Float)}
    (hnodup : (pairs.map Prod.fst).Nodup) : dictionary pairs = pairs := by
  have hfold : ∀ dict : Dict (List Char) (JsonValue Float),
      (dict.keys ++ pairs.map Prod.fst).Nodup →
        (pairs.foldl (fun dict pair => dict.set pair.1 pair.2) dict).entries =
          dict.entries ++ pairs := by
    clear hnodup
    induction pairs with
    | nil =>
        intro dict _
        exact (List.append_nil _).symm
    | cons pair pairs ih =>
        intro dict hnodup
        have hnew : pair.1 ∉ dict.keys := by
          intro hmem
          exact (List.nodup_append.mp hnodup).2.2 pair.1 hmem pair.1 List.mem_cons_self rfl
        have hset : (dict.set pair.1 pair.2).entries = dict.entries ++ [pair] := by
          rw [Dict.set, dif_neg hnew]
        rw [List.foldl_cons, ih, hset, List.append_assoc]
        · rfl
        · rw [Dict.keys_set_of_notMem hnew, List.append_assoc]
          exact hnodup
  exact hfold Dict.empty hnodup

theorem scanWord_number {c : Char} (hc : c = '-' ∨ c.isDigit = true) (rest : List Char) :
    (scanWord (c :: rest) : Option (JsonValue Float × List Char)) = none := by
  have hletter : ∀ (first : Char) (word : List Char), first.isDigit = false → first ≠ '-' →
      ¬first :: word <+: c :: rest := by
    intro first word hdigit hminus hbegins
    obtain ⟨heq, -⟩ := List.cons_prefix_cons.mp hbegins
    obtain hc | hc := hc
    · exact hminus (heq.trans hc)
    · rw [heq, hc] at hdigit
      cases hdigit
  have hnull : ¬"null".toList <+: c :: rest := hletter 'n' ['u', 'l', 'l'] (by decide) (by decide)
  have htrue : ¬"true".toList <+: c :: rest := hletter 't' ['r', 'u', 'e'] (by decide) (by decide)
  have hfalse : ¬"false".toList <+: c :: rest :=
    hletter 'f' ['a', 'l', 's', 'e'] (by decide) (by decide)
  unfold scanWord
  rw [if_neg hnull, if_neg htrue, if_neg hfalse]

theorem scanOnce_number {text whole tail rest : List Char} {fuel : Nat}
    (hscan : scanNumber text = some (whole, tail, rest)) (hfuel : 0 < fuel) :
    scanOnce format fuel text = some (numberValue format whole tail, rest) := by
  obtain ⟨c, behind, rfl, hc⟩ := head_of_scanNumber hscan
  have hne : ∀ other : Char, other.isDigit = false → other ≠ '-' → c ≠ other := by
    rintro other hdigit hminus rfl
    obtain hc | hc := hc
    · exact hminus hc
    · rw [hc] at hdigit
      cases hdigit
  obtain ⟨fuel, rfl⟩ := Nat.exists_eq_succ_of_ne_zero hfuel.ne'
  rw [scanOnce, if_neg (hne _ (by decide) (by decide)), if_neg (hne _ (by decide) (by decide)),
    if_neg (hne _ (by decide) (by decide)), scanWord_number hc, hscan]
  rfl

theorem exists_fuel {value : JsonValue Float} {fuel : Nat}
    (hfuel : (dumps format value).length ≤ fuel) : ∃ less, fuel = less + 1 := by
  obtain ⟨c, behind, htext, -⟩ := head_dumps format value
  rw [htext] at hfuel
  exact Nat.exists_eq_succ_of_ne_zero (Nat.ne_zero_of_lt hfuel)

theorem reads_arr {first : JsonValue Float} {items : List (JsonValue Float)}
    (hfirst : Reads format first) (hitems : ∀ item ∈ items, Reads format item) :
    Reads format (.arr (first :: items)) := by
  intro fuel rest hfuel hends
  obtain ⟨fuel, rfl⟩ := exists_fuel hfuel
  simp only [dumps, List.length_cons, List.length_append] at hfuel
  have hvalue := hfirst fuel (dumpItems format items ++ rest) (by omega)
    (numberEnds_dumpItems items rest)
  have hrest := scanItems_dumpItems hitems rest (show _ ≤ fuel by omega)
  obtain ⟨c, behind, htext, -, hbracket⟩ := head_dumps format first
  have hhead : (dumps format first ++ (dumpItems format items ++ rest)).head? ≠ some ']' := by
    rw [htext]
    intro heq
    exact hbracket (Option.some.inj heq)
  rw [dumps, List.cons_append, List.append_assoc, scanOnce, if_neg (by decide), if_pos rfl,
    skipBlank_dumps, if_neg hhead, hvalue]
  dsimp only
  rw [hrest]
  rfl

theorem reads_obj {key : List Char} {first : JsonValue Float}
    {entries : List (List Char × JsonValue Float)} (hfirst : Reads format first)
    (hentries : ∀ entry ∈ entries, Reads format entry.2)
    (hkeys : (((key, first) :: entries).map Prod.fst).Nodup) :
    Reads format (.obj ((key, first) :: entries)) := by
  intro fuel rest hfuel hends
  obtain ⟨fuel, rfl⟩ := exists_fuel hfuel
  simp only [dumps, List.length_cons, List.length_append] at hfuel
  have hvalue := hfirst fuel (dumpEntries format entries ++ rest) (by omega)
    (numberEnds_dumpEntries entries rest)
  have hrest := scanEntries_dumpEntries hentries rest (show _ ≤ fuel by omega)
  have htext : dumps format (.obj ((key, first) :: entries)) ++ rest =
      '{' :: (stringText key ++
        ':' :: ' ' :: (dumps format first ++ (dumpEntries format entries ++ rest))) := by
    simp [dumps]
  have hskip : ∀ behind, skipBlank (stringText key ++ behind) = stringText key ++ behind :=
    fun behind => rfl
  have hhead : ∀ behind, (stringText key ++ behind).head? ≠ some '}' := by
    intro behind heq
    cases heq
  rw [htext, scanOnce, if_neg (by decide), if_neg (by decide), if_pos rfl, hskip,
    if_neg (hhead _), scanKey_stringText key _ (skipBlank_dumps format first _)]
  dsimp only
  rw [hvalue]
  dsimp only
  rw [hrest, Option.map_some, dictionary_of_nodup hkeys]

/-- Each value is read again. -/
theorem reads_of_valid (format : FloatFormat Float) {value : JsonValue Float}
    (hvalid : value.Valid) : Reads format value := by
  induction hvalid with
  | null =>
      intro fuel rest hfuel hends
      obtain ⟨fuel, rfl⟩ := exists_fuel hfuel
      rfl
  | bool value =>
      intro fuel rest hfuel hends
      obtain ⟨fuel, rfl⟩ := exists_fuel hfuel
      cases value <;> rfl
  | int value =>
      intro fuel rest hfuel hends
      obtain ⟨fuel, rfl⟩ := exists_fuel hfuel
      rw [dumps, scanOnce_number (scanNumber_intText value hends) (Nat.succ_pos _), numberValue,
        if_pos rfl, intValue_intText]
  | float value =>
      intro fuel rest hfuel hends
      obtain ⟨fuel, rfl⟩ := exists_fuel hfuel
      obtain ⟨whole, tail, htail, htext, hscan⟩ := format.scanNumber_repr value
      rw [dumps, scanOnce_number (hscan rest hends) (Nat.succ_pos _), numberValue, if_neg htail,
        ← htext, format.read_repr]
  | str value =>
      intro fuel rest hfuel hends
      obtain ⟨fuel, rfl⟩ := exists_fuel hfuel
      have htext : dumps format (.str value) ++ rest =
          '"' :: (value.flatMap escapeChar ++ '"' :: rest) := by
        simp [dumps, stringText]
      rw [htext, scanOnce, if_pos rfl, scanString_stringText]
      rfl
  | @arr items hitems ih =>
      cases items with
      | nil =>
          intro fuel rest hfuel hends
          obtain ⟨fuel, rfl⟩ := exists_fuel hfuel
          rfl
      | cons first items =>
          apply reads_arr (ih first List.mem_cons_self)
          exact fun item hitem => ih item (List.mem_cons_of_mem _ hitem)
  | @obj entries hkeys hvalues ih =>
      cases entries with
      | nil =>
          intro fuel rest hfuel hends
          obtain ⟨fuel, rfl⟩ := exists_fuel hfuel
          rfl
      | cons entry entries =>
          obtain ⟨key, first⟩ := entry
          refine reads_obj (ih (key, first) List.mem_cons_self) ?_ hkeys
          exact fun entry hentry => ih entry (List.mem_cons_of_mem _ hentry)

/-- `json.loads` undoes `json.dumps`. -/
theorem loads_dumps {value : JsonValue Float} (hvalid : value.Valid) :
    loads format (dumps format value) = some value := by
  have hnil : NumberEnds [] := by
    intro c hc
    cases hc
  have hscan := reads_of_valid format hvalid ((dumps format value).length + 1) []
    (Nat.le_succ _) hnil
  have hskip := skipBlank_dumps format value []
  rw [List.append_nil] at hscan hskip
  rw [loads, hskip, hscan]
  rfl

/-! ## What is read -/

theorem mem_dictionary {pairs : List (List Char × JsonValue Float)}
    {entry : List Char × JsonValue Float} (hmem : entry ∈ dictionary pairs) :
    ∃ pair ∈ pairs, pair.2 = entry.2 := by
  have hfold : ∀ dict : Dict (List Char) (JsonValue Float),
      entry.2 ∈ (pairs.foldl (fun dict pair => dict.set pair.1 pair.2) dict).values →
        entry.2 ∈ dict.values ∨ ∃ pair ∈ pairs, pair.2 = entry.2 := by
    clear hmem
    induction pairs with
    | nil => exact fun dict hvalue => .inl hvalue
    | cons pair pairs ih =>
        intro dict hvalue
        obtain hvalue | ⟨other, hother, heq⟩ := ih _ hvalue
        · obtain heq | hvalue := Dict.mem_values_set hvalue
          · exact .inr ⟨pair, List.mem_cons_self, heq.symm⟩
          · exact .inl hvalue
        · exact .inr ⟨other, List.mem_cons_of_mem _ hother, heq⟩
  obtain hnil | hfound := hfold Dict.empty (List.mem_map_of_mem hmem)
  · cases hnil
  · exact hfound

theorem valid_dictionary {pairs : List (List Char × JsonValue Float)}
    (hpairs : ∀ pair ∈ pairs, pair.2.Valid) : (JsonValue.obj (dictionary pairs)).Valid := by
  constructor
  · exact Dict.nodup _
  · intro entry hentry
    obtain ⟨pair, hpair, heq⟩ := mem_dictionary hentry
    exact heq ▸ hpairs pair hpair

theorem valid_of_scanWord {text rest : List Char} {value : JsonValue Float}
    (hscan : scanWord text = some (value, rest)) : value.Valid := by
  unfold scanWord at hscan
  split at hscan
  · cases hscan
    exact .null
  split at hscan
  · cases hscan
    exact .bool true
  split at hscan
  · cases hscan
    exact .bool false
  · cases hscan

theorem valid_numberValue (whole tail : List Char) : (numberValue format whole tail).Valid := by
  unfold numberValue
  split
  · exact .int _
  · exact .float _

theorem valid_of_scan (fuel : Nat) :
    (∀ text value rest, scanOnce format fuel text = some (value, rest) → value.Valid) ∧
      (∀ text items rest, scanItems format fuel text = some (items, rest) →
        ∀ item ∈ items, item.Valid) ∧
      ∀ text entries rest, scanEntries format fuel text = some (entries, rest) →
        ∀ entry ∈ entries, entry.2.Valid := by
  induction fuel with
  | zero =>
      refine ⟨?_, ?_, ?_⟩
      · intro text value rest hscan
        rw [scanOnce] at hscan
        cases hscan
      · intro text items rest hscan
        cases hscan
      · intro text entries rest hscan
        cases hscan
  | succ fuel ih =>
      obtain ⟨ihOnce, ihItems, ihEntries⟩ := ih
      refine ⟨?_, ?_, ?_⟩
      · intro text value rest hscan
        cases text with
        | nil => cases hscan
        | cons c text =>
            rw [scanOnce] at hscan
            split at hscan
            · obtain ⟨found, -, heq⟩ := Option.map_eq_some_iff.mp hscan
              cases heq
              exact .str _
            split at hscan
            · split at hscan
              · cases hscan
                apply JsonValue.Valid.arr
                intro item hnil
                cases hnil
              split at hscan
              · cases hscan
              next first behind hfirst =>
                obtain ⟨found, hfound, heq⟩ := Option.map_eq_some_iff.mp hscan
                cases heq
                apply JsonValue.Valid.arr
                intro item hitem
                obtain rfl | hitem := List.mem_cons.mp hitem
                · exact ihOnce _ _ _ hfirst
                · exact ihItems _ _ _ hfound item hitem
            split at hscan
            · split at hscan
              · cases hscan
                exact .obj List.nodup_nil fun entry hnil => by cases hnil
              split at hscan
              · cases hscan
              split at hscan
              · cases hscan
              next first behind hfirst =>
                obtain ⟨found, hfound, heq⟩ := Option.map_eq_some_iff.mp hscan
                cases heq
                apply valid_dictionary
                intro pair hpair
                obtain rfl | hpair := List.mem_cons.mp hpair
                · exact ihOnce _ _ _ hfirst
                · exact ihEntries _ _ _ hfound pair hpair
            split at hscan
            next found hword =>
              cases hscan
              exact valid_of_scanWord hword
            next =>
              obtain ⟨found, -, heq⟩ := Option.map_eq_some_iff.mp hscan
              cases heq
              exact valid_numberValue _ _
      · intro text items rest hscan
        rw [scanItems] at hscan
        split at hscan
        · cases hscan
        split at hscan
        · cases hscan
          intro item hnil
          cases hnil
        split at hscan
        · split at hscan
          · cases hscan
          next first behind hfirst =>
            obtain ⟨found, hfound, heq⟩ := Option.map_eq_some_iff.mp hscan
            cases heq
            intro item hitem
            obtain rfl | hitem := List.mem_cons.mp hitem
            · exact ihOnce _ _ _ hfirst
            · exact ihItems _ _ _ hfound item hitem
        · cases hscan
      · intro text entries rest hscan
        rw [scanEntries] at hscan
        split at hscan
        · cases hscan
        split at hscan
        · cases hscan
          intro entry hnil
          cases hnil
        split at hscan
        · split at hscan
          · cases hscan
          split at hscan
          · cases hscan
          next first behind hfirst =>
            obtain ⟨found, hfound, heq⟩ := Option.map_eq_some_iff.mp hscan
            cases heq
            intro entry hentry
            obtain rfl | hentry := List.mem_cons.mp hentry
            · exact ihOnce _ _ _ hfirst
            · exact ihEntries _ _ _ hfound entry hentry
        · cases hscan

/-- What `json.loads` returns can be written. -/
theorem valid_of_loads {text : List Char} {value : JsonValue Float}
    (hloads : loads format text = some value) : value.Valid := by
  unfold loads at hloads
  split at hloads
  · cases hloads
  next value rest hscan =>
    split at hloads
    · cases hloads
      exact (valid_of_scan _).1 _ _ _ hscan
    · cases hloads

end JsonText

/-! ## A format -/

/-- Numbers with one digit behind the point. -/
def FloatFormat.tenths : FloatFormat (Nat × Fin 10) where
  repr value := Nat.toDigits 10 value.1 ++ ['.', Nat.digitChar value.2]
  read text :=
    (Nat.ofDigitChars 10 (text.takeWhile Char.isDigit) 0,
      Fin.ofNat 10 (Nat.ofDigitChars 10 ((text.dropWhile Char.isDigit).drop 1) 0))
  read_repr := by
    rintro ⟨whole, tenth⟩
    have hdigits : ∀ c ∈ Nat.toDigits 10 whole, c.isDigit = true := fun c =>
      JsonText.isDigit_toDigits
    obtain ⟨htake, hdrop⟩ := @JsonText.span_digits _ ['.', Nat.digitChar tenth] hdigits
      (by rintro c ⟨⟩; decide)
    have htenth : ∀ tenth : Fin 10,
        Fin.ofNat 10 (Nat.ofDigitChars 10 [Nat.digitChar tenth] 0) = tenth := by decide
    dsimp only
    rw [htake, hdrop, Nat.ofDigitChars_ten_toDigits]
    exact congrArg (Prod.mk whole) (htenth tenth)
  scanNumber_repr := by
    rintro ⟨whole, tenth⟩
    refine ⟨Nat.toDigits 10 whole, ['.', Nat.digitChar tenth], List.cons_ne_nil _ _, rfl, ?_⟩
    intro rest hends
    have hdigit : ∀ tenth : Fin 10, (Nat.digitChar tenth).isDigit = true := by decide
    have hscan := @JsonText.scanInt_intText whole ('.' :: Nat.digitChar tenth :: rest)
      (by rintro c ⟨⟩; decide)
    have htext : JsonText.intText whole = Nat.toDigits 10 whole := if_neg (by omega)
    obtain ⟨htake, hdrop⟩ := @JsonText.span_digits [Nat.digitChar tenth] rest
      (by simp [hdigit tenth]) fun c hc => (hends c hc).1
    rw [List.singleton_append] at htake hdrop
    have hfraction : JsonText.scanFraction ('.' :: Nat.digitChar tenth :: rest) =
        (['.', Nat.digitChar tenth], rest) := by
      rw [JsonText.scanFraction, htake, hdrop, if_pos ⟨rfl, List.cons_ne_nil _ _⟩]
    rw [htext] at hscan
    rw [JsonText.scanNumber, List.append_assoc]
    refine (congrArg _ hscan).trans ?_
    rw [Option.map_some]
    dsimp only
    rw [hfraction]
    dsimp only
    rw [JsonText.scanExponent_of_ends hends]
    rfl

end ShuttleFlow
