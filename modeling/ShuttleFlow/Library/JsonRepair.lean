import ShuttleFlow.Library.JsonControls

/-! # Repaired JSON texts

A text in which control characters are replaced by escapes is read as before if all of them stand
in string literals, and is not read at all otherwise.
-/

namespace ShuttleFlow

namespace JsonTree

open Scanner

variable {Float : Type} {read : List Char → Float} {escape : Char → List Char}

/-! ## Blanks, words and numbers -/

theorem skipBlank_repair (hescape : EscapesControl escape) (text : List Char) :
    (controlOutside .outside text = controlOutside .outside (JsonText.skipBlank text) ∧
      JsonText.skipBlank (repair escape text) = repair escape (JsonText.skipBlank text)) ∨
    (controlOutside .outside text = true ∧
      (JsonText.skipBlank (repair escape text)).head? = some '\\') := by
  induction text with
  | nil => exact .inl ⟨rfl, rfl⟩
  | cons c rest ih =>
      cases hcontrol : isControl c with
      | true =>
          have hhead := head_repair hescape hcontrol rest
          have hskip := skipBlank_of_head hhead
          refine .inr ⟨?_, ?_⟩
          · rw [controlOutside, hcontrol, Bool.true_or]
          · rwa [hskip]
      | false =>
          by_cases hblank : JsonText.isBlank c = true
          · have hquote : c ≠ '"' := by
              rintro rfl
              cases hblank
            have hskip : ∀ later, JsonText.skipBlank (c :: later) = JsonText.skipBlank later :=
              fun later => List.dropWhile_cons_of_pos hblank
            rwa [repair_cons_of_not hcontrol, hskip, hskip, controlOutside_cons hcontrol hquote]
          · have hskip : ∀ later, JsonText.skipBlank (c :: later) = c :: later :=
              fun later => List.dropWhile_cons_of_neg hblank
            refine .inl ⟨?_, ?_⟩
            · rw [hskip]
            · rw [hskip, repair_cons_of_not hcontrol, hskip]

theorem prefix_repair (hescape : EscapesControl escape) {word : List Char}
    (hplain : ∀ c ∈ word, Plain c) (text : List Char) :
    word <+: repair escape text ↔ word <+: text := by
  induction word generalizing text with
  | nil => simp
  | cons a word ih =>
      obtain ⟨ha, -, hbackslash⟩ := hplain a List.mem_cons_self
      cases text with
      | nil => simp
      | cons c rest =>
          cases hcontrol : isControl c with
          | true =>
              obtain ⟨letters, hletters, -⟩ := hescape.reads c hcontrol
              rw [repair_cons, if_pos hcontrol, hletters, List.cons_append, List.cons_prefix_cons,
                List.cons_prefix_cons]
              constructor
              · exact fun hstart => absurd hstart.1 hbackslash
              · rintro ⟨rfl, -⟩
                rw [ha] at hcontrol
                cases hcontrol
          | false =>
              rw [repair_cons_of_not hcontrol, List.cons_prefix_cons, List.cons_prefix_cons,
                ih fun d hd => hplain d (.tail _ hd)]

theorem scanWord_repair (hescape : EscapesControl escape)
    {table : List (List Char × JsonTree Float)}
    (hplain : ∀ word ∈ table, ∀ c ∈ word.1, Plain c) (text : List Char) :
    scanWord table (repair escape text) =
      (scanWord table text).map fun found => (found.1, repair escape found.2) := by
  induction table with
  | nil => rfl
  | cons word table ih =>
      have hword := hplain word List.mem_cons_self
      have hrest := ih fun other hother => hplain other (.tail _ hother)
      by_cases hstart : word.1 <+: text
      · obtain ⟨later, rfl⟩ := hstart
        have hlater : word.1 <+: word.1 ++ later := List.prefix_append _ _
        have hrepaired := (prefix_repair hescape hword (word.1 ++ later)).mpr hlater
        rw [repair_append fun c hc => (hword c hc).1] at hrepaired ⊢
        simp [scanWord, hlater, hrepaired]
      · have hrepaired := mt (prefix_repair hescape hword text).mp hstart
        simpa [scanWord, List.find?_cons, hstart, hrepaired] using hrest

theorem controlOutside_of_scanWord {table : List (List Char × JsonTree Float)}
    (hplain : ∀ word ∈ table, ∀ c ∈ word.1, Plain c) {text rest : List Char}
    {value : JsonTree Float} (hscan : scanWord table text = some (value, rest)) :
    controlOutside .outside text = controlOutside .outside rest := by
  obtain ⟨word, hfind, heq⟩ := Option.map_eq_some_iff.mp hscan
  obtain ⟨rfl, rfl⟩ := Prod.mk.inj heq
  have hstart : word.1 <+: text := by simpa using List.find?_some hfind
  obtain ⟨later, rfl⟩ := hstart
  rw [controlOutside_append (hplain word (List.mem_of_find?_eq_some hfind)), List.drop_left]

theorem plain_words : ∀ word ∈ words read, ∀ c ∈ word.1, Plain c := by
  intro word hword
  simp only [words, List.mem_cons, List.not_mem_nil, or_false] at hword
  have hplain : ∀ letters : List Char,
      letters.all (fun c => !isControl c && c ≠ '"' && c ≠ '\\') = true →
        ∀ c ∈ letters, Plain c := by
    intro letters hall c hc
    have hletter := List.all_eq_true.mp hall c hc
    simpa [Plain, and_assoc] using hletter
  rcases hword with rfl | rfl | rfl | rfl | rfl | rfl
  · exact hplain "null".toList (by decide)
  · exact hplain "true".toList (by decide)
  · exact hplain "false".toList (by decide)
  · exact hplain "NaN".toList (by decide)
  · exact hplain "Infinity".toList (by decide)
  · exact hplain "-Infinity".toList (by decide)

theorem isDigit_bounds {c : Char} (hdigit : c.isDigit = true) : 48 ≤ c.toNat ∧ c.toNat ≤ 57 := by
  simp only [Char.isDigit, Bool.and_eq_true, decide_eq_true_eq] at hdigit
  exact hdigit

theorem plain_of_isDigit {c : Char} (hdigit : c.isDigit = true) : Plain c := by
  obtain ⟨hlow, hhigh⟩ := isDigit_bounds hdigit
  refine ⟨?_, ?_, ?_⟩
  · rw [isControl, decide_eq_false_iff_not]
    omega
  · rintro rfl
    exact absurd hlow (by decide)
  · rintro rfl
    exact absurd hhigh (by decide)

/-- A text splits into digits and what is behind them, and so does the repaired one. -/
theorem digits_repair (hescape : EscapesControl escape) (text : List Char) :
    (repair escape text).takeWhile Char.isDigit = text.takeWhile Char.isDigit ∧
      (repair escape text).dropWhile Char.isDigit =
        repair escape (text.dropWhile Char.isDigit) ∧
      controlOutside .outside (text.dropWhile Char.isDigit) = controlOutside .outside text := by
  induction text with
  | nil => exact ⟨rfl, rfl, rfl⟩
  | cons c rest ih =>
      by_cases hdigit : c.isDigit = true
      · obtain ⟨hcontrol, hquote, -⟩ := plain_of_isDigit hdigit
        rw [repair_cons_of_not hcontrol, List.takeWhile_cons_of_pos hdigit,
          List.takeWhile_cons_of_pos hdigit, List.dropWhile_cons_of_pos hdigit,
          List.dropWhile_cons_of_pos hdigit, ih.1, controlOutside_cons hcontrol hquote]
        exact ⟨rfl, ih.2⟩
      · have hrepaired : ∃ d later, repair escape (c :: rest) = d :: later ∧
            ¬ d.isDigit = true := by
          cases hcontrol : isControl c with
          | false => exact ⟨c, _, repair_cons_of_not hcontrol rest, hdigit⟩
          | true =>
              obtain ⟨letters, hletters, -⟩ := hescape.reads c hcontrol
              refine ⟨'\\', letters ++ repair escape rest, ?_, by decide⟩
              rw [repair_cons, if_pos hcontrol, hletters, List.cons_append]
        obtain ⟨d, later, heq, hd⟩ := hrepaired
        rw [List.takeWhile_cons_of_neg hdigit, List.dropWhile_cons_of_neg hdigit, heq,
          List.takeWhile_cons_of_neg hd, List.dropWhile_cons_of_neg hd]
        exact ⟨rfl, rfl, rfl⟩

theorem scanNat_repair (hescape : EscapesControl escape) {text whole rest : List Char}
    (hscan : JsonText.scanNat text = some (whole, rest)) :
    JsonText.scanNat (repair escape text) = some (whole, repair escape rest) ∧
      controlOutside .outside text = controlOutside .outside rest := by
  cases text with
  | nil => cases hscan
  | cons c later =>
      rw [JsonText.scanNat] at hscan
      split at hscan
      next hzero =>
        obtain ⟨rfl, rfl⟩ := Prod.mk.inj (Option.some.inj hscan)
        subst hzero
        rw [repair_cons_of_not rfl, controlOutside_cons rfl (by decide)]
        exact ⟨rfl, rfl⟩
      next hzero =>
        split at hscan
        next hdigit =>
          obtain ⟨rfl, rfl⟩ := Prod.mk.inj (Option.some.inj hscan)
          obtain ⟨hcontrol, hquote, -⟩ := plain_of_isDigit hdigit
          obtain ⟨htake, hdrop, hplace⟩ := digits_repair hescape later
          rw [repair_cons_of_not hcontrol, JsonText.scanNat, if_neg hzero, if_pos hdigit, htake,
            hdrop, hplace, controlOutside_cons hcontrol hquote]
          exact ⟨rfl, rfl⟩
        next => cases hscan

theorem scanInt_repair (hescape : EscapesControl escape) {text whole rest : List Char}
    (hscan : JsonText.scanInt text = some (whole, rest)) :
    JsonText.scanInt (repair escape text) = some (whole, repair escape rest) ∧
      controlOutside .outside text = controlOutside .outside rest := by
  cases text with
  | nil => cases hscan
  | cons c later =>
      rw [JsonText.scanInt] at hscan
      split at hscan
      next hminus =>
        subst hminus
        obtain ⟨⟨found, last⟩, hfound, heq⟩ := Option.map_eq_some_iff.mp hscan
        obtain ⟨rfl, rfl⟩ := Prod.mk.inj heq
        obtain ⟨hnat, hplace⟩ := scanNat_repair hescape hfound
        rw [repair_cons_of_not rfl, JsonText.scanInt, if_pos rfl, hnat,
          controlOutside_cons rfl (by decide), hplace]
        exact ⟨rfl, rfl⟩
      next hminus =>
        obtain ⟨hnat, hplace⟩ := scanNat_repair hescape hscan
        refine ⟨?_, hplace⟩
        cases hrepaired : repair escape (c :: later) with
        | nil =>
            rw [hrepaired] at hnat
            cases hnat
        | cons d last =>
            have hd : d ≠ '-' := by
              rcases head_repair_cases hescape (c :: later) with hsame | hbackslash
              · rw [hrepaired] at hsame
                obtain rfl := Option.some.inj hsame
                exact hminus
              · rw [hrepaired] at hbackslash
                obtain rfl := Option.some.inj hbackslash
                decide
            rw [JsonText.scanInt, if_neg hd, ← hrepaired, hnat]

theorem scanFraction_repair (hescape : EscapesControl escape) (text : List Char) :
    JsonText.scanFraction (repair escape text) =
        ((JsonText.scanFraction text).1, repair escape (JsonText.scanFraction text).2) ∧
      controlOutside .outside (JsonText.scanFraction text).2 = controlOutside .outside text := by
  cases text with
  | nil => exact ⟨rfl, rfl⟩
  | cons c rest =>
      by_cases hpoint : c = '.'
      · subst hpoint
        obtain ⟨htake, hdrop, hplace⟩ := digits_repair hescape rest
        have hkept : repair escape ('.' :: rest) = '.' :: repair escape rest :=
          repair_cons_of_not rfl rest
        rw [hkept, JsonText.scanFraction, JsonText.scanFraction, htake, hdrop]
        split
        next =>
          refine ⟨rfl, ?_⟩
          rw [controlOutside_cons rfl (by decide)]
          exact hplace
        next => exact ⟨hkept.symm ▸ rfl, rfl⟩
      · have hnone : ∀ d later, d ≠ '.' → JsonText.scanFraction (d :: later) = ([], d :: later) :=
          fun d later hd => if_neg fun hstart => hd hstart.1
        rw [hnone c rest hpoint]
        refine ⟨?_, rfl⟩
        cases hcontrol : isControl c with
        | false => rw [repair_cons_of_not hcontrol, hnone c _ hpoint]
        | true =>
            obtain ⟨letters, hletters, -⟩ := hescape.reads c hcontrol
            rw [repair_cons, if_pos hcontrol, hletters, List.cons_append, hnone _ _ (by decide)]

/-- A sign in front of an exponent. -/
theorem sign_repair (hescape : EscapesControl escape) (text : List Char) :
    (repair escape text).take (JsonText.signLength (repair escape text)) =
        text.take (JsonText.signLength text) ∧
      (repair escape text).drop (JsonText.signLength (repair escape text)) =
        repair escape (text.drop (JsonText.signLength text)) ∧
      controlOutside .outside (text.drop (JsonText.signLength text)) =
        controlOutside .outside text := by
  have hsigns : ∀ c rest, c = '+' ∨ c = '-' → JsonText.signLength (c :: rest) = 1 := by
    rintro c rest (rfl | rfl)
    · rfl
    · rfl
  have hnone : ∀ c rest, ¬ (c = '+' ∨ c = '-') → JsonText.signLength (c :: rest) = 0 := by
    intro c rest hc
    rw [JsonText.signLength, if_neg]
    rw [List.head?_cons, Option.some.injEq, Option.some.injEq]
    exact hc
  cases text with
  | nil => exact ⟨rfl, rfl, rfl⟩
  | cons c rest =>
      cases hcontrol : isControl c with
      | false =>
          rw [repair_cons_of_not hcontrol]
          by_cases hsign : c = '+' ∨ c = '-'
          · have hquote : c ≠ '"' := by
              rintro rfl
              exact absurd hsign (by decide)
            rw [hsigns _ _ hsign, hsigns _ _ hsign]
            exact ⟨rfl, rfl, (controlOutside_cons hcontrol hquote rest).symm⟩
          · rw [hnone _ _ hsign, hnone _ _ hsign]
            exact ⟨rfl, (repair_cons_of_not hcontrol rest).symm, rfl⟩
      | true =>
          obtain ⟨letters, hletters, -⟩ := hescape.reads c hcontrol
          have hsign : ¬ (c = '+' ∨ c = '-') := by
            rintro (rfl | rfl)
            · cases hcontrol
            · cases hcontrol
          have hrepaired : repair escape (c :: rest) = '\\' :: (letters ++ repair escape rest) := by
            rw [repair_cons, if_pos hcontrol, hletters, List.cons_append]
          rw [hnone _ _ hsign, hrepaired, hnone _ _ (by decide)]
          exact ⟨rfl, hrepaired.symm, rfl⟩

theorem scanExponent_repair (hescape : EscapesControl escape) (text : List Char) :
    JsonText.scanExponent (repair escape text) =
        ((JsonText.scanExponent text).1, repair escape (JsonText.scanExponent text).2) ∧
      controlOutside .outside (JsonText.scanExponent text).2 = controlOutside .outside text := by
  cases text with
  | nil => exact ⟨rfl, rfl⟩
  | cons c rest =>
      by_cases hletter : c = 'e' ∨ c = 'E'
      · have hplain : isControl c = false ∧ c ≠ '"' := by
          rcases hletter with rfl | rfl
          · exact ⟨rfl, by decide⟩
          · exact ⟨rfl, by decide⟩
        obtain ⟨hsign, hbehind, hplace⟩ := sign_repair hescape rest
        obtain ⟨htake, hdrop, hplaces⟩ :=
          digits_repair hescape (rest.drop (JsonText.signLength rest))
        rw [repair_cons_of_not hplain.1, JsonText.scanExponent, JsonText.scanExponent]
        simp only [hsign, hbehind, htake, hdrop]
        split
        next =>
          refine ⟨rfl, ?_⟩
          rw [controlOutside_cons hplain.1 hplain.2]
          exact hplaces.trans hplace
        next => exact ⟨(repair_cons_of_not hplain.1 rest).symm ▸ rfl, rfl⟩
      · have hnone : ∀ d later, ¬ (d = 'e' ∨ d = 'E') →
            JsonText.scanExponent (d :: later) = ([], d :: later) :=
          fun d later hd => if_neg fun hstart => hd hstart.1
        rw [hnone c rest hletter]
        refine ⟨?_, rfl⟩
        cases hcontrol : isControl c with
        | false => rw [repair_cons_of_not hcontrol, hnone c _ hletter]
        | true =>
            obtain ⟨letters, hletters, -⟩ := hescape.reads c hcontrol
            rw [repair_cons, if_pos hcontrol, hletters, List.cons_append, hnone _ _ (by decide)]

theorem scanNumber_repair (hescape : EscapesControl escape) {text rest : List Char}
    {value : JsonTree Float} (hscan : scanNumber read text = some (value, rest)) :
    scanNumber read (repair escape text) = some (value, repair escape rest) ∧
      controlOutside .outside text = controlOutside .outside rest := by
  obtain ⟨found, hfound, heq⟩ := Option.map_eq_some_iff.mp hscan
  obtain ⟨⟨whole, later⟩, hwhole, hparts⟩ := Option.map_eq_some_iff.mp hfound
  obtain ⟨hint, hplace⟩ := scanInt_repair hescape hwhole
  obtain ⟨hfraction, hfractionPlace⟩ := scanFraction_repair hescape later
  obtain ⟨hexponent, hexponentPlace⟩ :=
    scanExponent_repair hescape (JsonText.scanFraction later).2
  subst hparts
  obtain ⟨rfl, rfl⟩ := Prod.mk.inj heq
  refine ⟨?_, ?_⟩
  · rw [scanNumber, JsonText.scanNumber, hint]
    simp only [Option.map_some, hfraction, hexponent]
  · rw [hplace, ← hfractionPlace, ← hexponentPlace]

theorem scanPlain_repair (hescape : EscapesControl escape) {text rest : List Char}
    {value : JsonTree Float} (hscan : scanPlain read text = some (value, rest)) :
    scanPlain read (repair escape text) = some (value, repair escape rest) ∧
      controlOutside .outside text = controlOutside .outside rest := by
  have hrepaired := scanWord_repair hescape (@plain_words _ read) text
  rw [scanPlain] at hscan ⊢
  split at hscan
  next found hword =>
    obtain rfl := Option.some.inj hscan
    rw [hrepaired, hword]
    exact ⟨rfl, controlOutside_of_scanWord plain_words hword⟩
  next hword =>
    rw [hrepaired, hword]
    exact scanNumber_repair hescape hscan

/-! ## Texts as a whole -/

/-- What the loose scanner reads, the strict scanner reads in the repaired text if no control
character stands outside of the literals of it. Otherwise it gets stuck. -/
def Keeps (escape : Char → List Char) {α : Type} (loose strict : Scanner α) : Prop :=
  ∀ text value rest, loose text = some (value, rest) →
    (controlOutside .outside text = controlOutside .outside rest ∧
      strict (repair escape text) = some (value, repair escape rest)) ∨
    (controlOutside .outside text = true ∧ Off (strict (repair escape text)))

theorem congruent_keeps (hescape : EscapesControl escape) : Congruent (Keeps escape) where
  fail := by
    intro α scan text value rest hscan
    cases hscan
  give := by
    intro α value text found rest hscan
    obtain ⟨rfl, rfl⟩ := Prod.mk.inj (Option.some.inj hscan)
    exact .inl ⟨rfl, rfl⟩
  blanks := by
    intro text value rest hscan
    obtain ⟨-, rfl⟩ := Prod.mk.inj (Option.some.inj hscan)
    rcases skipBlank_repair hescape text with ⟨hplace, hskip⟩ | ⟨hplace, hskip⟩
    · exact .inl ⟨hplace, congrArg (fun rest => some ((), rest)) hskip⟩
    · refine .inr ⟨hplace, fun found behind hfound => ?_⟩
      obtain ⟨-, rfl⟩ := Prod.mk.inj (Option.some.inj hfound)
      exact hskip
  choose := by
    intro α sign taken other taken' other' hquote hbackslash hcontrol htaken hother
      text value rest hscan
    rw [choose] at hscan
    split at hscan
    next hsign =>
      obtain ⟨later, rfl⟩ : ∃ later, text = sign :: later :=
        ⟨text.tail, (List.cons_head?_tail hsign).symm⟩
      rw [repair_cons_of_not hcontrol, controlOutside_cons hcontrol hquote, choose,
        if_pos (List.head?_cons)]
      exact htaken later value rest hscan
    next hsign =>
      have hrepaired : (repair escape text).head? ≠ some sign := by
        rcases head_repair_cases hescape text with hsame | hhead
        · rwa [hsame]
        · rw [hhead]
          exact fun heq => hbackslash (Option.some.inj heq).symm
      rw [choose, if_neg hrepaired]
      exact hother text value rest hscan
  andThen := by
    intro α β first first' next next' hfirst hnext hstuck text value rest hscan
    obtain ⟨found, behind, hfound, hrest⟩ := andThen_eq_some hscan
    rcases hfirst text found behind hfound with ⟨hplace, hread⟩ | ⟨hplace, hoff⟩
    · rw [hplace, andThen_of_some hread]
      exact hnext found behind value rest hrest
    · refine .inr ⟨hplace, fun other last hother => ?_⟩
      obtain ⟨found', behind', hfound', hlast⟩ := andThen_eq_some hother
      exact hstuck found' behind' (hoff found' behind' hfound') other last hlast

theorem keeps_literal (hescape : EscapesControl escape) :
    Keeps escape (literal false) (literal true) := by
  intro text value rest hscan
  rw [literal] at hscan
  split at hscan
  next hquote =>
    obtain ⟨later, rfl⟩ : ∃ later, text = '"' :: later :=
      ⟨text.tail, (List.cons_head?_tail hquote).symm⟩
    obtain ⟨hread, hplace⟩ :=
      scanText_repair hescape (length_le_repair hescape later) hscan
    refine .inl ⟨hplace, ?_⟩
    rw [repair_cons_of_not rfl, literal, if_pos List.head?_cons]
    exact hread
  next => cases hscan

theorem keeps_scanScalar (hescape : EscapesControl escape) :
    Keeps escape (scanScalar read (literal false)) (scanScalar read (literal true)) := by
  intro text value rest hscan
  rw [scanScalar] at hscan
  split at hscan
  next hquote =>
    have hrepaired : (repair escape text).head? = some '"' := by
      obtain ⟨later, rfl⟩ : ∃ later, text = '"' :: later :=
        ⟨text.tail, (List.cons_head?_tail hquote).symm⟩
      rw [repair_cons_of_not rfl, List.head?_cons]
    rw [scanScalar, if_pos hrepaired]
    exact (congruent_keeps hescape).andThen (keeps_literal hescape)
      (fun units => (congruent_keeps hescape).give _) (fun units => stuck_give _)
      text value rest hscan
  next hquote =>
    obtain ⟨hread, hplace⟩ := scanPlain_repair hescape hscan
    have hrepaired : (repair escape text).head? ≠ some '"' := by
      rcases head_repair_cases hescape text with hsame | hhead
      · rwa [hsame]
      · rw [hhead]
        decide
    rw [scanScalar, if_neg hrepaired]
    exact .inl ⟨hplace, hread⟩

/-- A text that a loose loader reads is repaired if control characters stand nowhere but in its
literals, and spoilt otherwise. -/
theorem loads_repair (hescape : EscapesControl escape) {text : List Char}
    {value : JsonTree Float} (hloose : loads read (literal false) text = some value) :
    loads read (literal true) (repair escape text) =
      if controlOutside .outside text then none else some value := by
  have hfuel := Nat.succ_le_succ (length_le_repair hescape text)
  have hkeeps : Keeps escape (scanDocument read (literal false) (text.length + 1))
      (scanDocument read (literal true) ((repair escape text).length + 1)) :=
    related_scanDocument (congruent_keeps hescape)
      ⟨keeps_literal hescape, stuck_literal true⟩ (keeps_scanScalar hescape) hfuel
  rw [loads] at hloose
  split at hloose
  next => cases hloose
  next found rest hscan =>
    split at hloose
    next hnil =>
      obtain rfl := Option.some.inj hloose
      subst hnil
      rw [loads]
      rcases hkeeps text found [] hscan with ⟨hplace, hread⟩ | ⟨hplace, hoff⟩
      · rw [hplace, hread]
        rfl
      · rw [if_pos hplace]
        split
        next => rfl
        next other last hother =>
          have hlast := hoff other last hother
          rw [if_neg]
          rintro rfl
          cases hlast
    next => cases hloose

end JsonTree

end ShuttleFlow
