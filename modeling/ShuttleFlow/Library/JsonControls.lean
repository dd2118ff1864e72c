import ShuttleFlow.Library.JsonScan

/-! # Control characters in JSON texts

Every control character of a text is replaced by its escape, wherever it stands. In a string
literal that is what it stands for.
-/

namespace ShuttleFlow

namespace JsonTree

open Scanner

/-! ## Where control characters stand -/

inductive Place
  | outside
  | inside
  | escaped

/-- Where the next character stands. -/
def Place.next (place : Place) (c : Char) : Place :=
  match place with
  | .outside => if c = '"' then .inside else .outside
  | .inside => if c = '"' then .outside else if c = '\\' then .escaped else .inside
  | .escaped => .inside

/-- A control character stands outside of the string literals. -/
def controlOutside : Place → List Char → Bool
  | _, [] => false
  | .outside, c :: rest => isControl c || controlOutside (Place.outside.next c) rest
  | .inside, c :: rest => controlOutside (Place.inside.next c) rest
  | .escaped, _ :: rest => controlOutside .inside rest

/-- A character that is neither control, nor a quote, nor a backslash. -/
def Plain (c : Char) : Prop :=
  isControl c = false ∧ c ≠ '"' ∧ c ≠ '\\'

theorem controlOutside_cons {c : Char} (hcontrol : isControl c = false) (hquote : c ≠ '"')
    (rest : List Char) :
    controlOutside .outside (c :: rest) = controlOutside .outside rest := by
  rw [controlOutside, hcontrol, Place.next, if_neg hquote, Bool.false_or]

theorem controlOutside_append {first : List Char} (hplain : ∀ c ∈ first, Plain c)
    (rest : List Char) :
    controlOutside .outside (first ++ rest) = controlOutside .outside rest := by
  induction first with
  | nil => rfl
  | cons c first ih =>
      obtain ⟨hcontrol, hquote, -⟩ := hplain c List.mem_cons_self
      rw [List.cons_append, controlOutside_cons hcontrol hquote,
        ih fun d hd => hplain d (.tail _ hd)]

theorem controlOutside_inside {c : Char} (hquote : c ≠ '"') (hbackslash : c ≠ '\\')
    (rest : List Char) : controlOutside .inside (c :: rest) = controlOutside .inside rest := by
  rw [controlOutside, Place.next, if_neg hquote, if_neg hbackslash]

/-! ## Replacing them by escapes -/

/-- Control characters have escapes that stand for them. -/
structure EscapesControl (escape : Char → List Char) : Prop where
  reads : ∀ c, isControl c = true → ∃ letters, escape c = '\\' :: letters ∧
    ∀ rest, scanEscape (letters ++ rest) = some (c.toNat, rest)
  /-- An escape is no second half of a character. -/
  whole : ∀ c, isControl c = true → ∀ rest, lowHalf (escape c ++ rest) = none

def repair (escape : Char → List Char) (text : List Char) : List Char :=
  text.flatMap fun c => if isControl c then escape c else [c]

variable {escape : Char → List Char}

@[simp] theorem repair_nil : repair escape [] = [] := rfl

theorem repair_cons (c : Char) (rest : List Char) :
    repair escape (c :: rest) = (if isControl c then escape c else [c]) ++ repair escape rest :=
  List.flatMap_cons

theorem repair_cons_of_not {c : Char} (hcontrol : isControl c = false) (rest : List Char) :
    repair escape (c :: rest) = c :: repair escape rest := by
  rw [repair_cons, hcontrol]
  rfl

theorem repair_append {first : List Char} (hplain : ∀ c ∈ first, isControl c = false)
    (rest : List Char) : repair escape (first ++ rest) = first ++ repair escape rest := by
  induction first with
  | nil => rfl
  | cons c first ih =>
      rw [List.cons_append, repair_cons_of_not (hplain c List.mem_cons_self),
        ih fun d hd => hplain d (.tail _ hd), List.cons_append]

theorem head_repair (hescape : EscapesControl escape) {c : Char} (hcontrol : isControl c = true)
    (rest : List Char) : (repair escape (c :: rest)).head? = some '\\' := by
  obtain ⟨letters, hletters, -⟩ := hescape.reads c hcontrol
  rw [repair_cons, if_pos hcontrol, hletters]
  rfl

/-- The head is kept, or a backslash takes its place. -/
theorem head_repair_cases (hescape : EscapesControl escape) (text : List Char) :
    (repair escape text).head? = text.head? ∨ (repair escape text).head? = some '\\' := by
  cases text with
  | nil => exact .inl rfl
  | cons c rest =>
      cases hcontrol : isControl c with
      | false => exact .inl (by rw [repair_cons_of_not hcontrol]; rfl)
      | true => exact .inr (head_repair hescape hcontrol rest)

theorem length_le_repair (hescape : EscapesControl escape) (text : List Char) :
    text.length ≤ (repair escape text).length := by
  induction text with
  | nil => exact Nat.le_refl _
  | cons c rest ih =>
      cases hcontrol : isControl c with
      | false =>
          rw [repair_cons_of_not hcontrol]
          exact Nat.succ_le_succ ih
      | true =>
          obtain ⟨letters, hletters, -⟩ := hescape.reads c hcontrol
          rw [repair_cons, if_pos hcontrol, hletters, List.length_append, List.length_cons,
            List.length_cons]
          omega

/-! ## Parts that no control character belongs to -/

/-- Up to where a part ends, the repaired text reads the same. -/
def Repairs {α : Type} (escape : Char → List Char) (scan : Scanner α) : Prop :=
  ∀ text, scan (repair escape text) = (scan text).map fun found => (found.1, repair escape found.2)

theorem Repairs.give {α : Type} (value : α) : Repairs escape (give value) := by
  intro text
  rfl

theorem Repairs.andThen {α β : Type} {scan : Scanner α} {next : α → Scanner β}
    (hscan : Repairs escape scan) (hnext : ∀ value, Repairs escape (next value)) :
    Repairs escape (scan.andThen next) := by
  intro text
  cases hfound : scan text with
  | none =>
      have hrepaired : scan (repair escape text) = none := by
        rw [hscan, hfound]
        rfl
      rw [andThen_of_none hfound, andThen_of_none hrepaired]
      rfl
  | some found =>
      have hrepaired : scan (repair escape text) = some (found.1, repair escape found.2) := by
        rw [hscan, hfound]
        rfl
      rw [andThen_of_some hfound, andThen_of_some hrepaired]
      exact hnext found.1 found.2

/-- A single character that is taken for what it stands for. -/
def single {α : Type} (meaning : Char → Option α) : Scanner α := fun text =>
  match text with
  | [] => none
  | c :: rest => (meaning c).map fun value => (value, rest)

theorem repairs_single {α : Type} (hescape : EscapesControl escape) {meaning : Char → Option α}
    (hcontrol : ∀ c, isControl c = true → meaning c = none) (hbackslash : meaning '\\' = none) :
    Repairs escape (single meaning) := by
  intro text
  cases text with
  | nil => rfl
  | cons c rest =>
      cases hc : isControl c with
      | false =>
          rw [repair_cons_of_not hc, single, single, Option.map_map]
          rfl
      | true =>
          obtain ⟨letters, hletters, -⟩ := hescape.reads c hc
          rw [repair_cons, if_pos hc, hletters, List.cons_append, single, single, hbackslash,
            hcontrol c hc]
          rfl

theorem plain_of_hexValue {c : Char} {value : Nat} (hvalue : JsonText.hexValue? c = some value) :
    Plain c := by
  have hcode : 48 ≤ c.toNat ∧ c.toNat ≠ 92 := by
    rw [JsonText.hexValue?] at hvalue
    split at hvalue
    next hdigit =>
      simp only [Char.isDigit, Bool.and_eq_true, decide_eq_true_eq] at hdigit
      have hlow : 48 ≤ c.toNat := hdigit.1
      have hhigh : c.toNat ≤ 57 := hdigit.2
      omega
    next =>
      split at hvalue
      next hletter =>
        have hlow : 97 ≤ c.toNat := hletter.1
        omega
      next =>
        split at hvalue
        next hletter =>
          have hlow : 65 ≤ c.toNat := hletter.1
          have hhigh : c.toNat ≤ 70 := hletter.2
          omega
        next => cases hvalue
  refine ⟨?_, ?_, ?_⟩
  · rw [isControl, decide_eq_false_iff_not]
    omega
  · rintro rfl
    exact absurd hcode.1 (by decide)
  · rintro rfl
    exact hcode.2 rfl

theorem repairs_hexDigit (hescape : EscapesControl escape) :
    Repairs escape (single JsonText.hexValue?) := by
  refine repairs_single hescape (fun c hc => ?_) rfl
  cases hvalue : JsonText.hexValue? c with
  | none => rfl
  | some value =>
      rw [(plain_of_hexValue hvalue).1] at hc
      cases hc

/-- Four digits, one after the other. -/
theorem scanHex_eq (text : List Char) :
    JsonText.scanHex text =
      ((single JsonText.hexValue?).andThen fun first => (single JsonText.hexValue?).andThen
        fun second => (single JsonText.hexValue?).andThen fun third =>
          (single JsonText.hexValue?).andThen fun fourth =>
            Scanner.give (((first * 16 + second) * 16 + third) * 16 + fourth)) text := by
  match text with
  | [] => rfl
  | [first] => cases h : JsonText.hexValue? first <;> simp [JsonText.scanHex, andThen, single, h]
  | [first, second] =>
      cases h : JsonText.hexValue? first <;> cases h' : JsonText.hexValue? second <;>
        simp [JsonText.scanHex, andThen, single, h, h']
  | [first, second, third] =>
      cases h : JsonText.hexValue? first <;> cases h' : JsonText.hexValue? second <;>
        cases h'' : JsonText.hexValue? third <;>
        simp [JsonText.scanHex, andThen, single, h, h', h'']
  | first :: second :: third :: fourth :: rest =>
      cases hfirst : JsonText.hexValue? first <;> cases hsecond : JsonText.hexValue? second <;>
        cases hthird : JsonText.hexValue? third <;> cases hfourth : JsonText.hexValue? fourth <;>
        simp [JsonText.scanHex, andThen, single, Scanner.give, hfirst, hsecond, hthird, hfourth]

theorem repairs_scanHex (hescape : EscapesControl escape) : Repairs escape JsonText.scanHex := by
  have hdigit := repairs_hexDigit hescape
  intro text
  rw [scanHex_eq, scanHex_eq]
  exact (hdigit.andThen fun _ => hdigit.andThen fun _ => hdigit.andThen fun _ =>
    hdigit.andThen fun _ => Repairs.give _) text

theorem append_of_scanHex {text rest : List Char} {code : Nat}
    (hscan : JsonText.scanHex text = some (code, rest)) :
    ∃ digits, text = digits ++ rest ∧ ∀ c ∈ digits, Plain c := by
  match text with
  | [] | [_] | [_, _] | [_, _, _] => cases hscan
  | first :: second :: third :: fourth :: later =>
      simp only [JsonText.scanHex, Option.bind_eq_bind, Option.bind_eq_some_iff,
        Option.some.injEq, Prod.mk.injEq] at hscan
      obtain ⟨_, hfirst, _, hsecond, _, hthird, _, hfourth, -, rfl⟩ := hscan
      refine ⟨[first, second, third, fourth], rfl, fun c hc => ?_⟩
      simp only [List.mem_cons, List.not_mem_nil, or_false] at hc
      rcases hc with rfl | rfl | rfl | rfl
      · exact plain_of_hexValue hfirst
      · exact plain_of_hexValue hsecond
      · exact plain_of_hexValue hthird
      · exact plain_of_hexValue hfourth

/-! ## String literals -/

theorem controlOutside_inside_append {first : List Char} (hplain : ∀ c ∈ first, Plain c)
    (rest : List Char) :
    controlOutside .inside (first ++ rest) = controlOutside .inside rest := by
  induction first with
  | nil => rfl
  | cons c first ih =>
      obtain ⟨-, hquote, hbackslash⟩ := hplain c List.mem_cons_self
      rw [List.cons_append, controlOutside_inside hquote hbackslash,
        ih fun d hd => hplain d (.tail _ hd)]

theorem lowHalf_prefixed (rest : List Char) :
    lowHalf ('\\' :: 'u' :: rest) =
      match JsonText.scanHex rest with
      | none => none
      | some (low, behind) => if 0xDC00 ≤ low ∧ low < 0xE000 then some (low, behind) else none := by
  have hstart : ['\\', 'u'] <+: '\\' :: 'u' :: rest := ⟨rest, rfl⟩
  rw [lowHalf, if_pos hstart]
  rfl

theorem lowHalf_other {text : List Char} (hstart : ¬ ['\\', 'u'] <+: text) :
    lowHalf text = none := by
  rw [lowHalf, if_neg hstart]

theorem repairs_lowHalf (hescape : EscapesControl escape) : Repairs escape lowHalf := by
  intro text
  cases text with
  | nil => rfl
  | cons c rest =>
      cases hc : isControl c with
      | true =>
          have hne : c ≠ '\\' := by
            rintro rfl
            cases hc
          rw [repair_cons, if_pos hc, hescape.whole c hc, lowHalf_other]
          · rfl
          · rw [List.cons_prefix_cons]
            exact fun hstart => hne hstart.1.symm
      | false =>
          rw [repair_cons_of_not hc]
          by_cases hbackslash : c = '\\'
          · subst hbackslash
            cases rest with
            | nil => rfl
            | cons d rest =>
                cases hd : isControl d with
                | true =>
                    obtain ⟨letters, hletters, -⟩ := hescape.reads d hd
                    have hne : d ≠ 'u' := by
                      rintro rfl
                      cases hd
                    rw [repair_cons, if_pos hd, hletters, lowHalf_other, lowHalf_other]
                    · rfl
                    · rw [List.cons_prefix_cons, List.cons_prefix_cons]
                      exact fun hstart => hne hstart.2.1.symm
                    · rw [List.cons_append, List.cons_prefix_cons, List.cons_prefix_cons]
                      exact fun hstart => absurd hstart.2.1 (by decide)
                | false =>
                    rw [repair_cons_of_not hd]
                    by_cases hu : d = 'u'
                    · subst hu
                      rw [lowHalf_prefixed, lowHalf_prefixed, repairs_scanHex hescape]
                      cases JsonText.scanHex rest with
                      | none => rfl
                      | some found =>
                          simp only [Option.map_some]
                          split
                          next => rfl
                          next => rfl
                    · rw [lowHalf_other, lowHalf_other]
                      · rfl
                      · rw [List.cons_prefix_cons, List.cons_prefix_cons]
                        exact fun hstart => hu hstart.2.1.symm
                      · rw [List.cons_prefix_cons, List.cons_prefix_cons]
                        exact fun hstart => hu hstart.2.1.symm
          · rw [lowHalf_other, lowHalf_other]
            · rfl
            · rw [List.cons_prefix_cons]
              exact fun hstart => hbackslash hstart.1.symm
            · rw [List.cons_prefix_cons]
              exact fun hstart => hbackslash hstart.1.symm

theorem controlOutside_of_lowHalf {text rest : List Char} {low : Nat}
    (hlow : lowHalf text = some (low, rest)) :
    controlOutside .inside text = controlOutside .inside rest := by
  by_cases hstart : ['\\', 'u'] <+: text
  · obtain ⟨later, rfl⟩ := hstart
    rw [List.cons_append, List.cons_append, List.nil_append] at hlow ⊢
    rw [lowHalf_prefixed] at hlow
    split at hlow
    next => cases hlow
    next found behind hscan =>
      split at hlow
      next =>
        obtain ⟨rfl, rfl⟩ := Prod.mk.inj (Option.some.inj hlow)
        obtain ⟨digits, rfl, hplain⟩ := append_of_scanHex hscan
        have hu : controlOutside .inside ('\\' :: 'u' :: (digits ++ behind)) =
            controlOutside .inside (digits ++ behind) := rfl
        rw [hu, controlOutside_inside_append hplain]
      next => cases hlow
  · rw [lowHalf_other hstart] at hlow
    cases hlow

theorem repairs_scanUnit (hescape : EscapesControl escape) : Repairs escape scanUnit := by
  intro text
  rw [scanUnit, scanUnit, repairs_scanHex hescape]
  cases JsonText.scanHex text with
  | none => rfl
  | some found =>
      simp only [Option.map_some]
      rw [repairs_lowHalf hescape]
      split
      next =>
        cases lowHalf found.2 with
        | none => rfl
        | some low => rfl
      next => rfl

theorem controlOutside_of_scanUnit {text rest : List Char} {code : Nat}
    (hscan : scanUnit text = some (code, rest)) :
    controlOutside .inside text = controlOutside .inside rest := by
  rw [scanUnit] at hscan
  split at hscan
  next => cases hscan
  next high behind hhex =>
    obtain ⟨digits, rfl, hplain⟩ := append_of_scanHex hhex
    rw [controlOutside_inside_append hplain]
    split at hscan
    next =>
      split at hscan
      next low later hlow =>
        obtain ⟨-, rfl⟩ := Prod.mk.inj (Option.some.inj hscan)
        exact controlOutside_of_lowHalf hlow
      next =>
        obtain ⟨-, rfl⟩ := Prod.mk.inj (Option.some.inj hscan)
        rfl
    next =>
      obtain ⟨-, rfl⟩ := Prod.mk.inj (Option.some.inj hscan)
      rfl

theorem scanEscape_cases {c : Char} {rest behind : List Char} {code : Nat}
    (hscan : scanEscape (c :: rest) = some (code, behind)) :
    isControl c = false ∧ ((behind = rest ∧ ∀ later, scanEscape (c :: later) = some (code, later)) ∨
      (scanUnit rest = some (code, behind) ∧
        ∀ later, scanEscape (c :: later) = scanUnit later)) := by
  rw [scanEscape] at hscan
  split at hscan
  next hself =>
    obtain ⟨rfl, rfl⟩ := Prod.mk.inj (Option.some.inj hscan)
    refine ⟨?_, .inl ⟨rfl, fun later => if_pos hself⟩⟩
    rcases hself with rfl | rfl | rfl
    · rfl
    · rfl
    · rfl
  next hself =>
    split_ifs at hscan with hn hr ht hb hf hu
    · obtain ⟨rfl, rfl⟩ := Prod.mk.inj (Option.some.inj hscan)
      subst hn
      exact ⟨rfl, .inl ⟨rfl, fun later => rfl⟩⟩
    · obtain ⟨rfl, rfl⟩ := Prod.mk.inj (Option.some.inj hscan)
      subst hr
      exact ⟨rfl, .inl ⟨rfl, fun later => rfl⟩⟩
    · obtain ⟨rfl, rfl⟩ := Prod.mk.inj (Option.some.inj hscan)
      subst ht
      exact ⟨rfl, .inl ⟨rfl, fun later => rfl⟩⟩
    · obtain ⟨rfl, rfl⟩ := Prod.mk.inj (Option.some.inj hscan)
      subst hb
      exact ⟨rfl, .inl ⟨rfl, fun later => rfl⟩⟩
    · obtain ⟨rfl, rfl⟩ := Prod.mk.inj (Option.some.inj hscan)
      subst hf
      exact ⟨rfl, .inl ⟨rfl, fun later => rfl⟩⟩
    · subst hu
      exact ⟨rfl, .inr ⟨hscan, fun later => rfl⟩⟩

theorem scanEscape_repair (hescape : EscapesControl escape) {text rest : List Char} {code : Nat}
    (hscan : scanEscape text = some (code, rest)) :
    scanEscape (repair escape text) = some (code, repair escape rest) ∧
      controlOutside .escaped text = controlOutside .inside rest := by
  cases text with
  | nil => cases hscan
  | cons c later =>
      obtain ⟨hcontrol, ⟨rfl, hsimple⟩ | ⟨hunit, hall⟩⟩ := scanEscape_cases hscan
      · rw [repair_cons_of_not hcontrol, hsimple]
        exact ⟨rfl, rfl⟩
      · rw [repair_cons_of_not hcontrol, hall, repairs_scanUnit hescape, hunit]
        exact ⟨rfl, controlOutside_of_scanUnit hunit⟩

/-- Where a control character is read as itself, its escape is read as the same. -/
theorem scanText_repair (hescape : EscapesControl escape) {fuel more : Nat} (hfuel : fuel ≤ more)
    {text rest : List Char} {units : List Nat}
    (hscan : scanText false fuel text = some (units, rest)) :
    scanText true more (repair escape text) = some (units, repair escape rest) ∧
      controlOutside .inside text = controlOutside .outside rest := by
  induction fuel generalizing more text units rest with
  | zero => cases hscan
  | succ fuel ih =>
      obtain ⟨more, rfl⟩ := Nat.exists_eq_succ_of_ne_zero (Nat.ne_zero_of_lt hfuel)
      have hmore := Nat.le_of_succ_le_succ hfuel
      cases text with
      | nil => cases hscan
      | cons c later =>
          rw [scanText] at hscan
          by_cases hquote : c = '"'
          · subst hquote
            obtain ⟨rfl, rfl⟩ := Prod.mk.inj (Option.some.inj hscan)
            rw [repair_cons_of_not rfl]
            exact ⟨rfl, rfl⟩
          rw [if_neg hquote] at hscan
          by_cases hbackslash : c = '\\'
          · subst hbackslash
            rw [if_pos rfl] at hscan
            split at hscan
            next => cases hscan
            next code behind hcode =>
              obtain ⟨⟨found, last⟩, hfound, heq⟩ := Option.map_eq_some_iff.mp hscan
              obtain ⟨rfl, rfl⟩ := Prod.mk.inj heq
              obtain ⟨hrepaired, hplace⟩ := scanEscape_repair hescape hcode
              obtain ⟨hscanned, hplaces⟩ := ih hmore hfound
              refine ⟨?_, hplace.trans hplaces⟩
              rw [repair_cons_of_not rfl, scanText, if_neg (by decide), if_pos rfl, hrepaired]
              simp only [hscanned, Option.map_some]
          · simp only [if_neg hbackslash, Bool.false_and, Bool.false_eq_true, if_false] at hscan
            obtain ⟨⟨found, last⟩, hfound, heq⟩ := Option.map_eq_some_iff.mp hscan
            obtain ⟨rfl, rfl⟩ := Prod.mk.inj heq
            obtain ⟨hscanned, hplaces⟩ := ih hmore hfound
            refine ⟨?_, (controlOutside_inside hquote hbackslash _).trans hplaces⟩
            cases hcontrol : isControl c with
            | false =>
                rw [repair_cons_of_not hcontrol, scanText, if_neg hquote, if_neg hbackslash,
                  hcontrol, hscanned]
                rfl
            | true =>
                obtain ⟨letters, hletters, hreads⟩ := hescape.reads c hcontrol
                rw [repair_cons, if_pos hcontrol, hletters, List.cons_append, scanText,
                  if_neg (by decide), if_pos rfl, hreads]
                simp only [hscanned, Option.map_some]

end JsonTree

end ShuttleFlow
