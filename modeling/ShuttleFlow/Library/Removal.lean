import Mathlib.Data.Set.Lattice
import ShuttleFlow.Library.Patterns

/-! # Matches that are taken out

Several patterns are searched one after the other, and each match is taken out. Two texts can be
searched separately, unless a match lies across the place where they meet. Then more is taken
out of the whole. All this is about words of which none overlaps another.
-/

namespace ShuttleFlow.Removal

open Pattern

variable {α : Type}

/-! ## Words -/

/-- No word begins another, and none overlaps another. -/
structure Separate (words : Set (List α)) : Prop where
  prefixFree : ∀ {word other}, word ∈ words → other ∈ words → word <+: other → word = other
  apart : ∀ {word other front back}, word ∈ words → other ∈ words → other = front ++ back →
    front ≠ [] → back ≠ [] → ¬word <+: back ∧ ¬back <+: word

/-- A word begins in the first text and ends in the second. -/
def Across (words : Set (List α)) (first second : List α) : Prop :=
  ∃ left right, left ≠ [] ∧ right ≠ [] ∧ left <:+ first ∧ right <+: second ∧
    left ++ right ∈ words

def Contains (words : Set (List α)) (text : List α) : Prop :=
  ∃ word ∈ words, word <:+: text

variable {words : Set (List α)} {first second text : List α}

theorem Across.mono {first' second' : List α} (hacross : Across words first second)
    (hfirst : first <:+ first') (hsecond : second <+: second') :
    Across words first' second' := by
  obtain ⟨left, right, hleft, hright, hsuffix, hbegins, hword⟩ := hacross
  exact ⟨left, right, hleft, hright, hsuffix.trans hfirst, hbegins.trans hsecond, hword⟩

theorem contains_append_iff :
    Contains words (first ++ second) ↔
      Contains words first ∨ Contains words second ∨ Across words first second := by
  constructor
  · rintro ⟨word, hword, hinfix⟩
    rcases List.infix_append_iff.mp hinfix with hin | hin | ⟨left, right, rfl, hleft, hright⟩
    · exact .inl ⟨word, hword, hin⟩
    · exact .inr (.inl ⟨word, hword, hin⟩)
    · by_cases hnil : left = []
      · rw [hnil, List.nil_append] at hword
        exact .inr (.inl ⟨right, hword, hright.isInfix⟩)
      · by_cases hnil' : right = []
        · rw [hnil', List.append_nil] at hword
          exact .inl ⟨left, hword, hleft.isInfix⟩
        · exact .inr (.inr ⟨left, right, hnil, hnil', hleft, hright, hword⟩)
  · rintro (⟨word, hword, hin⟩ | ⟨word, hword, hin⟩ | hacross)
    · exact ⟨word, hword, List.infix_append_of_infix_left hin⟩
    · exact ⟨word, hword, List.infix_append_of_infix_right hin⟩
    · obtain ⟨left, right, -, -, hleft, hright, hword⟩ := hacross
      exact ⟨_, hword, List.infix_append_iff.mpr (.inr (.inr ⟨left, right, rfl, hleft, hright⟩))⟩

theorem Separate.not_across_front (hseparate : Separate words) {rest : List α}
    (hword : second ++ rest ∈ words) : ¬Across words first second := by
  rintro ⟨left, right, hleft, hright, -, hbegins, hother⟩
  exact (hseparate.apart hword hother rfl hleft hright).2
    (hbegins.trans (List.prefix_append second rest))

theorem Separate.not_contains_front (hseparate : Separate words) {rest : List α}
    (hword : first ++ rest ∈ words) (hrest : rest ≠ []) : ¬Contains words first := by
  rintro ⟨word, hother, before, after, heq⟩
  by_cases hnil : before = []
  · have hbegins : word <+: first ++ rest := by
      rw [← heq, hnil, List.nil_append, List.append_assoc]
      exact List.prefix_append word _
    have hlength := congrArg List.length (hseparate.prefixFree hother hword hbegins)
    have hpos := List.length_pos_iff.mpr hrest
    rw [← heq, hnil, List.nil_append, List.length_append, List.length_append] at hlength
    omega
  · refine (hseparate.apart hother hword ?_ hnil (by simp [hrest])).1
      (List.prefix_append word (after ++ rest))
    rw [← heq, List.append_assoc, List.append_assoc]

/-! ## Patterns -/

variable {pattern : Pattern α (List α)} {patterns : List (Pattern α (List α))}

/-- The matches of a pattern. -/
def matched (pattern : Pattern α (List α)) : Set (List α) :=
  {word | pattern.find word = some word}

/-- What is found is a match by itself, and is found whatever follows. -/
structure Exact (pattern : Pattern α (List α)) : Prop where
  covers_eq : ∀ found, pattern.covers found = found
  whole : ∀ {text found}, pattern.find text = some found → pattern.find found = some found
  extend : ∀ {found} rest, pattern.find found = some found →
    pattern.find (found ++ rest) = some found

def erase (pattern : Pattern α (List α)) (text : List α) : List α :=
  pattern.sub (fun _ => []) text

theorem Exact.prefix_of_find (hexact : Exact pattern) {found : List α}
    (hfind : pattern.find text = some found) : found <+: text := by
  have hbegins := pattern.covers_initial hfind
  rwa [hexact.covers_eq] at hbegins

theorem Exact.ne_nil (hexact : Exact pattern) {word : List α} (hword : word ∈ matched pattern) :
    word ≠ [] := by
  have hne := pattern.covers_ne_nil hword
  rwa [hexact.covers_eq] at hne

theorem Exact.find_append (hexact : Exact pattern) {found : List α}
    (hfind : pattern.find text = some found) (rest : List α) :
    pattern.find (text ++ rest) = some found := by
  obtain ⟨behind, rfl⟩ := hexact.prefix_of_find hfind
  rw [List.append_assoc]
  exact hexact.extend _ (hexact.whole hfind)

/-- No match begins another one. -/
theorem Exact.eq_of_prefix (hexact : Exact pattern) {word other : List α}
    (hword : word ∈ matched pattern) (hother : other ∈ matched pattern)
    (hbegins : word <+: other) : word = other := by
  obtain ⟨rest, rfl⟩ := hbegins
  exact Option.some.inj ((hexact.extend rest hword).symm.trans hother)

theorem Exact.erase_word (hexact : Exact pattern) {word : List α} (hword : word ∈ matched pattern)
    (rest : List α) : erase pattern (word ++ rest) = erase pattern rest := by
  have hfind : pattern.find (pattern.covers word ++ rest) = some word := by
    rw [hexact.covers_eq]
    exact hexact.extend rest hword
  have herase := @sub_of_find _ _ pattern (fun _ => []) word rest hfind
  rwa [hexact.covers_eq] at herase

theorem erase_sublist (text : List α) : (erase pattern text).Sublist text := by
  induction text using @text_induction _ _ pattern with
  | nil => exact List.Sublist.refl _
  | item item rest hfind ih =>
      rw [erase, sub_of_find_eq_none hfind]
      exact ih.cons_cons item
  | found found rest hfind ih =>
      rw [erase, sub_of_find hfind]
      exact ih.trans (List.sublist_append_right _ _)

/-- Two texts are searched separately where no match lies across. -/
theorem Exact.erase_append (hexact : Exact pattern)
    (hacross : ¬Across (matched pattern) first second) :
    erase pattern (first ++ second) = erase pattern first ++ erase pattern second := by
  refine Pattern.sub_append first fun before after hsplit hne => ?_
  cases hfind : pattern.find (after ++ second) with
  | none =>
      cases hfind' : pattern.find after with
      | none => rfl
      | some found => cases hfind.symm.trans (hexact.find_append hfind' second)
  | some found =>
      have hword := hexact.whole hfind
      rcases List.prefix_or_prefix_of_prefix (hexact.prefix_of_find hfind)
        (List.prefix_append after second) with hin | hover
      · obtain ⟨rest, rfl⟩ := hin
        exact (hexact.extend rest hword).symm
      · obtain ⟨right, rfl⟩ := hover
        have hright : right <+: second :=
          (List.prefix_append_right_inj after).mp (hexact.prefix_of_find hfind)
        by_cases hnil : right = []
        · rw [hnil, List.append_nil] at hword ⊢
          exact hword.symm
        · exact absurd ⟨after, right, hne, hnil, ⟨before, hsplit.symm⟩, hright, hword⟩ hacross

/-- Nothing is taken out of a text in which no match begins. -/
theorem Exact.erase_front (hexact : Exact pattern) {front rest : List α}
    (hnone : ∀ before after, front = before ++ after → after ≠ [] →
      ∀ word ∈ matched pattern, ¬word <+: after ++ rest) :
    erase pattern (front ++ rest) = front ++ erase pattern rest := by
  refine sub_append_of_find_eq_none front fun before item after hsplit => ?_
  rw [Option.eq_none_iff_forall_not_mem]
  intro found hfind
  exact hnone before (item :: after) hsplit (List.cons_ne_nil _ _) found (hexact.whole hfind)
    (hexact.prefix_of_find hfind)

section Lengths

variable {matchLength : List α → Option Nat}

/-- The lengths that are found are the lengths of the words at the beginning. -/
def Measures (matchLength : List α → Option Nat) (words : Set (List α)) : Prop :=
  ∀ text length, matchLength text = some length ↔
    ∃ word ∈ words, word <+: text ∧ word.length = length

theorem Measures.find_iff (hmeasures : Measures matchLength words) (hnil : [] ∉ words)
    {found : List α} :
    (ofLength matchLength).find text = some found ↔ found ∈ words ∧ found <+: text := by
  have hword : ∀ word ∈ words, word <+: text → ∀ length, word.length = length →
      ¬(length = 0 ∨ text.length < length) ∧ text.take length = word := by
    rintro word hword hbegins length rfl
    refine ⟨?_, (List.prefix_iff_eq_take.mp hbegins).symm⟩
    rintro (hzero | hlong)
    · exact hnil (List.length_eq_zero_iff.mp hzero ▸ hword)
    · exact absurd hbegins.length_le (Nat.not_le.mpr hlong)
  constructor
  · intro hfind
    cases hlength : matchLength text with
    | none => simp [ofLength, hlength] at hfind
    | some length =>
        obtain ⟨word, hmem, hbegins, hword'⟩ := (hmeasures text length).mp hlength
        obtain ⟨hpos, htake⟩ := hword word hmem hbegins length hword'
        simp only [ofLength, hlength, if_neg hpos, htake, Option.some.injEq] at hfind
        exact hfind ▸ ⟨hmem, hbegins⟩
  · rintro ⟨hmem, hbegins⟩
    have hlength := (hmeasures text found.length).mpr ⟨found, hmem, hbegins, rfl⟩
    obtain ⟨hpos, htake⟩ := hword found hmem hbegins _ rfl
    simp only [ofLength, hlength, if_neg hpos, htake]

theorem Measures.exact (hmeasures : Measures matchLength words) (hnil : [] ∉ words) :
    Exact (ofLength matchLength) where
  covers_eq _ := rfl
  whole hfind := by
    rw [hmeasures.find_iff hnil] at hfind ⊢
    exact ⟨hfind.1, List.prefix_refl _⟩
  extend rest hfind := by
    rw [hmeasures.find_iff hnil] at hfind ⊢
    exact ⟨hfind.1, List.prefix_append _ rest⟩

theorem Measures.matched_eq (hmeasures : Measures matchLength words) (hnil : [] ∉ words) :
    matched (ofLength matchLength) = words := by
  ext word
  exact (hmeasures.find_iff hnil).trans (and_iff_left (List.prefix_refl word))

end Lengths

/-! ## Beginnings and ends of words -/

/-- The patterns match words, and what they find depends on the words alone. -/
structure Passes (words : Set (List α)) (patterns : List (Pattern α (List α))) : Prop where
  separate : Separate words
  exact : ∀ pattern ∈ patterns, Exact pattern
  matched_subset : ∀ pattern ∈ patterns, matched pattern ⊆ words

variable {left right : List α}

/-- A match does not end in the beginning of a word, and is not part of it. -/
theorem erase_append_left (hseparate : Separate words) (hexact : Exact pattern)
    (hmatched : matched pattern ⊆ words) (hright : right ≠ []) (hword : left ++ right ∈ words) :
    erase pattern (first ++ left) = erase pattern first ++ left := by
  have hacross : ¬Across (matched pattern) first left := by
    rintro ⟨front, back, hfront, hback, -, hbegins, hother⟩
    have hbegins : back <+: left ++ right := hbegins.trans (List.prefix_append left right)
    exact (hseparate.apart hword (hmatched hother) rfl hfront hback).2 hbegins
  have hnone : erase pattern left = left := by
    have hfront := @Exact.erase_front _ pattern hexact left [] fun before after hsplit hne word
        hother hbegins => by
      rw [List.append_nil] at hbegins
      by_cases hnil : before = []
      · rw [hnil, List.nil_append] at hsplit
        rw [← hsplit] at hbegins
        have heq := hseparate.prefixFree (hmatched hother) hword
          (hbegins.trans (List.prefix_append left right))
        have hlength := hbegins.length_le
        rw [heq, List.length_append] at hlength
        exact hright (List.length_eq_zero_iff.mp (by omega))
      · have hback : after ++ right ≠ [] := by simp [hne]
        refine (hseparate.apart (hmatched hother) hword ?_ hnil hback).1
          (hbegins.trans (List.prefix_append after right))
        rw [hsplit, List.append_assoc]
    rw [List.append_nil] at hfront
    exact hfront.trans (List.append_nil left)
  rw [hexact.erase_append hacross, hnone]

/-- A match does not begin in the end of a word. -/
theorem erase_append_right (hseparate : Separate words) (hexact : Exact pattern)
    (hmatched : matched pattern ⊆ words) (hleft : left ≠ [])
    (hword : left ++ right ∈ words) :
    erase pattern (right ++ second) = right ++ erase pattern second := by
  refine hexact.erase_front fun before after hsplit hne word hother hbegins => ?_
  have hapart := @Separate.apart _ words hseparate word (left ++ right) (left ++ before) after
    (hmatched hother) hword (by rw [hsplit, List.append_assoc]) (by simp [hleft]) hne
  rcases List.prefix_or_prefix_of_prefix hbegins (List.prefix_append after second) with hin | hin
  · exact hapart.1 hin
  · exact hapart.2 hin

/-- A match is taken out wherever it stands. -/
theorem erase_append_match (hseparate : Separate words) (hexact : Exact pattern)
    (hmatched : matched pattern ⊆ words) {word : List α} (hword : word ∈ matched pattern) :
    erase pattern (first ++ (word ++ second)) = erase pattern first ++ erase pattern second := by
  have hapart : ¬Across (matched pattern) first (word ++ second) := by
    rintro ⟨front, back, hfront, hback, -, hbegins, hother⟩
    have hnot := hseparate.apart (hmatched hword) (hmatched hother) rfl hfront hback
    rcases List.prefix_or_prefix_of_prefix hbegins (List.prefix_append word second) with hin | hin
    · exact hnot.2 hin
    · exact hnot.1 hin
  rw [hexact.erase_append hapart, hexact.erase_word hword]

/-- A match that lies across is taken out of the whole, but its parts stay where they are. -/
theorem erase_of_across (hseparate : Separate words) (hexact : Exact pattern)
    (hmatched : matched pattern ⊆ words) (hacross : Across (matched pattern) first second) :
    ∃ front left right back, left ++ right ∈ words ∧ left ≠ [] ∧ right ≠ [] ∧
      erase pattern (first ++ second) = front ++ back ∧
      erase pattern first = front ++ left ∧ erase pattern second = right ++ back := by
  obtain ⟨left, right, hleft, hright, ⟨before, rfl⟩, ⟨after, rfl⟩, hmatch⟩ := hacross
  have hword := hmatched hmatch
  refine ⟨erase pattern before, left, right, erase pattern after, hword, hleft, hright, ?_,
    erase_append_left hseparate hexact hmatched hright hword,
    erase_append_right hseparate hexact hmatched hleft hword⟩
  rw [← erase_append_match hseparate hexact hmatched hmatch]
  simp

/-! ## Several patterns -/

/-- The patterns are searched one after the other. -/
def eraseAll : List (Pattern α (List α)) → List α → List α
  | [], text => text
  | pattern :: patterns, text => eraseAll patterns (erase pattern text)

/-- Whatever a pattern finds in what the ones before it have left, it does not lie across. -/
def Unjoined : List (Pattern α (List α)) → List α → List α → Prop
  | [], _, _ => True
  | pattern :: patterns, first, second =>
      ¬Across (matched pattern) first second ∧
        Unjoined patterns (erase pattern first) (erase pattern second)

theorem Passes.tail (hpasses : Passes words (pattern :: patterns)) : Passes words patterns where
  separate := hpasses.separate
  exact other hother := hpasses.exact other (List.mem_cons_of_mem _ hother)
  matched_subset other hother := hpasses.matched_subset other (List.mem_cons_of_mem _ hother)

theorem eraseAll_append_left (hpasses : Passes words patterns) (hright : right ≠ [])
    (hword : left ++ right ∈ words) :
    eraseAll patterns (first ++ left) = eraseAll patterns first ++ left := by
  induction patterns generalizing first with
  | nil => rfl
  | cons pattern patterns ih =>
      rw [eraseAll, eraseAll, erase_append_left hpasses.separate
        (hpasses.exact _ List.mem_cons_self) (hpasses.matched_subset _ List.mem_cons_self)
        hright hword, ih hpasses.tail]

theorem eraseAll_append_right (hpasses : Passes words patterns) (hleft : left ≠ [])
    (hword : left ++ right ∈ words) :
    eraseAll patterns (right ++ second) = right ++ eraseAll patterns second := by
  induction patterns generalizing second with
  | nil => rfl
  | cons pattern patterns ih =>
      rw [eraseAll, eraseAll, erase_append_right hpasses.separate
        (hpasses.exact _ List.mem_cons_self) (hpasses.matched_subset _ List.mem_cons_self)
        hleft hword, ih hpasses.tail]

/-- Two texts are searched separately, or less is left of the whole. -/
theorem eraseAll_append_cases (hpasses : Passes words patterns) (first second : List α) :
    Unjoined patterns first second ∧
        eraseAll patterns (first ++ second) =
          eraseAll patterns first ++ eraseAll patterns second ∨
      ¬Unjoined patterns first second ∧
        (eraseAll patterns (first ++ second)).length <
          (eraseAll patterns first).length + (eraseAll patterns second).length := by
  induction patterns generalizing first second with
  | nil => exact .inl ⟨trivial, rfl⟩
  | cons pattern patterns ih =>
      have hexact := hpasses.exact pattern List.mem_cons_self
      have hmatched := hpasses.matched_subset pattern List.mem_cons_self
      by_cases hacross : Across (matched pattern) first second
      · refine .inr ⟨fun hunjoined => hunjoined.1 hacross, ?_⟩
        obtain ⟨front, left, right, back, hword, hleft, hright, hwhole, hfirst, hsecond⟩ :=
          erase_of_across hpasses.separate hexact hmatched hacross
        have hle : (eraseAll patterns (front ++ back)).length ≤
            (eraseAll patterns front).length + (eraseAll patterns back).length := by
          rcases ih hpasses.tail front back with ⟨-, heq⟩ | ⟨-, hlt⟩
          · rw [heq, List.length_append]
          · exact Nat.le_of_lt hlt
        have hpos := List.length_pos_iff.mpr hleft
        rw [eraseAll, eraseAll, eraseAll, hwhole, hfirst, hsecond,
          eraseAll_append_left hpasses.tail hright hword,
          eraseAll_append_right hpasses.tail hleft hword, List.length_append, List.length_append]
        omega
      · rw [eraseAll, eraseAll, eraseAll, hexact.erase_append hacross]
        rcases ih hpasses.tail (erase pattern first) (erase pattern second) with
          ⟨hunjoined, heq⟩ | ⟨hjoined, hlt⟩
        · exact .inl ⟨⟨hacross, hunjoined⟩, heq⟩
        · exact .inr ⟨fun hunjoined => hjoined hunjoined.2, hlt⟩

/-! ## Words that are left -/

/-- Where the pattern takes something out, what stands around it joins to a word. -/
def Rejoins (pattern : Pattern α (List α)) (words : Set (List α)) (text : List α) : Prop :=
  ∃ before found after, text = before ++ (found ++ after) ∧ found ∈ matched pattern ∧
    Across words (erase pattern before) (erase pattern after)

/-- No pass joins a word that it, or a pass before it, takes out. -/
def Sealed : (cleared : Set (List α)) → List (Pattern α (List α)) → List α → Prop
  | _, [], _ => True
  | cleared, pattern :: patterns, text =>
      ¬Rejoins pattern (cleared ∪ matched pattern) text ∧
        Sealed (cleared ∪ matched pattern) patterns (erase pattern text)

theorem Exact.erase_eq_self (hexact : Exact pattern) (hnone : ¬Contains (matched pattern) text) :
    erase pattern text = text := by
  have hfront := @Exact.erase_front _ pattern hexact text [] fun before after hsplit _ word hword
      hbegins => by
    rw [List.append_nil] at hbegins
    refine hnone ⟨word, hword, hbegins.isInfix.trans ?_⟩
    rw [hsplit]
    exact (List.suffix_append before after).isInfix
  rw [List.append_nil] at hfront
  exact hfront.trans (List.append_nil text)

/-- A text has no match, or a first one. -/
theorem Exact.first_match (hexact : Exact pattern) (text : List α) :
    ¬Contains (matched pattern) text ∨
      ∃ front found rest, text = front ++ (found ++ rest) ∧ found ∈ matched pattern ∧
        ¬Contains (matched pattern) front := by
  have hnil : ¬Contains (matched pattern) [] := by
    rintro ⟨word, hword, hinfix⟩
    exact hexact.ne_nil hword (List.infix_nil.mp hinfix)
  induction text using @text_induction _ _ pattern with
  | nil => exact .inl hnil
  | item item rest hfind ih =>
      have hcons : ∀ behind, behind <+: rest → ¬Contains (matched pattern) behind →
          ¬Contains (matched pattern) (item :: behind) := by
        rintro behind ⟨more, rfl⟩ hnone ⟨word, hword, hinfix⟩
        rcases List.infix_cons_iff.mp hinfix with hbegins | hin
        · obtain ⟨last, hlast⟩ := hbegins
          have hfound := hexact.extend (last ++ more) hword
          rw [← List.append_assoc, hlast] at hfound
          cases hfind.symm.trans hfound
        · exact hnone ⟨word, hword, hin⟩
      rcases ih with hnone | ⟨front, found, behind, rfl, hfound, hnone⟩
      · exact .inl (hcons rest (List.prefix_refl rest) hnone)
      · exact .inr ⟨item :: front, found, behind, rfl, hfound,
          hcons front (List.prefix_append _ _) hnone⟩
  | found found rest hfind ih =>
      refine .inr ⟨[], found, rest, ?_, hexact.whole hfind, hnil⟩
      rw [hexact.covers_eq, List.nil_append]

/-- A word that is left was there before, or is joined. -/
theorem contains_erase_cases (hseparate : Separate words) (hexact : Exact pattern)
    (hmatched : matched pattern ⊆ words) {others : Set (List α)} {text : List α}
    (hcontains : Contains others (erase pattern text)) :
    Contains (others \ matched pattern) text ∨ Rejoins pattern others text := by
  have hstays : ∀ {text}, ¬Contains (matched pattern) text → Contains others text →
      Contains (others \ matched pattern) text := by
    rintro text hnone ⟨word, hword, hinfix⟩
    exact ⟨word, ⟨hword, fun hmatch => hnone ⟨word, hmatch, hinfix⟩⟩, hinfix⟩
  induction hlength : text.length using Nat.strong_induction_on generalizing text with
  | _ length ih =>
  rcases hexact.first_match text with hnone | ⟨front, found, rest, rfl, hfound, hnone⟩
  · rw [hexact.erase_eq_self hnone] at hcontains
    exact .inl (hstays hnone hcontains)
  · have hpos := List.length_pos_iff.mpr (hexact.ne_nil hfound)
    have hfront := hexact.erase_eq_self hnone
    rw [erase_append_match hseparate hexact hmatched hfound, hfront] at hcontains
    rcases contains_append_iff.mp hcontains with hin | hin | hacross
    · exact .inl (contains_append_iff.mpr (.inl (hstays hnone hin)))
    · have hshort : rest.length < length := by
        rw [← hlength, List.length_append, List.length_append]
        omega
      rcases ih rest.length hshort hin rfl with hrest | hrejoins
      · rw [← List.append_assoc]
        exact .inl (contains_append_iff.mpr (.inr (.inl hrest)))
      · obtain ⟨before, other, after, rfl, hother, hacross⟩ := hrejoins
        refine .inr ⟨front ++ (found ++ before), other, after, by simp, hother, ?_⟩
        rw [erase_append_match hseparate hexact hmatched hfound]
        exact hacross.mono (List.suffix_append _ _) (List.prefix_refl _)
    · exact .inr ⟨front, found, rest, rfl, hfound, hfront.symm ▸ hacross⟩

/-- No word is left when none is joined. -/
theorem not_contains_eraseAll (hpasses : Passes words patterns) {cleared : Set (List α)}
    (hclear : ¬Contains cleared text) (hsealed : Sealed cleared patterns text) :
    ¬Contains (cleared ∪ {word | ∃ pattern ∈ patterns, word ∈ matched pattern})
      (eraseAll patterns text) := by
  induction patterns generalizing cleared text with
  | nil =>
      rintro ⟨word, hword, hinfix⟩
      rcases hword with hword | ⟨pattern, hmem, -⟩
      · exact hclear ⟨word, hword, hinfix⟩
      · cases hmem
  | cons pattern patterns ih =>
      have hexact := hpasses.exact pattern List.mem_cons_self
      have hmatched := hpasses.matched_subset pattern List.mem_cons_self
      have hnone : ¬Contains (cleared ∪ matched pattern) (erase pattern text) := by
        intro hcontains
        rcases contains_erase_cases hpasses.separate hexact hmatched hcontains with
          ⟨word, ⟨hword | hword, hnot⟩, hinfix⟩ | hrejoins
        · exact hclear ⟨word, hword, hinfix⟩
        · exact hnot hword
        · exact hsealed.1 hrejoins
      rintro ⟨word, hword, hinfix⟩
      refine ih hpasses.tail hnone hsealed.2 ⟨word, ?_, hinfix⟩
      rcases hword with hword | ⟨other, hother, hword⟩
      · exact .inl (.inl hword)
      · rcases List.mem_cons.mp hother with rfl | hother
        · exact .inl (.inr hword)
        · exact .inr ⟨other, hother, hword⟩

theorem eraseAll_eq_self (hpasses : Passes words patterns) (hnone : ¬Contains words text) :
    eraseAll patterns text = text := by
  induction patterns with
  | nil => rfl
  | cons pattern patterns ih =>
      have hmatched := hpasses.matched_subset pattern List.mem_cons_self
      rw [eraseAll, (hpasses.exact pattern List.mem_cons_self).erase_eq_self, ih hpasses.tail]
      exact fun ⟨word, hword, hinfix⟩ => hnone ⟨word, hmatched hword, hinfix⟩

end ShuttleFlow.Removal
