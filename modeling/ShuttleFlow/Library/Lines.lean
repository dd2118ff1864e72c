import Mathlib.Order.Basic
import Mathlib.Data.List.Basic
import ShuttleFlow.Library.PythonText

/-! # Lines

A text is a list of parts with a mark behind each of them, and perhaps a part without one.
-/

namespace ShuttleFlow.Lines

variable {α : Type} {mark : α}

section Induction

/-- A text is empty, or one part without its mark, or a part with its mark and a text. -/
theorem text_induction {motive : List α → Prop} (nil : motive [])
    (part : ∀ body, body ≠ [] → mark ∉ body → motive body)
    (line : ∀ body rest, mark ∉ body → motive rest → motive (body ++ mark :: rest))
    (text : List α) : motive text := by
  classical
  induction hlength : text.length using Nat.strongRecOn generalizing text with
  | _ length ih =>
      by_cases hmark : mark ∈ text
      · obtain ⟨body, rest, rfl, hbody⟩ := List.eq_append_cons_of_mem hmark
        refine line body rest hbody (ih rest.length ?_ rest rfl)
        rw [← hlength, List.length_append, List.length_cons]
        omega
      · cases text with
        | nil => exact nil
        | cons first rest => exact part _ (List.cons_ne_nil _ _) hmark

end Induction

section Splitting

variable [DecidableEq α] {body rest text part : List α}

theorem splitOn_of_notMem (hbody : mark ∉ body) : body.splitOn mark = [body] := by
  apply List.splitOnP_eq_singleton
  intro item hitem
  exact beq_eq_false_iff_ne.mpr fun heq => hbody (heq ▸ hitem)

theorem splitOn_append_cons (hbody : mark ∉ body) (rest : List α) :
    (body ++ mark :: rest).splitOn mark = body :: rest.splitOn mark := by
  apply List.splitOnP_append_cons_of_forall_mem
  · intro item hitem
    exact beq_eq_false_iff_ne.mpr fun heq => hbody (heq ▸ hitem)
  · exact beq_self_eq_true mark

theorem splitOn_ne_nil (text : List α) : text.splitOn mark ≠ [] :=
  List.splitOnP_ne_nil _ _

theorem notMem_of_mem_splitOn (hmem : part ∈ text.splitOn mark) : mark ∉ part := by
  induction text using @text_induction _ mark with
  | nil =>
      rw [List.splitOn_nil, List.mem_singleton] at hmem
      rw [hmem]
      exact List.not_mem_nil
  | part body hne hbody =>
      rw [splitOn_of_notMem hbody, List.mem_singleton] at hmem
      rwa [hmem]
  | line body rest hbody ih =>
      rw [splitOn_append_cons hbody] at hmem
      rcases List.mem_cons.mp hmem with rfl | hrest
      · exact hbody
      · exact ih hrest

end Splitting

end ShuttleFlow.Lines

/-! ## Parts of texts that are not blank

Lines and words are parts between certain spaces. Blank parts are left out, and the others are
stripped, so that spaces around a text do not matter.
-/

namespace ShuttleFlow.PythonText

/-- `str.split` without arguments. -/
def words (text : List Char) : List (List Char) :=
  (text.splitOnP isSpace).filter (· ≠ [])

/-- The parts between the spaces that a predicate picks. -/
def inkParts (mark : Char → Bool) (text : List Char) : List (List Char) :=
  ((text.splitOnP mark).map trim).filter (· ≠ [])

variable {mark : Char → Bool} {text blank body rest part : List Char}

/-! ## Blank texts -/

theorem trim_eq_nil_iff : trim text = [] ↔ ∀ c ∈ text, isSpace c = true := by
  constructor
  · intro hnil c hc
    by_contra hspace
    have hmem : c ∈ ink text := List.mem_filter.mpr ⟨hc, by simpa using hspace⟩
    rw [← ink_trim, hnil] at hmem
    exact absurd hmem List.not_mem_nil
  · intro hblank
    have htrim : trim ([] ++ text) = trim [] := trim_append_of_blank hblank
    rwa [List.nil_append] at htrim

theorem trim_blank_append (hblank : ∀ c ∈ blank, isSpace c = true) (text : List Char) :
    trim (blank ++ text) = trim text := by
  rw [trim, trim, lstrip_append_of_blank hblank]

theorem trim_of_ink (hink : ∀ c ∈ text, isSpace c = false) : trim text = text :=
  trim_of_ends (fun c hc => hink c (List.mem_of_mem_head? hc))
    fun c hc => hink c (List.mem_of_mem_getLast? hc)

/-! ## Taking a text apart -/

theorem inkParts_of_notMark (hmark : ∀ c ∈ text, mark c = false) :
    inkParts mark text = if trim text = [] then [] else [trim text] := by
  rw [inkParts, List.splitOnP_eq_singleton hmark, List.map_singleton]
  split
  next hnil => simp [hnil]
  next hne => simp [hne]

theorem inkParts_nil : inkParts mark [] = [] := by
  rw [inkParts_of_notMark fun c hc => absurd hc List.not_mem_nil]
  rfl

theorem inkParts_append_cons (body rest : List Char) {c : Char} (hc : mark c = true) :
    inkParts mark (body ++ c :: rest) = inkParts mark body ++ inkParts mark rest := by
  rw [inkParts, List.splitOnP_append_cons _ _ hc, List.map_append, List.filter_append]
  rfl

theorem inkParts_cons (rest : List Char) {c : Char} (hc : mark c = true) :
    inkParts mark (c :: rest) = inkParts mark rest := by
  have happend := inkParts_append_cons [] rest hc
  rwa [List.nil_append, inkParts_nil, List.nil_append] at happend

/-- There is no mark, or a first one. -/
theorem mark_cases (mark : Char → Bool) (text : List Char) :
    (∀ c ∈ text, mark c = false) ∨
      ∃ body c rest, text = body ++ c :: rest ∧ (∀ d ∈ body, mark d = false) ∧ mark c = true := by
  induction text with
  | nil => exact .inl fun c hc => absurd hc List.not_mem_nil
  | cons c rest ih =>
      cases hc : mark c with
      | true => exact .inr ⟨[], c, rest, rfl, fun d hd => absurd hd List.not_mem_nil, hc⟩
      | false =>
          rcases ih with hnone | ⟨body, d, later, rfl, hbody, hd⟩
          · exact .inl (List.forall_mem_cons.mpr ⟨hc, hnone⟩)
          · exact .inr ⟨c :: body, d, later, rfl, List.forall_mem_cons.mpr ⟨hc, hbody⟩, hd⟩

/-- Texts without marks, and marks between such texts. -/
theorem mark_induction {motive : List Char → Prop}
    (plain : ∀ text, (∀ c ∈ text, mark c = false) → motive text)
    (marked : ∀ body c rest, (∀ d ∈ body, mark d = false) → mark c = true → motive rest →
      motive (body ++ c :: rest)) (text : List Char) : motive text := by
  induction hlength : text.length using Nat.strong_induction_on generalizing text with
  | _ length ih =>
      rcases mark_cases mark text with hnone | ⟨body, c, rest, rfl, hbody, hc⟩
      · exact plain text hnone
      · refine marked body c rest hbody hc (ih _ ?_ rest rfl)
        rw [← hlength, List.length_append, List.length_cons]
        omega

theorem inkParts_eq_nil_iff (hspaces : ∀ c, mark c = true → isSpace c = true) :
    inkParts mark text = [] ↔ ∀ c ∈ text, isSpace c = true := by
  induction text using @mark_induction mark with
  | plain text hmark =>
      rw [inkParts_of_notMark hmark, ← trim_eq_nil_iff]
      split
      next hnil => exact iff_of_true rfl hnil
      next hne => exact iff_of_false (List.cons_ne_nil _ _) hne
  | marked body c rest hbody hc ih =>
      rw [inkParts_append_cons _ _ hc, List.append_eq_nil_iff, ih, inkParts_of_notMark hbody,
        List.forall_mem_append, List.forall_mem_cons]
      split
      next hnil =>
        have hblank := trim_eq_nil_iff.mp hnil
        exact ⟨fun hrest => ⟨hblank, hspaces c hc, hrest.2⟩, fun hall => ⟨rfl, hall.2.2⟩⟩
      next hne =>
        constructor
        · exact fun hcons => absurd hcons.1 (List.cons_ne_nil _ _)
        · exact fun hall => absurd (trim_eq_nil_iff.mpr hall.1) hne

theorem inkParts_cons_space {c : Char} (hc : isSpace c = true) (text : List Char) :
    inkParts mark (c :: text) = inkParts mark text := by
  have hblank : ∀ d ∈ [c], isSpace d = true := List.forall_mem_singleton.mpr hc
  cases hmark : mark c with
  | true => exact inkParts_cons text hmark
  | false =>
      rcases mark_cases mark text with hnone | ⟨body, d, rest, rfl, hbody, hd⟩
      · rw [inkParts_of_notMark (List.forall_mem_cons.mpr ⟨hmark, hnone⟩),
          inkParts_of_notMark hnone, ← List.singleton_append, trim_blank_append hblank]
      · rw [← List.cons_append, inkParts_append_cons _ _ hd, inkParts_append_cons _ _ hd,
          inkParts_of_notMark (List.forall_mem_cons.mpr ⟨hmark, hbody⟩),
          inkParts_of_notMark hbody, ← List.singleton_append, trim_blank_append hblank]

theorem inkParts_blank_append (hblank : ∀ c ∈ blank, isSpace c = true) (text : List Char) :
    inkParts mark (blank ++ text) = inkParts mark text := by
  induction blank with
  | nil => rfl
  | cons c blank ih =>
      rw [List.forall_mem_cons] at hblank
      rw [List.cons_append, inkParts_cons_space hblank.1, ih hblank.2]

theorem inkParts_append_space (text : List Char) {c : Char} (hc : isSpace c = true) :
    inkParts mark (text ++ [c]) = inkParts mark text := by
  induction text using @mark_induction mark with
  | plain text hplain =>
      cases hmark : mark c with
      | true => rw [inkParts_append_cons _ _ hmark, inkParts_nil, List.append_nil]
      | false =>
          have hboth : ∀ d ∈ text ++ [c], mark d = false :=
            List.forall_mem_append.mpr ⟨hplain, List.forall_mem_singleton.mpr hmark⟩
          rw [inkParts_of_notMark hboth, inkParts_of_notMark hplain,
            trim_append_of_blank (List.forall_mem_singleton.mpr hc)]
  | marked body d rest hbody hd ih =>
      rw [List.append_assoc, List.cons_append, inkParts_append_cons _ _ hd,
        inkParts_append_cons _ _ hd, ih]

theorem inkParts_append_blank (text : List Char) (hblank : ∀ c ∈ blank, isSpace c = true) :
    inkParts mark (text ++ blank) = inkParts mark text := by
  induction blank generalizing text with
  | nil => rw [List.append_nil]
  | cons c blank ih =>
      rw [List.forall_mem_cons] at hblank
      rw [← List.singleton_append, ← List.append_assoc, ih _ hblank.2,
        inkParts_append_space text hblank.1]

/-- Spaces around a text do not matter. -/
theorem inkParts_trim (text : List Char) : inkParts mark (trim text) = inkParts mark text := by
  obtain ⟨front, hfront, hleft⟩ := exists_blank_append_lstrip text
  obtain ⟨back, hback, hright⟩ := exists_rstrip_append_blank (lstrip text)
  calc inkParts mark (trim text)
      = inkParts mark (trim text ++ back) := (inkParts_append_blank _ hback).symm
    _ = inkParts mark (lstrip text) := congrArg (inkParts mark) hright.symm
    _ = inkParts mark (front ++ lstrip text) := (inkParts_blank_append hfront _).symm
    _ = inkParts mark text := congrArg (inkParts mark) hleft.symm

/-! ## Words -/

theorem words_eq_inkParts (text : List Char) : words text = inkParts isSpace text := by
  induction text using @mark_induction isSpace with
  | plain text hplain =>
      rw [inkParts_of_notMark hplain, trim_of_ink hplain, words, List.splitOnP_eq_singleton hplain]
      split
      next hnil => simp [hnil]
      next hne => simp [hne]
  | marked body c rest hbody hc ih =>
      rw [inkParts_append_cons _ _ hc, ← ih, inkParts_of_notMark hbody, trim_of_ink hbody, words,
        words, List.splitOnP_append_cons _ _ hc, List.splitOnP_eq_singleton hbody]
      split
      next hnil => simp [hnil]
      next hne => simp [hne]

theorem words_trim (text : List Char) : words (trim text) = words text := by
  rw [words_eq_inkParts, words_eq_inkParts, inkParts_trim]

theorem words_append_cons (body rest : List Char) {c : Char} (hc : isSpace c = true) :
    words (body ++ c :: rest) = words body ++ words rest := by
  rw [words_eq_inkParts, words_eq_inkParts, words_eq_inkParts, inkParts_append_cons _ _ hc]

/-- A text without spaces is a single word. -/
theorem words_of_ink (hne : text ≠ []) (hink : ∀ c ∈ text, isSpace c = false) :
    words text = [text] := by
  rw [words, List.splitOnP_eq_singleton hink]
  simp [hne]

theorem ink_of_mem_words (hpart : part ∈ words text) : ∀ c ∈ part, isSpace c = false := by
  induction text using @mark_induction isSpace with
  | plain text hplain =>
      rw [words, List.splitOnP_eq_singleton hplain] at hpart
      obtain rfl := List.mem_singleton.mp (List.mem_filter.mp hpart).1
      exact hplain
  | marked body c rest hbody hc ih =>
      rw [words_append_cons _ _ hc, List.mem_append] at hpart
      rcases hpart with hfront | hback
      · rw [words, List.splitOnP_eq_singleton hbody] at hfront
        obtain rfl := List.mem_singleton.mp (List.mem_filter.mp hfront).1
        exact hbody
      · exact ih hback

/-! ## Lines -/

/-- The lines that are not blank, without the spaces around them. -/
def inkLines (text : List Char) : List (List Char) :=
  ((splitlines text).map trim).filter (· ≠ [])

theorem isSpace_of_isLineBreak {c : Char} (hc : isLineBreak c = true) : isSpace c = true := by
  have hreturn : '\r'.toNat = 13 := rfl
  have hnewline : '\n'.toNat = 10 := rfl
  simp only [isLineBreak, isSpace, Bool.or_eq_true, Bool.and_eq_true, decide_eq_true_eq] at hc ⊢
  rcases hc with (((((((rfl | rfl) | hc) | hc) | hc) | hc) | hc) | hc)
  all_goals omega

theorem splitlines_plain (hne : body ≠ []) (hbody : ∀ c ∈ body, isLineBreak c = false) :
    splitlines body = [body] := by
  induction body with
  | nil => exact absurd rfl hne
  | cons first body ih =>
      rw [List.forall_mem_cons] at hbody
      have hfirst : first ≠ '\r' := by
        rintro rfl
        exact absurd hbody.1 (by decide)
      rw [splitlines.eq_3 _ _ (fun later hreturn _ => hfirst hreturn), hbody.1]
      cases body with
      | nil => rfl
      | cons second body =>
          rw [ih (List.cons_ne_nil _ _) hbody.2]
          rfl

/-- A line ends at the first line break, which may be two characters long. -/
theorem splitlines_break {c : Char} (hbody : ∀ d ∈ body, isLineBreak d = false)
    (hc : isLineBreak c = true) (rest : List Char) :
    ∃ later, splitlines (body ++ c :: rest) = body :: splitlines later ∧
      (later = rest ∨ rest = '\n' :: later) := by
  induction body with
  | nil =>
      by_cases hpair : ∃ later, c = '\r' ∧ rest = '\n' :: later
      · obtain ⟨later, rfl, rfl⟩ := hpair
        exact ⟨later, rfl, .inr rfl⟩
      · refine ⟨rest, ?_, .inl rfl⟩
        rw [List.nil_append, splitlines.eq_3 _ _ fun later hreturn hnewline =>
          hpair ⟨later, hreturn, hnewline⟩, if_pos hc]
  | cons first body ih =>
      rw [List.forall_mem_cons] at hbody
      have hfirst : first ≠ '\r' := by
        rintro rfl
        exact absurd hbody.1 (by decide)
      obtain ⟨later, hlines, hlater⟩ := ih hbody.2
      refine ⟨later, ?_, hlater⟩
      rw [List.cons_append, splitlines.eq_3 _ _ (fun later hreturn _ => hfirst hreturn), hlines,
        hbody.1]
      rfl

theorem inkLines_eq_inkParts (text : List Char) : inkLines text = inkParts isLineBreak text := by
  induction hlength : text.length using Nat.strong_induction_on generalizing text with
  | _ length ih =>
      rcases mark_cases isLineBreak text with hnone | ⟨body, c, rest, rfl, hbody, hc⟩
      · by_cases hnil : text = []
        · subst hnil
          rfl
        · rw [inkLines, splitlines_plain hnil hnone, inkParts, List.splitOnP_eq_singleton hnone]
      · obtain ⟨later, hlines, hlater⟩ := splitlines_break hbody hc rest
        rw [List.length_append, List.length_cons] at hlength
        have hrest : inkParts isLineBreak later = inkParts isLineBreak rest := by
          rcases hlater with rfl | rfl
          · rfl
          · exact (inkParts_cons later (by decide)).symm
        have hshort : later.length < length := by
          rcases hlater with rfl | rfl
          · omega
          · rw [List.length_cons] at hlength
            omega
        rw [inkParts_append_cons _ _ hc, ← hrest, ← ih _ hshort later rfl, inkLines, hlines,
          inkParts, List.splitOnP_eq_singleton hbody, List.map_cons, ← List.singleton_append,
          List.filter_append]
        rfl

theorem inkLines_trim (text : List Char) : inkLines (trim text) = inkLines text := by
  rw [inkLines_eq_inkParts, inkLines_eq_inkParts, inkParts_trim]

theorem inkLines_append_cons (body rest : List Char) {c : Char} (hc : isLineBreak c = true) :
    inkLines (body ++ c :: rest) = inkLines body ++ inkLines rest := by
  rw [inkLines_eq_inkParts, inkLines_eq_inkParts, inkLines_eq_inkParts,
    inkParts_append_cons _ _ hc]

theorem inkLines_eq_nil_iff : inkLines text = [] ↔ ∀ c ∈ text, isSpace c = true := by
  rw [inkLines_eq_inkParts, inkParts_eq_nil_iff fun _ hc => isSpace_of_isLineBreak hc]

/-- Lines of a text, each with a newline behind it. -/
theorem inkLines_flatMap {α : Type} (line : α → List Char) (items : List α) :
    inkLines (items.flatMap fun item => line item ++ ['\n']) =
      items.flatMap fun item => inkLines (line item) := by
  induction items with
  | nil => rfl
  | cons item items ih =>
      rw [List.flatMap_cons, List.flatMap_cons, List.append_assoc, List.singleton_append,
        inkLines_append_cons _ _ (by decide), ih]

end ShuttleFlow.PythonText
