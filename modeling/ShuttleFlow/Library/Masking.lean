import Mathlib.Data.List.Induction
import ShuttleFlow.Library.Segments
import ShuttleFlow.Library.Words

/-! # Words that are masked

The words of a list are replaced one after the other by a mask. Each letter of the text
carries its position, so that it can be told which letters of the text are left.
-/

namespace ShuttleFlow.Masking

variable {κ : Type} [DecidableEq κ]

/-- A letter, with its position if it comes from the text. -/
abbrev Marked (κ : Type) : Type := κ × Option Nat

/-- Replaces each occurrence of a word. -/
def replace (mask letters : List κ) (text : List κ) : List κ :=
  (word id letters).sub (fun _ => mask) text

/-- The words are replaced in their order. -/
def maskAll (mask : List κ) (words : List (List κ)) (text : List κ) : List κ :=
  words.foldl (fun text letters => replace mask letters text) text

/-- The letters of a text, with their positions from `start` on. -/
def mark : Nat → List κ → List (Marked κ)
  | _, [] => []
  | start, letter :: rest => (letter, some start) :: mark (start + 1) rest

def markMask (mask : List κ) : List (Marked κ) :=
  mask.map fun letter => (letter, none)

def replaceMarked (mask letters : List κ) (text : List (Marked κ)) : List (Marked κ) :=
  (word Prod.fst letters).sub (fun _ => markMask mask) text

def maskMarked (mask : List κ) (words : List (List κ)) (text : List (Marked κ)) :
    List (Marked κ) :=
  words.foldl (fun text letters => replaceMarked mask letters text) text

theorem maskMarked_append_singleton (mask : List κ) (words : List (List κ)) (letters : List κ)
    (text : List (Marked κ)) : maskMarked mask (words ++ [letters]) text =
      replaceMarked mask letters (maskMarked mask words text) :=
  List.foldl_append

omit [DecidableEq κ] in
@[simp] theorem map_fst_mark (start : Nat) (text : List κ) :
    (mark start text).map Prod.fst = text := by
  induction text generalizing start with
  | nil => rfl
  | cons letter rest ih => rw [mark, List.map_cons, ih]

omit [DecidableEq κ] in
@[simp] theorem map_fst_markMask (mask : List κ) : (markMask mask).map Prod.fst = mask := by
  rw [markMask, List.map_map]
  exact List.map_id mask

/-! ## Positions do not matter -/

section Words

variable {letters mask : List κ}

theorem find_word_map (text : List (Marked κ)) :
    (word id letters).find (text.map Prod.fst) =
      ((word Prod.fst letters).find text).map fun found => found.map Prod.fst := by
  simp only [word, List.map_id, ← List.map_take]
  split <;> rfl

theorem map_replaceMarked (text : List (Marked κ)) :
    (replaceMarked mask letters text).map Prod.fst = replace mask letters (text.map Prod.fst) := by
  rw [replaceMarked, replace]
  induction text using @Pattern.text_induction _ _ (word Prod.fst letters) with
  | nil => rfl
  | item item rest hfind ih =>
      have hfind' := @find_word_map _ _ letters (item :: rest)
      rw [hfind] at hfind'
      rw [Pattern.sub_of_find_eq_none hfind, List.map_cons, List.map_cons, ih]
      exact (Pattern.sub_of_find_eq_none hfind').symm
  | found found rest hfind ih =>
      have hfind' := @find_word_map _ _ letters (found ++ rest)
      change (word Prod.fst letters).find (found ++ rest) = _ at hfind
      rw [hfind, List.map_append] at hfind'
      have hsub := @Pattern.sub_of_find _ _ (word id letters) (fun _ => mask) _ _ hfind'
      have hmarked := @Pattern.sub_of_find _ _ (word Prod.fst letters) (fun _ => markMask mask)
        _ _ hfind
      rw [hmarked, List.map_append, ih, map_fst_markMask]
      change _ = (word id letters).sub (fun _ => mask) ((found ++ rest).map Prod.fst)
      rw [List.map_append]
      exact hsub.symm

theorem map_maskMarked (words : List (List κ)) (text : List (Marked κ)) :
    (maskMarked mask words text).map Prod.fst = maskAll mask words (text.map Prod.fst) := by
  rw [maskMarked, maskAll]
  induction words generalizing text with
  | nil => rfl
  | cons letters words ih => rw [List.foldl_cons, List.foldl_cons, ih, map_replaceMarked]

end Words

/-! ## Letters of the text and of masks do not mix -/

section Separated

variable {letters other mask : List κ} {text : List (Marked κ)}

/-- Where the word stands, all letters are from the text, or the word is part of the mask and
none is. -/
def Separated (mask letters : List κ) (text : List (Marked κ)) : Prop :=
  ∀ before part after, text = before ++ part ++ after → part.map Prod.fst = letters →
    (∀ item ∈ part, item.2 ≠ none) ∨ (letters <:+: mask ∧ ∀ item ∈ part, item.2 = none)

omit [DecidableEq κ] in
theorem Separated.of_append {front back : List (Marked κ)}
    (hseparated : Separated mask letters (front ++ back)) : Separated mask letters back := by
  intro before part after hsplit
  exact hseparated (front ++ before) part after
    (by rw [hsplit, List.append_assoc, List.append_assoc, List.append_assoc])

omit [DecidableEq κ] in
theorem separated_mark (start : Nat) (text : List κ) :
    Separated mask letters (mark start text) := by
  intro before part after hsplit _
  refine .inl fun item hitem => ?_
  have hmem : item ∈ mark start text := by
    rw [hsplit]
    exact List.mem_append_left _ (List.mem_append_right _ hitem)
  clear hsplit hitem
  induction text generalizing start with
  | nil => cases hmem
  | cons letter rest ih =>
      rcases List.mem_cons.mp hmem with rfl | hmem
      · exact nofun
      · exact ih _ hmem

/-- A replacement does not mix letters where the mask stays out of the words. -/
theorem Separated.replaceMarked (hseparated : Separated mask letters text)
    (hletters : letters ≠ []) (hmask : mask ≠ []) (hstays : StaysOut letters mask) :
    Separated mask letters (replaceMarked mask other text) := by
  intro before part after hsplit hpart
  have hpart' : part ≠ [] := fun hnil => hletters (by rw [← hpart, hnil]; rfl)
  have hmark : ∀ _ : List (Marked κ), markMask mask ≠ [] :=
    fun _ hnil => hmask (List.map_eq_nil_iff.mp hnil)
  rcases Pattern.infix_join_cases hmark hpart' hsplit with
    ⟨first, last, hpieces, -⟩ | ⟨first, found, last, hpieces, hleft, hright⟩
  · have htext := @Pattern.join_covers_pieces _ _ (word Prod.fst other) text
    rw [hpieces, Pattern.join_append, Pattern.join_append, Pattern.join_map_inl] at htext
    exact hseparated _ part _ htext.symm hpart
  · have hjoin : Pattern.join (fun _ => markMask mask) first ++ markMask mask ++
        Pattern.join (fun _ => markMask mask) last = before ++ part ++ after := by
      rw [← hsplit, Masking.replaceMarked, Pattern.sub, hpieces, Pattern.join_append,
        Pattern.join_inr, List.append_assoc]
    have hstays' : StaysOut (part.map Prod.fst) ((markMask mask).map Prod.fst) := by
      rw [hpart, map_fst_markMask]
      exact hstays
    obtain ⟨start, rest, hinside⟩ := hstays'.inside hjoin hleft hright
    refine .inr ⟨?_, fun item hitem => ?_⟩
    · have hmap := congrArg (List.map Prod.fst) hinside
      rw [map_fst_markMask, List.map_append, List.map_append, hpart] at hmap
      exact ⟨_, _, hmap.symm⟩
    · have hmem : item ∈ markMask mask := by
        rw [hinside]
        exact List.mem_append_left _ (List.mem_append_right _ hitem)
      obtain ⟨letter, -, rfl⟩ := List.mem_map.mp hmem
      rfl

end Separated

/-! ## What is left of the text -/

/-- From a position on, the text has its own letters but for the positions that are gone,
and blocks that are not from the text in their place. -/
inductive Laid (text : List κ) (gone : Nat → Prop) : Nat → List (Marked κ) → Prop
  | done : Laid text gone text.length []
  | keep {position : Nat} {letter : κ} {rest : List (Marked κ)} :
      text[position]? = some letter → ¬ gone position → Laid text gone (position + 1) rest →
      Laid text gone position ((letter, some position) :: rest)
  | block {position next : Nat} {block rest : List (Marked κ)} :
      block ≠ [] → (∀ item ∈ block, item.2 = none) → position < next →
      (∀ index, position ≤ index → index < next → gone index) → Laid text gone next rest →
      (∀ item ∈ rest.head?, item.2 ≠ none) → Laid text gone position (block ++ rest)

namespace Laid

variable {text letters mask : List κ} {gone : Nat → Prop} {position next : Nat}
  {marked rest block : List (Marked κ)}

omit [DecidableEq κ] in
theorem position_le (hlaid : Laid text gone position marked) : position ≤ text.length := by
  induction hlaid with
  | done => exact Nat.le_refl _
  | keep hletter _ _ ih => omega
  | block _ _ hlt _ _ _ ih => omega

omit [DecidableEq κ] in
/-- Blocks may come one after the other. -/
theorem append_block (hlaid : Laid text gone next rest) (hblock : block ≠ [])
    (hnone : ∀ item ∈ block, item.2 = none) (hlt : position < next)
    (hgone : ∀ index, position ≤ index → index < next → gone index) :
    Laid text gone position (block ++ rest) := by
  cases hlaid with
  | done => exact .block hblock hnone hlt hgone .done nofun
  | keep hletter hkept hrest =>
      refine .block hblock hnone hlt hgone (.keep hletter hkept hrest) fun item hitem => ?_
      cases hitem
      exact nofun
  | block hblock' hnone' hlt' hgone' hrest hhead =>
      rw [← List.append_assoc]
      refine .block (fun hnil => hblock (List.append_eq_nil_iff.mp hnil).1) ?_
        (Nat.lt_trans hlt hlt') ?_ hrest hhead
      · exact List.forall_mem_append.mpr ⟨hnone, hnone'⟩
      · intro index hle hindex
        rcases Nat.lt_or_ge index next with hbefore | hafter
        · exact hgone index hle hbefore
        · exact hgone' index hafter hindex

omit [DecidableEq κ] in
theorem mark_drop (position : Nat) (hle : position ≤ text.length) :
    Laid text (fun _ => False) position (mark position (text.drop position)) := by
  induction hlength : text.length - position generalizing position with
  | zero =>
      have hend : position = text.length := by omega
      rw [hend, List.drop_length]
      exact .done
  | succ length ih =>
      have hlt : position < text.length := by omega
      rw [List.drop_eq_getElem_cons hlt]
      exact .keep (List.getElem?_eq_getElem hlt) id (ih (position + 1) hlt (by omega))

omit [DecidableEq κ] in
/-- The positions that are left are not gone. -/
theorem not_gone {letter : κ} {index : Nat} (hlaid : Laid text gone position marked)
    (hmem : (letter, some index) ∈ marked) : ¬ gone index := by
  induction hlaid with
  | done => cases hmem
  | keep _ hkept _ ih =>
      rcases List.mem_cons.mp hmem with heq | hmem
      · cases heq
        exact hkept
      · exact ih hmem
  | block _ hnone _ _ _ _ ih =>
      rcases List.mem_append.mp hmem with hblock | hmem
      · cases hnone _ hblock
      · exact ih hmem

omit [DecidableEq κ] in
/-- Letters of the text that stand side by side did so in the text. -/
theorem of_original {part after : List (Marked κ)}
    (hlaid : Laid text gone position (part ++ after)) (hpart : ∀ item ∈ part, item.2 ≠ none) :
    part.map Prod.fst <+: text.drop position ∧
      ∀ index, position ≤ index → index < position + part.length → ¬ gone index := by
  induction part generalizing position with
  | nil =>
      refine ⟨List.nil_prefix, fun index hle hlt => ?_⟩
      rw [List.length_nil] at hlt
      omega
  | cons item part ih =>
      rw [List.forall_mem_cons] at hpart
      generalize hmarked : item :: part ++ after = marked at hlaid
      cases hlaid with
      | done => cases hmarked
      | keep hletter hkept hrest =>
          cases hmarked
          obtain ⟨hinitial, hnone⟩ := ih hrest hpart.2
          obtain ⟨hlt, hget⟩ := List.getElem?_eq_some_iff.mp hletter
          refine ⟨?_, fun index hle hindex => ?_⟩
          · rw [List.map_cons, List.drop_eq_getElem_cons hlt, hget]
            exact List.cons_prefix_cons.mpr ⟨rfl, hinitial⟩
          · rw [List.length_cons] at hindex
            rcases Nat.eq_or_lt_of_le hle with rfl | hle
            · exact hkept
            · exact hnone index hle (by omega)
      | @block _ _ block _ hblock hnone _ _ _ _ =>
          cases block with
          | nil => exact absurd rfl hblock
          | cons first block =>
              rw [List.cons_append, List.cons_append, List.cons.injEq] at hmarked
              rw [hmarked.1] at hpart
              exact absurd (hnone _ List.mem_cons_self) hpart.1

omit [DecidableEq κ] in
/-- What begins with a letter of the text is laid, too. -/
theorem of_append {before part after : List (Marked κ)}
    (hlaid : Laid text gone position (before ++ part ++ after)) (hpart : part ≠ [])
    (hall : ∀ item ∈ part, item.2 ≠ none) : ∃ next, Laid text gone next (part ++ after) := by
  rw [List.append_assoc] at hlaid
  generalize hmarked : before ++ (part ++ after) = marked at hlaid
  have hne : part ++ after ≠ [] := fun hnil => hpart (List.append_eq_nil_iff.mp hnil).1
  induction hlaid generalizing before with
  | done => exact absurd (List.append_eq_nil_iff.mp hmarked).2 hne
  | @keep position letter rest hletter hkept hrest ih =>
      cases before with
      | nil => exact ⟨position, hmarked ▸ .keep hletter hkept hrest⟩
      | cons item before => exact ih (List.cons.inj hmarked).2
  | @block _ _ block rest hblock hnone hlt hgone hrest hhead ih =>
      rcases List.append_eq_append_iff.mp hmarked with ⟨more, rfl, hmore⟩ | ⟨more, rfl, hmore⟩
      · cases part with
        | nil => exact absurd rfl hpart
        | cons item part =>
            cases more with
            | nil => exact @ih [] hmore
            | cons first more =>
                rw [List.cons_append, List.cons_append, List.cons.injEq] at hmore
                have hfirst := hnone first (List.mem_append_right _ List.mem_cons_self)
                rw [← hmore.1] at hfirst
                exact absurd hfirst (hall _ List.mem_cons_self)
      · exact ih hmore.symm

omit [DecidableEq κ] in
/-- A word none of whose positions is gone stands where it stood. -/
theorem of_present (hlaid : Laid text gone position marked)
    (hinitial : letters <+: text.drop position)
    (hpresent : ∀ index, position ≤ index → index < position + letters.length → ¬ gone index) :
    ∃ rest, marked = mark position letters ++ rest ∧
      Laid text gone (position + letters.length) rest := by
  induction letters generalizing position marked with
  | nil => exact ⟨marked, rfl, hlaid⟩
  | cons letter letters ih =>
      have hhere : ¬ gone position := by
        refine hpresent position (Nat.le_refl _) ?_
        rw [List.length_cons]
        omega
      cases hlaid with
      | done =>
          rw [List.drop_length] at hinitial
          cases List.prefix_nil.mp hinitial
      | keep hletter hkept hrest =>
          obtain ⟨hlt, hget⟩ := List.getElem?_eq_some_iff.mp hletter
          rw [List.drop_eq_getElem_cons hlt, hget, List.cons_prefix_cons] at hinitial
          obtain ⟨rfl, hinitial⟩ := hinitial
          obtain ⟨rest, rfl, hlaid⟩ := ih hrest hinitial fun index hle hindex =>
            hpresent index (by omega) (by rw [List.length_cons]; omega)
          refine ⟨rest, rfl, ?_⟩
          rw [List.length_cons, Nat.add_comm letters.length, ← Nat.add_assoc]
          exact hlaid
      | block _ _ hlt hgone _ _ => exact absurd (hgone position (Nat.le_refl _) hlt) hhere

end Laid

/-! ## One word -/

section Step

variable {text letters mask : List κ} {gone : Nat → Prop} {position : Nat}
  {marked : List (Marked κ)}

/-- The word stands at the position, and nothing of it is gone. -/
def Fresh (text letters : List κ) (gone : Nat → Prop) (position : Nat) : Prop :=
  letters <+: text.drop position ∧
    ∀ index, position ≤ index → index < position + letters.length → ¬ gone index

/-- The positions that are gone after the word is replaced. -/
def GoneAfter (text letters : List κ) (gone : Nat → Prop) (index : Nat) : Prop :=
  gone index ∨ ∃ position, Fresh text letters gone position ∧
    position ≤ index ∧ index < position + letters.length

theorem find_word_eq_some {found rest : List (Marked κ)}
    (hfind : (word Prod.fst letters).find rest = some found) :
    letters ≠ [] ∧ found.map Prod.fst = letters ∧ found <+: rest := by
  have hinitial := (word Prod.fst letters).covers_initial hfind
  rw [word, Option.ite_none_right_eq_some] at hfind
  obtain ⟨⟨hne, hletters⟩, hfound⟩ := hfind
  cases hfound
  exact ⟨hne, hletters, hinitial⟩

omit [DecidableEq κ] in
@[simp] theorem length_mark (start : Nat) (text : List κ) :
    (mark start text).length = text.length := by
  rw [← List.length_map Prod.fst, map_fst_mark]

theorem find_word_mark (hletters : letters ≠ []) (rest : List (Marked κ)) :
    (word Prod.fst letters).find (mark position letters ++ rest) =
      some (mark position letters) := by
  have htake : (mark position letters ++ rest).take letters.length = mark position letters := by
    rw [List.take_append_of_le_length (Nat.le_of_eq (length_mark _ _).symm),
      List.take_of_length_le (Nat.le_of_eq (length_mark _ _))]
  rw [word]
  change (if _ then _ else _) = _
  rw [htake, map_fst_mark, if_pos ⟨hletters, rfl⟩]

/-- Inside a block that is not from the text, the word is found without what follows. -/
theorem find_word_block {block rest : List (Marked κ)}
    (hseparated : Separated mask letters (block ++ rest)) (hblock : block ≠ [])
    (hnone : ∀ item ∈ block, item.2 = none) (hhead : ∀ item ∈ rest.head?, item.2 ≠ none) :
    (word Prod.fst letters).find (block ++ rest) = (word Prod.fst letters).find block := by
  by_cases hshort : letters.length ≤ block.length
  · rw [word]
    change (if _ then _ else _) = if _ then _ else _
    rw [List.take_append_of_le_length hshort]
  rw [Nat.not_le] at hshort
  have hlonger : (word Prod.fst letters).find block = none := by
    cases hfind : (word Prod.fst letters).find block with
    | none => rfl
    | some found =>
        obtain ⟨-, hletters, hinitial⟩ := find_word_eq_some hfind
        have hle := hinitial.length_le
        rw [← hletters, List.length_map] at hshort
        omega
  rw [hlonger]
  cases hfind : (word Prod.fst letters).find (block ++ rest) with
  | none => rfl
  | some found =>
      exfalso
      obtain ⟨-, hletters, after, hafter⟩ := find_word_eq_some hfind
      have hlength : block.length < found.length := by
        rw [← hletters, List.length_map] at hshort
        exact hshort
      -- The word would reach from the block into the text.
      rcases List.append_eq_append_iff.mp hafter with ⟨more, hmore, -⟩ | ⟨more, rfl, hrest⟩
      · rw [hmore, List.length_append] at hlength
        omega
      cases more with
      | nil =>
          rw [List.append_nil] at hlength
          omega
      | cons item more =>
          have hitem : item.2 ≠ none := by
            refine hhead item ?_
            rw [hrest]
            rfl
          obtain ⟨first, hfirst⟩ := List.exists_mem_of_ne_nil _ hblock
          rcases hseparated [] _ after hafter.symm hletters with htext | ⟨-, hmask⟩
          · exact htext first (List.mem_append_left _ hfirst) (hnone first hfirst)
          · exact hitem (hmask item (List.mem_append_right _ List.mem_cons_self))

/-- Blocks stay blocks. -/
theorem replaceMarked_block {block : List (Marked κ)} (hmask : mask ≠ []) (hblock : block ≠ [])
    (hnone : ∀ item ∈ block, item.2 = none) :
    replaceMarked mask letters block ≠ [] ∧
      ∀ item ∈ replaceMarked mask letters block, item.2 = none := by
  have hmark : markMask mask ≠ [] := fun hnil => hmask (List.map_eq_nil_iff.mp hnil)
  refine ⟨fun hnil => hblock ?_, ?_⟩
  · rw [replaceMarked, Pattern.sub, Pattern.join_eq_nil_iff fun _ => hmark] at hnil
    rw [← @Pattern.join_covers_pieces _ _ (word Prod.fst letters) block, hnil, Pattern.join_nil]
  · rw [replaceMarked]
    clear hblock
    induction block using @Pattern.text_induction _ _ (word Prod.fst letters) with
    | nil => exact fun item hitem => absurd hitem List.not_mem_nil
    | item item rest hfind ih =>
        rw [List.forall_mem_cons] at hnone
        rw [Pattern.sub_of_find_eq_none hfind, List.forall_mem_cons]
        exact ⟨hnone.1, ih hnone.2⟩
    | found found rest hfind ih =>
        rw [List.forall_mem_append] at hnone
        rw [Pattern.sub_of_find hfind, List.forall_mem_append]
        refine ⟨fun item hitem => ?_, ih hnone.2⟩
        obtain ⟨letter, -, rfl⟩ := List.mem_map.mp hitem
        rfl

/-- Where the occurrences of a word that are left do not overlap, the word is replaced
wherever it is left, and nothing else is. -/
theorem Laid.replaceMarked (hlaid : Laid text gone position marked) (hletters : letters ≠ [])
    (hmask : mask ≠ []) (hseparated : Separated mask letters marked)
    (hapart : ∀ first second, Fresh text letters gone first → Fresh text letters gone second →
      first < second → first + letters.length ≤ second)
    (hbehind : ∀ first, Fresh text letters gone first → first < position →
      first + letters.length ≤ position) :
    Laid text (GoneAfter text letters gone) position (replaceMarked mask letters marked) := by
  have hpos := List.length_pos_iff.mpr hletters
  have hmark : markMask mask ≠ [] := fun hnil => hmask (List.map_eq_nil_iff.mp hnil)
  have hmasked : ∀ item ∈ markMask mask, item.2 = none := by
    intro item hitem
    obtain ⟨letter, -, rfl⟩ := List.mem_map.mp hitem
    rfl
  induction hleft : text.length - position using Nat.strongRecOn
    generalizing position marked with
  | ind length ih =>
      by_cases hfresh : Fresh text letters gone position
      · obtain ⟨rest, rfl, hrest⟩ := hlaid.of_present hfresh.1 hfresh.2
        have hle := hrest.position_le
        have hsub : Masking.replaceMarked mask letters (mark position letters ++ rest) =
            markMask mask ++ Masking.replaceMarked mask letters rest :=
          Pattern.sub_of_find (find_word_mark hletters rest)
        rw [hsub]
        refine append_block (ih _ ?_ hrest hseparated.of_append ?_ rfl) hmark
          hmasked (Nat.lt_add_of_pos_right hpos) ?_
        · omega
        · intro first hfirst hlt
          rcases Nat.lt_trichotomy first position with hbefore | rfl | hafter
          · exact Nat.le_trans (hbehind first hfirst hbefore) (Nat.le_add_right _ _)
          · exact Nat.le_refl _
          · have hle := hapart position first hfresh hfirst hafter
            omega
        · exact fun index hle hlt => .inr ⟨position, hfresh, hle, hlt⟩
      cases hlaid with
      | done => exact .done
      | @keep _ letter rest hletter hkept hrest =>
          have hle := hrest.position_le
          have hfind : (word Prod.fst letters).find ((letter, some position) :: rest) = none := by
            cases hfind : (word Prod.fst letters).find ((letter, some position) :: rest) with
            | none => rfl
            | some found =>
                exfalso
                obtain ⟨-, hfound, after, hafter⟩ := find_word_eq_some hfind
                have hlaid := Laid.keep hletter hkept hrest
                rcases hseparated [] found after hafter.symm hfound with hall | ⟨-, hnone⟩
                · rw [← hafter] at hlaid
                  obtain ⟨hinitial, hthere⟩ := hlaid.of_original hall
                  rw [hfound] at hinitial
                  rw [← List.length_map Prod.fst, hfound] at hthere
                  exact hfresh ⟨hinitial, hthere⟩
                · cases found with
                  | nil => exact hletters hfound.symm
                  | cons item found =>
                      cases hafter
                      cases hnone _ List.mem_cons_self
          rw [Masking.replaceMarked, Pattern.sub_of_find_eq_none hfind]
          have hstep : ∀ first, Fresh text letters gone first → first < position + 1 →
              first + letters.length ≤ position := by
            intro first hfirst hlt
            rcases Nat.eq_or_lt_of_le (Nat.le_of_lt_succ hlt) with rfl | hlt
            · exact absurd hfirst hfresh
            · exact hbehind first hfirst hlt
          refine .keep hletter ?_ (ih _ ?_ hrest ?_ ?_ rfl)
          · rintro (hgone | ⟨first, hfirst, hle, hlt⟩)
            · exact hkept hgone
            · have hend := hstep first hfirst (Nat.lt_succ_of_le hle)
              omega
          · omega
          · exact @Separated.of_append _ letters mask [(letter, some position)] rest hseparated
          · exact fun first hfirst hlt => Nat.le_succ_of_le (hstep first hfirst hlt)
      | @block _ next block rest hblock hnone hlt hgone hrest hhead =>
          have hle := hrest.position_le
          have hsub : Masking.replaceMarked mask letters (block ++ rest) =
              Masking.replaceMarked mask letters block ++
                Masking.replaceMarked mask letters rest := by
            refine Pattern.sub_append block fun before after hsplit hafter => ?_
            subst hsplit
            rw [List.append_assoc] at hseparated
            exact find_word_block hseparated.of_append hafter
              (List.forall_mem_append.mp hnone).2 hhead
          obtain ⟨hblock', hnone'⟩ := @replaceMarked_block _ _ letters mask _ hmask hblock hnone
          rw [hsub]
          refine append_block (ih _ ?_ hrest hseparated.of_append ?_ rfl) hblock' hnone' hlt
            fun index hle hindex => .inl (hgone index hle hindex)
          · omega
          · intro first hfirst hfirstlt
            rcases Nat.lt_or_ge first position with hbefore | hafter
            · have hend := hbehind first hfirst hbefore
              omega
            · exact absurd (hgone first hafter hfirstlt)
                (hfirst.2 first (Nat.le_refl _) (Nat.lt_add_of_pos_right hpos))

end Step

/-! ## All words -/

section Words

variable {text letters mask : List κ} {words todo : List (List κ)} {position index length : Nat}

/-- What begins at the position is part of an occurrence of one of the words. -/
def Inside (text : List κ) (words : List (List κ)) (position length : Nat) : Prop :=
  ∃ other ∈ words, ∃ start, other <+: text.drop start ∧ start ≤ position ∧
    position + length ≤ start + other.length

/-- The word stands there, and not inside an occurrence of an earlier word. -/
def Live (text : List κ) (earlier : List (List κ)) (letters : List κ) (position : Nat) : Prop :=
  letters <+: text.drop position ∧ ¬ Inside text earlier position letters.length

/-- Two occurrences that overlap are the same one, where neither is inside an occurrence of an
earlier word. -/
def Apart (text : List κ) (words : List (List κ)) : Prop :=
  ∀ before first after before' second after',
    words = before ++ first :: after → words = before' ++ second :: after' →
    ∀ position position', Live text before first position → Live text before' second position' →
      position < position' + second.length → position' < position + first.length →
      first = second ∧ position = position'

/-- The position belongs to an occurrence that is not inside one of an earlier word. -/
def Gone (text : List κ) (words : List (List κ)) (index : Nat) : Prop :=
  ∃ before letters after position, words = before ++ letters :: after ∧
    Live text before letters position ∧ position ≤ index ∧ index < position + letters.length

omit [DecidableEq κ] in
/-- What is inside an occurrence is inside one that is not inside one of an earlier word. -/
theorem Inside.live (hinside : Inside text words position length) :
    ∃ before letters after start, words = before ++ letters :: after ∧
      Live text before letters start ∧ start ≤ position ∧
        position + length ≤ start + letters.length := by
  induction words using List.reverseRecOn generalizing position length with
  | nil =>
      obtain ⟨other, hmem, -⟩ := hinside
      cases hmem
  | append_singleton words last ih =>
      have hearlier : ∀ {position length}, Inside text words position length →
          ∃ before letters after start, words ++ [last] = before ++ letters :: after ∧
            Live text before letters start ∧ start ≤ position ∧
              position + length ≤ start + letters.length := by
        intro position length hinside
        obtain ⟨before, letters, after, start, hwords, hlive⟩ := ih hinside
        refine ⟨before, letters, after ++ [last], start, ?_, hlive⟩
        rw [hwords, List.append_assoc, List.cons_append]
      obtain ⟨other, hmem, start, hstands, hle, hend⟩ := hinside
      rcases List.mem_append.mp hmem with hmem | hmem
      · exact hearlier ⟨other, hmem, start, hstands, hle, hend⟩
      rw [List.mem_singleton] at hmem
      subst hmem
      by_cases hinside : Inside text words start other.length
      · obtain ⟨before, letters, after, start', hwords, hlive, hle', hend'⟩ := hearlier hinside
        exact ⟨before, letters, after, start', hwords, hlive, by omega, by omega⟩
      · exact ⟨words, other, [], start, rfl, ⟨hstands, hinside⟩, hle, hend⟩

omit [DecidableEq κ] in
/-- Each position of an occurrence is gone in the end. -/
theorem gone_of_inside (hinside : Inside text words position length) (hle : position ≤ index)
    (hlt : index < position + length) : Gone text words index := by
  obtain ⟨before, letters, after, start, hwords, hlive, hle', hend⟩ := hinside.live
  exact ⟨before, letters, after, start, hwords, hlive, by omega, by omega⟩

omit [DecidableEq κ] in
theorem inside_of_mem (hmem : letters ∈ words) (hstands : letters <+: text.drop position) :
    Inside text words position letters.length :=
  ⟨letters, hmem, position, hstands, Nat.le_refl _, Nat.le_refl _⟩

omit [DecidableEq κ] in
/-- When a word comes up, it is left exactly where it is not inside an occurrence of an
earlier one. -/
theorem fresh_iff_live (hapart : Apart text (words ++ letters :: todo)) (hletters : letters ≠ []) :
    Fresh text letters (Gone text words) position ↔ Live text words letters position := by
  have hpos := List.length_pos_iff.mpr hletters
  constructor
  · intro hfresh
    refine ⟨hfresh.1, fun hinside => ?_⟩
    refine hfresh.2 position (Nat.le_refl _) (Nat.lt_add_of_pos_right hpos) ?_
    exact gone_of_inside hinside (Nat.le_refl _) (Nat.lt_add_of_pos_right hpos)
  · intro hlive
    refine ⟨hlive.1, fun index hle hlt hgone => ?_⟩
    obtain ⟨before, other, after, start, hwords, hother, hle', hlt'⟩ := hgone
    have hsplit : words ++ letters :: todo = before ++ other :: (after ++ letters :: todo) := by
      rw [hwords, List.append_assoc, List.cons_append]
    obtain ⟨rfl, rfl⟩ := hapart _ _ _ _ _ _ rfl hsplit _ _ hlive hother (by omega) (by omega)
    refine hlive.2 (inside_of_mem ?_ hlive.1)
    rw [hwords]
    exact List.mem_append_right _ List.mem_cons_self

omit [DecidableEq κ] in
theorem gone_append_singleton (hapart : Apart text (words ++ letters :: todo))
    (hletters : letters ≠ []) :
    Gone text (words ++ [letters]) = GoneAfter text letters (Gone text words) := by
  funext index
  refine propext ⟨?_, ?_⟩
  · rintro ⟨before, other, after, position, hwords, hlive, hle, hlt⟩
    rcases Segments.marker_concat hwords with ⟨rfl, rfl, -⟩ | ⟨after, rfl, -⟩
    · exact .inr ⟨position, (fresh_iff_live hapart hletters).mpr hlive, hle, hlt⟩
    · exact .inl ⟨before, other, after, position, rfl, hlive, hle, hlt⟩
  · rintro (⟨before, other, after, position, rfl, hlive, hle, hlt⟩ | ⟨position, hfresh, hle, hlt⟩)
    · exact ⟨before, other, after ++ [letters], position,
        by rw [List.append_assoc, List.cons_append], hlive, hle, hlt⟩
    · exact ⟨words, letters, [], position, rfl, (fresh_iff_live hapart hletters).mp hfresh,
        hle, hlt⟩

/-- The words are replaced wherever they stand, and nothing else is. -/
theorem laid_maskMarked (hapart : Apart text words) (hmask : mask ≠ [])
    (hwords : ∀ letters ∈ words, letters ≠ [] ∧ StaysOut letters mask) :
    Laid text (Gone text words) 0 (maskMarked mask words (mark 0 text)) ∧
      ∀ letters, letters ≠ [] → StaysOut letters mask →
        Separated mask letters (maskMarked mask words (mark 0 text)) := by
  -- The words behind the ones that are replaced already are split off.
  suffices hdone : ∀ todo done, words = done ++ todo →
      Laid text (Gone text done) 0 (maskMarked mask done (mark 0 text)) ∧
        ∀ letters, letters ≠ [] → StaysOut letters mask →
          Separated mask letters (maskMarked mask done (mark 0 text)) from
    hdone [] words (List.append_nil _).symm
  intro todo done hsplit
  induction done using List.reverseRecOn generalizing todo with
  | nil =>
      refine ⟨?_, fun letters _ _ => separated_mark 0 text⟩
      have hnone : Gone text [] = fun _ => False := by
        funext index
        refine propext ⟨?_, False.elim⟩
        rintro ⟨before, letters, after, position, hnil, -⟩
        exact List.append_ne_nil_of_right_ne_nil _ (List.cons_ne_nil _ _) hnil.symm
      rw [hnone]
      exact Laid.mark_drop 0 (Nat.zero_le _)
  | append_singleton done letters ih =>
      have hsplit' : words = done ++ letters :: todo := by
        rw [hsplit, List.append_assoc, List.singleton_append]
      obtain ⟨hlaid, hseparated⟩ := ih _ hsplit'
      rw [hsplit'] at hapart
      obtain ⟨hletters, hstays⟩ := hwords letters
        (by rw [hsplit']; exact List.mem_append_right _ List.mem_cons_self)
      rw [maskMarked_append_singleton, gone_append_singleton hapart hletters]
      refine ⟨?_, fun other hother hstays' =>
        (hseparated other hother hstays').replaceMarked hother hmask hstays'⟩
      refine hlaid.replaceMarked hletters hmask (hseparated letters hletters hstays) ?_
        fun first _ hlt => absurd hlt (Nat.not_lt_zero _)
      intro first second hfirst hsecond hlt
      rw [fresh_iff_live hapart hletters] at hfirst hsecond
      rcases Nat.lt_or_ge second (first + letters.length) with hoverlap | hle
      · obtain ⟨-, hsame⟩ := hapart _ _ _ _ _ _ rfl rfl _ _ hfirst hsecond
          (Nat.lt_add_right _ hlt) hoverlap
        omega
      · exact hle

/-- A word that is found in the end is part of the mask, or nothing of it was replaced. -/
theorem infix_maskAll_cases (hapart : Apart text words) (hmask : mask ≠ [])
    (hwords : ∀ letters ∈ words, letters ≠ [] ∧ StaysOut letters mask) (hletters : letters ≠ [])
    (hstays : StaysOut letters mask) (hwithin : letters <:+: maskAll mask words text) :
    letters <:+: mask ∨ ∃ position, letters <+: text.drop position ∧
      ∀ index, position ≤ index → index < position + letters.length →
        ¬ Gone text words index := by
  obtain ⟨hlaid, hseparated⟩ := laid_maskMarked hapart hmask hwords
  have hmap := @map_maskMarked _ _ mask words (mark 0 text)
  rw [map_fst_mark] at hmap
  rw [← hmap] at hwithin
  obtain ⟨before, after, hsplit⟩ := hwithin
  obtain ⟨front, after', hmarked, hfront, rfl⟩ := List.map_eq_append_iff.mp hsplit.symm
  obtain ⟨before', part, rfl, rfl, rfl⟩ := List.map_eq_append_iff.mp hfront
  rcases hseparated _ hletters hstays before' part after' hmarked rfl with hall | ⟨hinside, -⟩
  · rw [hmarked] at hlaid
    have hpart : part ≠ [] := fun hnil => hletters (by rw [hnil]; rfl)
    obtain ⟨position, hrest⟩ := hlaid.of_append hpart hall
    obtain ⟨hinitial, hthere⟩ := hrest.of_original hall
    refine .inr ⟨position, hinitial, ?_⟩
    rw [List.length_map]
    exact hthere
  · exact .inl hinside

/-! ## Words that are apart in every text -/

section Apart

variable {first second : List κ} {before after before' after' : List (List κ)}
  {position' : Nat}

omit [DecidableEq κ] in
/-- Where words do not overlap, one is inside the other. -/
theorem inside_or_inside (hfirst : first <+: text.drop position)
    (hsecond : second <+: text.drop position') (hoverlaps : ¬ Overlaps first second)
    (hle : position ≤ position') (hlt : position' < position + first.length) :
    (second <:+: first ∧ position' + second.length ≤ position + first.length) ∨
      (first <:+: second ∧ position = position' ∧ first.length ≤ second.length) := by
  have hrest : first.drop (position' - position) <+: text.drop position' := by
    obtain ⟨behind, hbehind⟩ := hfirst
    have hdrop := congrArg (List.drop (position' - position)) hbehind
    rw [List.drop_drop, Nat.add_sub_cancel' hle,
      List.drop_append_of_le_length (by omega)] at hdrop
    exact ⟨behind, hdrop⟩
  have hlength := @List.length_drop _ (position' - position) first
  have hsuffix := List.drop_suffix (position' - position) first
  rcases List.prefix_or_prefix_of_prefix hsecond hrest with hinitial | hinitial
  · have hshort := hinitial.length_le
    exact .inl ⟨hinitial.isInfix.trans hsuffix.isInfix, by omega⟩
  by_cases hsame : position = position'
  · rw [hsame, Nat.sub_self, List.drop_zero] at hinitial
    exact .inr ⟨hinitial.isInfix, hsame, hinitial.length_le⟩
  by_cases hall : first.drop (position' - position) = second
  · rw [hall] at hsuffix hlength
    exact .inl ⟨hsuffix.isInfix, by omega⟩
  · refine absurd ⟨_, fun hnil => ?_, fun heq => ?_, hall, hsuffix, hinitial⟩ hoverlaps
    · rw [hnil, List.length_nil] at hlength
      omega
    · rw [heq] at hlength
      omega

omit [DecidableEq κ] in
/-- Where no word is part of a later one, an occurrence inside another one is inside an
occurrence of an earlier word, or the same. -/
theorem Live.eq_of_inside
    (hnested : words.Pairwise fun earlier later => earlier <:+: later → earlier = later)
    (hfirst : words = before ++ first :: after) (hsecond : words = before' ++ second :: after')
    (hlive : Live text before first position) (hlive' : Live text before' second position')
    (hwithin : first <:+: second) (hle : position' ≤ position)
    (hend : position + first.length ≤ position' + second.length) :
    first = second ∧ position = position' := by
  have hsame : first = second → first = second ∧ position = position' := by
    intro heq
    refine ⟨heq, Nat.le_antisymm ?_ hle⟩
    rw [heq] at hend
    omega
  rcases List.append_eq_append_iff.mp (hfirst.symm.trans hsecond) with
    ⟨middle, rfl, hmiddle⟩ | ⟨middle, rfl, hmiddle⟩
  · cases middle with
    | nil => exact hsame (List.cons.inj hmiddle).1
    | cons other middle =>
        -- The first word comes earlier.
        obtain ⟨rfl, rfl⟩ := List.cons.inj hmiddle
        rw [hfirst, List.pairwise_append, List.pairwise_cons] at hnested
        exact hsame (hnested.2.1.1 second (List.mem_append_right _ List.mem_cons_self) hwithin)
  · cases middle with
    | nil => exact hsame (List.cons.inj hmiddle).1.symm
    | cons other middle =>
        obtain ⟨rfl, rfl⟩ := List.cons.inj hmiddle
        exact absurd ⟨second, List.mem_append_right _ List.mem_cons_self, position', hlive'.1,
          hle, hend⟩ hlive.2

omit [DecidableEq κ] in
/-- Words that do not overlap, and of which none is part of a later one, are apart. -/
theorem apart_of_not_overlaps
    (hoverlaps : ∀ first ∈ words, ∀ second ∈ words, ¬ Overlaps first second)
    (hnested : words.Pairwise fun earlier later => earlier <:+: later → earlier = later) :
    Apart text words := by
  intro before first after before' second after' hfirst hsecond position position' hlive hlive'
    hlt hlt'
  have hmem : first ∈ words := by
    rw [hfirst]
    exact List.mem_append_right _ List.mem_cons_self
  have hmem' : second ∈ words := by
    rw [hsecond]
    exact List.mem_append_right _ List.mem_cons_self
  rcases Nat.le_total position position' with hle | hle
  · rcases inside_or_inside hlive.1 hlive'.1 (hoverlaps _ hmem _ hmem') hle hlt' with
      ⟨hwithin, hend⟩ | ⟨hwithin, rfl, hlength⟩
    · obtain ⟨rfl, rfl⟩ := hlive'.eq_of_inside hnested hsecond hfirst hlive hwithin hle hend
      exact ⟨rfl, rfl⟩
    · exact hlive.eq_of_inside hnested hfirst hsecond hlive' hwithin (Nat.le_refl _)
        (Nat.add_le_add_left hlength _)
  · rcases inside_or_inside hlive'.1 hlive.1 (hoverlaps _ hmem' _ hmem) hle hlt with
      ⟨hwithin, hend⟩ | ⟨hwithin, rfl, hlength⟩
    · exact hlive.eq_of_inside hnested hfirst hsecond hlive' hwithin hle hend
    · obtain ⟨rfl, -⟩ := hlive'.eq_of_inside hnested hsecond hfirst hlive hwithin (Nat.le_refl _)
        (Nat.add_le_add_left hlength _)
      exact ⟨rfl, rfl⟩

end Apart

end Words

end ShuttleFlow.Masking
