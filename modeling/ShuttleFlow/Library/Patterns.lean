import Mathlib.Data.List.Basic

/-! # Patterns and their replacement

A text is searched from its beginning for parts that match a pattern. The search goes on
behind each match, so matches do not overlap.
-/

namespace ShuttleFlow

/-- What is looked for at the beginning of a text. -/
structure Pattern (α τ : Type) where
  find : List α → Option τ
  /-- The part of the text that matches. -/
  covers : τ → List α
  covers_ne_nil : ∀ {text found}, find text = some found → covers found ≠ []
  covers_initial : ∀ {text found}, find text = some found → covers found <+: text

namespace Pattern

variable {α τ : Type} {pattern : Pattern α τ} {f : τ → List α}

/-- The matches of a text, and the items between them. The first `skip` items are covered
by a match already. -/
def piecesFrom (pattern : Pattern α τ) : Nat → List α → List (α ⊕ τ)
  | _, [] => []
  | skip + 1, _ :: rest => pattern.piecesFrom skip rest
  | 0, item :: rest =>
      match pattern.find (item :: rest) with
      | none => .inl item :: pattern.piecesFrom 0 rest
      | some found => .inr found :: pattern.piecesFrom ((pattern.covers found).length - 1) rest

def pieces (pattern : Pattern α τ) (text : List α) : List (α ⊕ τ) :=
  pattern.piecesFrom 0 text

/-- Pieces put together, with something in the place of each match. -/
def join (f : τ → List α) (pieces : List (α ⊕ τ)) : List α :=
  pieces.flatMap (Sum.elim (fun item => [item]) f)

/-- The pattern whose matches are as long as it is said for each text. -/
def ofLength (matchLength : List α → Option Nat) : Pattern α (List α) where
  find text :=
    match matchLength text with
    | some length => if length = 0 ∨ text.length < length then none else some (text.take length)
    | none => none
  covers found := found
  covers_ne_nil := by
    intro text found hfind hnil
    split at hfind
    next length =>
      split at hfind
      next => cases hfind
      next hlength =>
        rw [not_or, Nat.not_lt] at hlength
        rw [← Option.some.inj hfind, List.take_eq_nil_iff] at hnil
        rcases hnil with hnil | rfl
        · exact hlength.1 hnil
        · exact hlength.1 (Nat.le_zero.mp hlength.2)
    next => cases hfind
  covers_initial := by
    intro text found hfind
    split at hfind
    next length =>
      split at hfind
      next => cases hfind
      next =>
        rw [← Option.some.inj hfind]
        exact List.take_prefix _ _
    next => cases hfind

theorem find_ofLength_eq_none {matchLength : List α → Option Nat} {text : List α}
    (hnone : matchLength text = none) : (ofLength matchLength).find text = none := by
  simp only [ofLength, hnone]

/-- Each match is replaced. -/
def sub (pattern : Pattern α τ) (f : τ → List α) (text : List α) : List α :=
  join f (pattern.pieces text)

@[simp] theorem join_nil : join f [] = [] := rfl

@[simp] theorem join_inl (item : α) (pieces : List (α ⊕ τ)) :
    join f (.inl item :: pieces) = item :: join f pieces := rfl

@[simp] theorem join_inr (found : τ) (pieces : List (α ⊕ τ)) :
    join f (.inr found :: pieces) = f found ++ join f pieces := rfl

theorem join_append (first second : List (α ⊕ τ)) :
    join f (first ++ second) = join f first ++ join f second :=
  List.flatMap_append

theorem join_map_inl (items : List α) : join f (items.map .inl) = items := by
  induction items with
  | nil => rfl
  | cons item items ih => rw [List.map_cons, join_inl, ih]

theorem piecesFrom_eq (skip : Nat) (text : List α) :
    pattern.piecesFrom skip text = pattern.pieces (text.drop skip) := by
  induction text generalizing skip with
  | nil => cases skip <;> rfl
  | cons item rest ih =>
      cases skip with
      | zero => rfl
      | succ skip => exact ih skip

@[simp] theorem pieces_nil : pattern.pieces [] = [] := rfl

theorem pieces_of_find_eq_none {item : α} {rest : List α}
    (hfind : pattern.find (item :: rest) = none) :
    pattern.pieces (item :: rest) = .inl item :: pattern.pieces rest := by
  rw [pieces, piecesFrom, hfind]
  rfl

/-- The search goes on behind a match. -/
theorem pieces_of_find {found : τ} {rest : List α}
    (hfind : pattern.find (pattern.covers found ++ rest) = some found) :
    pattern.pieces (pattern.covers found ++ rest) = .inr found :: pattern.pieces rest := by
  have hcovers := pattern.covers_ne_nil hfind
  cases hfirst : pattern.covers found with
  | nil => exact absurd hfirst hcovers
  | cons item covered =>
      rw [hfirst] at hfind
      rw [List.cons_append] at hfind ⊢
      rw [pieces, piecesFrom, hfind]
      change .inr found :: pattern.piecesFrom ((pattern.covers found).length - 1) _ = _
      rw [piecesFrom_eq, hfirst, List.length_cons, Nat.add_sub_cancel, List.drop_left]

theorem sub_of_find_eq_none {item : α} {rest : List α}
    (hfind : pattern.find (item :: rest) = none) :
    pattern.sub f (item :: rest) = item :: pattern.sub f rest := by
  rw [sub, pieces_of_find_eq_none hfind, join_inl, sub]

theorem sub_of_find {found : τ} {rest : List α}
    (hfind : pattern.find (pattern.covers found ++ rest) = some found) :
    pattern.sub f (pattern.covers found ++ rest) = f found ++ pattern.sub f rest := by
  rw [sub, pieces_of_find hfind, join_inr, sub]

/-- A text without matches stays in front of another. -/
theorem sub_append_of_find_eq_none (text : List α) {rest : List α}
    (hfind : ∀ before item after, text = before ++ item :: after →
      pattern.find (item :: after ++ rest) = none) :
    pattern.sub f (text ++ rest) = text ++ pattern.sub f rest := by
  induction text with
  | nil => rfl
  | cons item text ih =>
      refine (sub_of_find_eq_none (hfind [] item text rfl)).trans ?_
      refine congrArg (item :: ·) (ih fun before other after hsplit => ?_)
      exact hfind (item :: before) other after (by rw [hsplit, List.cons_append])

/-- Nothing changes where no match begins. -/
theorem sub_eq_self_of_find_eq_none {text : List α}
    (hfind : ∀ before item after, text = before ++ item :: after →
      pattern.find (item :: after) = none) : pattern.sub f text = text := by
  have happend := @sub_append_of_find_eq_none _ _ pattern f text [] fun before item after hsplit =>
    by rw [List.append_nil]; exact hfind before item after hsplit
  rw [List.append_nil] at happend
  rw [happend, sub, pieces_nil, join_nil, List.append_nil]

/-- A text is empty, or begins with an item at which no match begins, or with a match. -/
theorem text_induction {motive : List α → Prop} (nil : motive [])
    (item : ∀ item rest, pattern.find (item :: rest) = none → motive rest → motive (item :: rest))
    (found : ∀ found rest, pattern.find (pattern.covers found ++ rest) = some found →
      motive rest → motive (pattern.covers found ++ rest)) (text : List α) : motive text :=
  match text with
  | [] => nil
  | first :: rest =>
      match hfind : pattern.find (first :: rest) with
      | none => item first rest hfind (text_induction nil item found rest)
      | some covered => by
          obtain ⟨behind, hbehind⟩ := pattern.covers_initial hfind
          have hcovers := List.length_pos_iff.mpr (pattern.covers_ne_nil hfind)
          have hshort : behind.length < (first :: rest).length := by
            rw [← hbehind, List.length_append]
            omega
          rw [← hbehind] at hfind ⊢
          exact found covered behind hfind (text_induction nil item found behind)
  termination_by text.length
  decreasing_by
    · exact Nat.lt_succ_self _
    · exact hshort

/-- The pieces of a text make up the text. -/
theorem join_covers_pieces (text : List α) :
    join pattern.covers (pattern.pieces text) = text := by
  induction text using @text_induction _ _ pattern with
  | nil => rfl
  | item item rest hfind ih => rw [pieces_of_find_eq_none hfind, join_inl, ih]
  | found found rest hfind ih => rw [pieces_of_find hfind, join_inr, ih]

/-- Each match was found somewhere. -/
theorem exists_find_of_mem_pieces {text : List α} {found : τ}
    (hmem : .inr found ∈ pattern.pieces text) : ∃ rest, pattern.find rest = some found := by
  induction text using @text_induction _ _ pattern with
  | nil => cases hmem
  | item item rest hfind ih =>
      rw [pieces_of_find_eq_none hfind] at hmem
      cases hmem with
      | tail _ hmem => exact ih hmem
  | found first rest hfind ih =>
      rw [pieces_of_find hfind] at hmem
      cases hmem with
      | head => exact ⟨_, hfind⟩
      | tail _ hmem => exact ih hmem

/-- A match that is replaced by itself, and inside which no match begins. -/
def Inert (pattern : Pattern α τ) (f : τ → List α) (found : τ) : Prop :=
  f found = pattern.covers found ∧ ∀ before item after,
    pattern.covers found = before ++ item :: after → before ≠ [] →
      ∀ rest, pattern.find (item :: after ++ rest) = none

theorem sub_of_inert {item : α} {rest : List α} {found : τ}
    (hfind : pattern.find (item :: rest) = some found) (hinert : pattern.Inert f found) :
    pattern.sub f (item :: rest) = item :: pattern.sub f rest := by
  obtain ⟨behind, hbehind⟩ := pattern.covers_initial hfind
  cases hcovers : pattern.covers found with
  | nil => exact absurd hcovers (pattern.covers_ne_nil hfind)
  | cons first covered =>
      have hsub := @sub_of_find _ _ pattern f found behind (hbehind.symm ▸ hfind)
      rw [hbehind, hinert.1, hcovers, List.cons_append] at hsub
      rw [hcovers, List.cons_append, List.cons.injEq] at hbehind
      obtain ⟨rfl, rfl⟩ := hbehind
      rw [hsub, sub_append_of_find_eq_none covered fun before item after hsplit =>
        hinert.2 (first :: before) item after (by rw [hcovers, hsplit, List.cons_append])
          (List.cons_ne_nil _ _) behind]

/-- Pieces that are put together and searched again are found again, when the matches among
them delimit themselves and what begins at any other item is inert. -/
theorem sub_join_covers (pieces : List (α ⊕ τ))
    (hfound : ∀ found, .inr found ∈ pieces →
      ∀ rest, pattern.find (pattern.covers found ++ rest) = some found)
    (hitems : ∀ before item after, pieces = before ++ .inl item :: after →
      ∀ found, pattern.find (item :: join pattern.covers after) = some found →
        pattern.Inert f found) :
    pattern.sub f (join pattern.covers pieces) = join f pieces := by
  induction pieces with
  | nil => rfl
  | cons piece pieces ih =>
      have hrest := ih (fun found hmem => hfound found (List.mem_cons_of_mem _ hmem))
        fun before item after hsplit => hitems (piece :: before) item after
          (by rw [hsplit, List.cons_append])
      cases piece with
      | inl item =>
          rw [join_inl, join_inl, ← hrest]
          cases hfind : pattern.find (item :: join pattern.covers pieces) with
          | none => exact sub_of_find_eq_none hfind
          | some found => exact sub_of_inert hfind (hitems [] item pieces rfl found hfind)
      | inr found =>
          rw [join_inr, join_inr, ← hrest]
          exact sub_of_find (hfound found List.mem_cons_self _)

/-! ## Replaced texts -/

theorem join_eq_nil_iff (hf : ∀ found, f found ≠ []) {pieces : List (α ⊕ τ)} :
    join f pieces = [] ↔ pieces = [] := by
  cases pieces with
  | nil => exact iff_of_true rfl rfl
  | cons piece pieces =>
      refine iff_of_false (fun hjoin => ?_) (List.cons_ne_nil _ _)
      cases piece with
      | inl item => cases hjoin
      | inr found => exact hf found (List.append_eq_nil_iff.mp hjoin).1

/-- A part of a text with replacements consists of items that stood side by side before, or
it reaches into a replacement. -/
theorem infix_join_cases (hf : ∀ found, f found ≠ []) {pieces : List (α ⊕ τ)}
    {before part after : List α} (hpart : part ≠ [])
    (hjoin : join f pieces = before ++ part ++ after) :
    (∃ first last, pieces = first ++ part.map .inl ++ last ∧ join f first = before) ∨
      ∃ first found last, pieces = first ++ .inr found :: last ∧
        before.length < (join f first).length + (f found).length ∧
        (join f first).length < before.length + part.length := by
  induction pieces generalizing before part with
  | nil =>
      rw [join_nil, eq_comm, List.append_eq_nil_iff, List.append_eq_nil_iff] at hjoin
      exact absurd hjoin.1.2 hpart
  | cons piece pieces ih =>
      cases piece with
      | inl item =>
          rw [join_inl] at hjoin
          cases before with
          | cons head before =>
              rw [List.cons_append, List.cons_append, List.cons.injEq] at hjoin
              rcases ih hpart hjoin.2 with
                ⟨first, last, hpieces, hfirst⟩ | ⟨first, found, last, hpieces, hleft, hright⟩
              · exact .inl ⟨.inl item :: first, last, by rw [hpieces]; rfl,
                  by rw [join_inl, hfirst, hjoin.1]⟩
              · refine .inr ⟨.inl item :: first, found, last, by rw [hpieces]; rfl, ?_, ?_⟩
                · rw [join_inl, List.length_cons, List.length_cons]
                  omega
                · rw [join_inl, List.length_cons, List.length_cons]
                  omega
          | nil =>
              cases part with
              | nil => exact absurd rfl hpart
              | cons head part =>
                  rw [List.nil_append, List.cons_append, List.cons.injEq] at hjoin
                  obtain ⟨rfl, hjoin⟩ := hjoin
                  by_cases hmore : part = []
                  · exact .inl ⟨[], pieces, by rw [hmore]; rfl, rfl⟩
                  rcases @ih [] part hmore hjoin with
                    ⟨first, last, hpieces, hfirst⟩ | ⟨first, found, last, hpieces, hleft, hright⟩
                  · rw [join_eq_nil_iff hf] at hfirst
                    exact .inl ⟨[], last, by rw [hpieces, hfirst]; rfl, rfl⟩
                  · refine .inr ⟨.inl item :: first, found, last, by rw [hpieces]; rfl, ?_, ?_⟩
                    · exact Nat.lt_of_lt_of_le (List.length_pos_iff.mpr (hf found))
                        (Nat.le_add_left _ _)
                    · rw [join_inl, List.length_cons, List.length_cons]
                      rw [List.length_nil] at hright
                      omega
      | inr found =>
          by_cases hshort : before.length < (f found).length
          · refine .inr ⟨[], found, pieces, rfl, ?_, ?_⟩
            · rw [join_nil, List.length_nil]
              omega
            · rw [join_nil, List.length_nil]
              have hpos := List.length_pos_iff.mpr hpart
              omega
          · obtain ⟨middle, hbefore, hrest⟩ : ∃ middle, before = f found ++ middle ∧
                join f pieces = middle ++ part ++ after := by
              rw [join_inr, List.append_assoc] at hjoin
              rcases List.append_eq_append_iff.mp hjoin with
                ⟨middle, hbefore, hrest⟩ | ⟨middle, hfound, hrest⟩
              · exact ⟨middle, hbefore, by rw [hrest, List.append_assoc]⟩
              · rw [hfound, List.length_append] at hshort
                have hmiddle : middle = [] := List.length_eq_zero_iff.mp (by omega)
                rw [hmiddle, List.append_nil] at hfound
                rw [hmiddle, List.nil_append] at hrest
                exact ⟨[], by rw [hfound, List.append_nil], hrest.symm⟩
            rcases ih hpart hrest with
              ⟨first, last, hpieces, hfirst⟩ | ⟨first, other, last, hpieces, hleft, hright⟩
            · exact .inl ⟨.inr found :: first, last, by rw [hpieces]; rfl,
                by rw [join_inr, hfirst, hbefore]⟩
            · refine .inr ⟨.inr found :: first, other, last, by rw [hpieces]; rfl, ?_, ?_⟩
              · rw [join_inr, hbefore, List.length_append, List.length_append]
                omega
              · rw [join_inr, hbefore, List.length_append, List.length_append]
                omega

/-- Two texts are searched separately where no match reaches from one into the other. -/
theorem sub_append (first : List α) {second : List α}
    (hapart : ∀ before after, first = before ++ after → after ≠ [] →
      pattern.find (after ++ second) = pattern.find after) :
    pattern.sub f (first ++ second) = pattern.sub f first ++ pattern.sub f second := by
  induction first using @text_induction _ _ pattern with
  | nil => rfl
  | item item rest hfind ih =>
      have hfind' : pattern.find (item :: (rest ++ second)) = none :=
        (hapart [] (item :: rest) rfl (List.cons_ne_nil _ _)).trans hfind
      rw [List.cons_append, sub_of_find_eq_none hfind', sub_of_find_eq_none hfind,
        ih fun before after hsplit => hapart (item :: before) after (by rw [hsplit]; rfl),
        List.cons_append]
  | found found rest hfind ih =>
      have hne : pattern.covers found ++ rest ≠ [] := fun hnil =>
        pattern.covers_ne_nil hfind (List.append_eq_nil_iff.mp hnil).1
      have hfind' : pattern.find (pattern.covers found ++ (rest ++ second)) = some found := by
        rw [← List.append_assoc]
        exact (hapart [] _ rfl hne).trans hfind
      rw [List.append_assoc, sub_of_find hfind', sub_of_find hfind, List.append_assoc,
        ih fun before after hsplit => hapart (pattern.covers found ++ before) after
          (by rw [hsplit, List.append_assoc])]

end Pattern

end ShuttleFlow
