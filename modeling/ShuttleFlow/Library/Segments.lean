import Mathlib.Data.List.Basic
import Mathlib.Data.List.Nodup
import Mathlib.Data.List.Perm.Subperm

/-! # Contiguous segments and the positions that split them

A segment of a list is a contiguous part of it. Removing everything between two
positions keeps each segment whole or removes it whole, as long as neither
position splits it.
-/

namespace ShuttleFlow.Segments

open scoped List

variable {α : Type*}

/-- `index` has members of this occurrence of the segment on both sides. -/
def Splits (items segment : List α) (index : Nat) : Prop :=
  ∃ before after, items = before ++ segment ++ after ∧
    before.length < index ∧ index < before.length + segment.length

/-- Splitting is decided by the occurrence of the segment. -/
theorem le_or_le_of_not_splits {before segment after : List α} {index : Nat}
    (hwhole : ¬Splits (before ++ segment ++ after) segment index) :
    index ≤ before.length ∨ before.length + segment.length ≤ index := by
  by_contra hinside
  obtain ⟨hlow, hhigh⟩ := not_or.mp hinside
  exact hwhole ⟨before, after, rfl, by omega, by omega⟩

/-- What lies before the first position and from the second one on. -/
def outside (items : List α) (first last : Nat) : List α :=
  items.take first ++ items.drop last

theorem outside_sublist {items : List α} {first last : Nat} (hle : first ≤ last) :
    outside items first last <+ items := by
  conv_rhs => rw [← List.take_append_drop first items]
  exact (List.Sublist.refl _).append (List.drop_sublist_drop_left items hle)

theorem mem_of_mem_outside {items : List α} {first last : Nat} {item : α}
    (hitem : item ∈ outside items first last) : item ∈ items := by
  rcases List.mem_append.mp hitem with hitem | hitem
  · exact List.mem_of_mem_take hitem
  · exact List.mem_of_mem_drop hitem

/-- What lies between the two positions. -/
def between (items : List α) (first last : Nat) : List α :=
  (items.take last).drop first

theorem take_between_drop (items : List α) {first last : Nat} (hle : first ≤ last) :
    items.take first ++ between items first last ++ items.drop last = items := by
  have htake : items.take first = (items.take last).take first := by
    rw [List.take_take, Nat.min_eq_left hle]
  rw [htake, between, List.take_append_drop, List.take_append_drop]

theorem mem_of_mem_between {items : List α} {first last : Nat} {item : α}
    (hitem : item ∈ between items first last) : item ∈ items :=
  List.mem_of_mem_take (List.mem_of_mem_drop hitem)

theorem mem_outside_iff {items : List α} {first last : Nat} (hnodup : items.Nodup)
    (hle : first ≤ last) {item : α} (hitem : item ∈ items) :
    item ∈ outside items first last ↔ item ∉ between items first last := by
  rw [← take_between_drop items hle, List.nodup_append, List.nodup_append] at hnodup
  obtain ⟨⟨-, -, hbefore⟩, -, hafter⟩ := hnodup
  rw [← take_between_drop items hle, List.mem_append, List.mem_append] at hitem
  rw [outside, List.mem_append]
  constructor
  · rintro (hkept | hkept) hgone
    · exact hbefore item hkept item hgone rfl
    · exact hafter item (List.mem_append_right _ hgone) item hkept rfl
  · intro hgone
    rcases hitem with (hitem | hitem) | hitem
    · exact .inl hitem
    · exact absurd hitem hgone
    · exact .inr hitem

/-- A segment that neither position splits stays whole or goes away. Items that
are not of the kind of its members may repeat. -/
theorem subset_outside {p : α → Bool} {items segment : List α} {first last : Nat}
    (hnodup : (items.filter p).Nodup) (hkind : ∀ item ∈ segment, p item = true)
    (hsegment : segment <:+: items) (hfirst : ¬Splits items segment first)
    (hlast : ¬Splits items segment last) {item : α} (hitem : item ∈ segment)
    (hkept : item ∈ outside items first last) : segment ⊆ outside items first last := by
  obtain ⟨before, after, rfl⟩ := hsegment
  have hcases := le_or_le_of_not_splits hfirst
  have hcases' := le_or_le_of_not_splits hlast
  simp only [List.filter_append, List.nodup_append, List.mem_append, List.mem_filter] at hnodup
  obtain ⟨⟨-, -, hbefore⟩, -, hafter⟩ := hnodup
  have hp := hkind item hitem
  intro other hother
  rcases List.mem_append.mp hkept with hkept | hkept
  · refine List.mem_append_left _ ?_
    rcases hcases with hle | hle
    · rw [List.append_assoc, List.take_append_of_le_length hle] at hkept
      exact absurd rfl (hbefore item ⟨List.mem_of_mem_take hkept, hp⟩ item ⟨hitem, hp⟩)
    · rw [List.take_append, List.take_of_length_le (by simpa using hle)]
      exact List.mem_append_left _ (List.mem_append_right _ hother)
  · refine List.mem_append_right _ ?_
    rcases hcases' with hle | hle
    · rw [List.append_assoc, List.drop_append_of_le_length hle]
      exact List.mem_append_right _ (List.mem_append_left _ hother)
    · rw [List.drop_append, List.drop_eq_nil_of_le (by simpa using hle),
        List.nil_append] at hkept
      exact absurd rfl (hafter item (.inr ⟨hitem, hp⟩) item ⟨List.mem_of_mem_drop hkept, hp⟩)

/-! ## Segments that survive in an interleaving -/

/-- `body` is a prefix of a list it is the kept part of, when nothing else
precedes one of its members. -/
theorem prefix_of_filter_eq {p : α → Bool} {items body : List α}
    (hfilter : items.filter p = body)
    (hclean : ∀ before item after, items = before ++ item :: after →
      (∃ other ∈ after, other ∈ body) → p item = true) : body <+: items := by
  induction body generalizing items with
  | nil => exact List.nil_prefix
  | cons head rest ih =>
      obtain ⟨skipped, tail, rfl, hskipped, hhead, rfl⟩ := List.filter_eq_cons_iff.mp hfilter
      have hnone : skipped = [] := by
        cases skipped with
        | nil => rfl
        | cons first skipped =>
            have hfirst := hclean [] first (skipped ++ head :: tail) (by simp) ⟨head, by simp⟩
            exact absurd hfirst (hskipped first List.mem_cons_self)
      subst hnone
      rw [List.nil_append, List.cons_prefix_cons]
      refine ⟨rfl, ih rfl fun before item after hsplit hafter => ?_⟩
      refine hclean (head :: before) item after (by simp [hsplit]) ?_
      obtain ⟨other, hother, hmem⟩ := hafter
      exact ⟨other, hother, List.mem_cons_of_mem _ hmem⟩

/-- A segment of `whole` that `items` has all of is a segment of `items` too,
when `items` is a sublist of `whole` interleaved with foreign items, and no
foreign item lies strictly inside the segment. -/
theorem infix_of_filter_sublist {p : α → Bool} {items whole segment : List α}
    (hnodup : whole.Nodup) (hsub : items.filter p <+ whole) (hsegment : segment <:+: whole)
    (hall : ∀ item ∈ segment, item ∈ items.filter p)
    (hclean : ∀ before item after, items = before ++ item :: after →
      (∃ other ∈ before, other ∈ segment) → (∃ other ∈ after, other ∈ segment) →
      p item = true) : segment <:+: items := by
  obtain ⟨front, back, rfl⟩ := hsegment
  obtain ⟨left, third, hsplit, hleft, hthird⟩ := List.sublist_append_iff.mp hsub
  obtain ⟨first, second, rfl, hfirst, hsecond⟩ := List.sublist_append_iff.mp hleft
  rw [List.nodup_append, List.nodup_append] at hnodup
  obtain ⟨⟨-, hsegment, hfront⟩, -, hback⟩ := hnodup
  -- the middle part has every item of the segment, since the outer parts cannot
  have hmiddle : segment ⊆ second := by
    intro item hitem
    have hmem := hall item hitem
    rw [hsplit, List.mem_append, List.mem_append] at hmem
    rcases hmem with (hmem | hmem) | hmem
    · exact absurd rfl (hfront item (hfirst.subset hmem) item hitem)
    · exact hmem
    · exact absurd rfl (hback item (List.mem_append_right _ hitem) item (hthird.subset hmem))
  obtain rfl : second = segment :=
    hsecond.eq_of_length_le (hsegment.subperm hmiddle).length_le
  obtain ⟨before, after, rfl, hbefore, hafter⟩ := List.filter_eq_append_iff.mp hsplit
  obtain ⟨outer, inner, rfl, houter, hinner⟩ := List.filter_eq_append_iff.mp hbefore
  cases second with
  | nil => exact List.nil_infix
  | cons start body =>
      obtain ⟨skipped, rest, rfl, -, hstart, hrest⟩ := List.filter_eq_cons_iff.mp hinner
      obtain ⟨trailing, rfl⟩ : body <+: rest := by
        refine prefix_of_filter_eq hrest fun front item back hfound hmember => ?_
        subst hfound
        obtain ⟨other, hother, hmem⟩ := hmember
        refine hclean (outer ++ (skipped ++ start :: front)) item (back ++ after) (by simp)
          ⟨start, by simp, by simp⟩ ⟨other, ?_, List.mem_cons_of_mem _ hmem⟩
        exact List.mem_append_left _ hother
      exact ⟨outer ++ skipped, trailing ++ after, by simp⟩

/-! ## Sublists of a list without duplicates -/

/-- A sublist is determined by its members. -/
theorem eq_of_sublist_of_mem {items first second : List α} (hnodup : items.Nodup)
    (hfirst : first <+ items) (hsecond : second <+ items)
    (hsame : ∀ item, item ∈ first ↔ item ∈ second) : first = second := by
  induction items generalizing first second with
  | nil => rw [List.sublist_nil.mp hfirst, List.sublist_nil.mp hsecond]
  | cons head rest ih =>
      rw [List.nodup_cons] at hnodup
      have hnot : ∀ {other : List α}, other <+ rest → head ∉ other :=
        fun hsub hmem => hnodup.1 (hsub.subset hmem)
      rcases List.sublist_cons_iff.mp hfirst with hskip | ⟨tail, rfl, htail⟩ <;>
        rcases List.sublist_cons_iff.mp hsecond with hskip' | ⟨tail', rfl, htail'⟩
      · exact ih hnodup.2 hskip hskip' hsame
      · exact absurd ((hsame head).mpr List.mem_cons_self) (hnot hskip)
      · exact absurd ((hsame head).mp List.mem_cons_self) (hnot hskip')
      · refine congrArg _ (ih hnodup.2 htail htail' fun item => ?_)
        have hitem := hsame item
        simp only [List.mem_cons] at hitem
        by_cases hhead : item = head
        · subst hhead
          exact iff_of_false (hnot htail) (hnot htail')
        · simpa [hhead] using hitem

/-- A marker that occurs once on either side separates the sublists. -/
theorem sublist_before_marker {marker : α} {first second before after : List α}
    (hbefore : marker ∉ before) (hafter : marker ∉ after)
    (hsub : first ++ marker :: second <+ before ++ marker :: after) : first <+ before := by
  obtain ⟨left, right, hsplit, hleft, hright⟩ := List.append_sublist_iff.mp hsub
  have hmem : marker ∈ right := hright.subset List.mem_cons_self
  rcases List.append_eq_append_iff.mp hsplit with ⟨extra, rfl, hrest⟩ | ⟨extra, rfl, -⟩
  · cases extra with
    | nil => simpa using hleft
    | cons head extra =>
        rw [List.cons_append, List.cons.injEq] at hrest
        exact absurd (hrest.2 ▸ List.mem_append_right _ hmem) hafter
  · exact hleft.trans (List.sublist_append_left _ _)

/-- A marker of two lists in a row is in the first of them or in the second. -/
theorem marker_cases {marker : α} {first second before after : List α}
    (hsplit : first ++ second = before ++ marker :: after) :
    (∃ rest, first = before ++ marker :: rest) ∨
      ∃ middle, before = first ++ middle ∧ second = middle ++ marker :: after := by
  rcases List.append_eq_append_iff.mp hsplit with ⟨middle, hbefore, hsecond⟩ | ⟨rest, hfirst, hrest⟩
  · exact .inr ⟨middle, hbefore, hsecond⟩
  · cases rest with
    | nil =>
        rw [List.append_nil] at hfirst
        rw [List.nil_append] at hrest
        exact .inr ⟨[], by rw [hfirst, List.append_nil], hrest.symm⟩
    | cons item rest =>
        rw [List.cons_append, List.cons.injEq] at hrest
        exact .inl ⟨rest, by rw [hfirst, ← hrest.1]⟩

/-- What follows the marker in the first list is followed by all of the second. -/
theorem marker_split {marker : α} {first second before after : List α}
    (hsplit : first ++ second = before ++ marker :: after) :
    (∃ rest, first = before ++ marker :: rest ∧ after = rest ++ second) ∨
      ∃ middle, before = first ++ middle ∧ second = middle ++ marker :: after := by
  refine (marker_cases hsplit).imp_left fun ⟨rest, hfirst⟩ => ⟨rest, hfirst, ?_⟩
  rw [hfirst, List.append_assoc, List.append_cancel_left_eq, List.cons_append,
    List.cons.injEq] at hsplit
  exact hsplit.2.symm

/-- A marker in lists one after another is in one of them. -/
theorem marker_flatMap {β : Type} {lists : β → List α} {marker : α} {items : List β}
    {before after : List α} (hsplit : items.flatMap lists = before ++ marker :: after) :
    ∃ earlier item later first last, items = earlier ++ item :: later ∧
      lists item = first ++ marker :: last ∧ before = earlier.flatMap lists ++ first ∧
      after = last ++ later.flatMap lists := by
  induction items generalizing before with
  | nil => simp at hsplit
  | cons item items ih =>
      rw [List.flatMap_cons] at hsplit
      rcases marker_split hsplit with ⟨last, hitem, hafter⟩ | ⟨middle, hbefore, hitems⟩
      · exact ⟨[], item, items, before, last, rfl, hitem, rfl, hafter⟩
      · obtain ⟨earlier, found, later, first, last, rfl, hfound, rfl, rfl⟩ := ih hitems
        refine ⟨item :: earlier, found, later, first, last, rfl, hfound, ?_, rfl⟩
        rw [hbefore, List.flatMap_cons, List.append_assoc]

/-- A marker of a list with one more item is that item, or was there before. -/
theorem marker_concat {marker last : α} {items before after : List α}
    (hsplit : items ++ [last] = before ++ marker :: after) :
    (before = items ∧ marker = last ∧ after = []) ∨
      ∃ rest, items = before ++ marker :: rest ∧ after = rest ++ [last] := by
  rcases marker_split hsplit with hearlier | ⟨middle, rfl, hlast⟩
  · exact .inr hearlier
  · cases middle with
    | nil =>
        rw [List.nil_append, List.cons.injEq] at hlast
        exact .inl ⟨List.append_nil _, hlast.1.symm, hlast.2.symm⟩
    | cons item middle => simp at hlast

/-- At most one item that counts comes after the marker, when that is so in the first list
together with the second, and in the second. -/
theorem countP_later_le {old new : List α} {marker : α} {holds : α → Bool}
    (hold : ∀ before after, old = before ++ marker :: after →
      after.countP holds + new.countP holds ≤ 1)
    (hnew : new.countP holds ≤ 1) {before after : List α}
    (hsplit : old ++ new = before ++ marker :: after) : after.countP holds ≤ 1 := by
  rcases marker_split hsplit with ⟨rest, holder, rfl⟩ | ⟨middle, -, rfl⟩
  · rw [List.countP_append]
    exact hold before rest holder
  · have hsub : after <+ middle ++ marker :: after :=
      (List.sublist_cons_self _ _).trans (List.sublist_append_right _ _)
    exact Nat.le_trans hsub.countP_le hnew

/-- The first item with a property splits a list in one way. -/
theorem first_inj (property : α → Prop) {item item' : α} {before before' after after' : List α}
    (hsplit : before ++ item :: after = before' ++ item' :: after') (hitem : property item)
    (hitem' : property item') (hbefore : ∀ other ∈ before, ¬property other)
    (hbefore' : ∀ other ∈ before', ¬property other) :
    before = before' ∧ item = item' ∧ after = after' := by
  rcases marker_split hsplit with ⟨rest, rfl, -⟩ | ⟨middle, rfl, hrest⟩
  · exact absurd hitem' (hbefore item' (by simp))
  · cases middle with
    | nil =>
        obtain ⟨hsame, hafter⟩ := List.cons.inj hrest
        exact ⟨(List.append_nil _).symm, hsame, hafter⟩
    | cons first middle =>
        obtain ⟨rfl, -⟩ := List.cons.inj hrest
        exact absurd hitem (hbefore' item (by simp))

/-- The only item with a property splits a list in one way. -/
theorem only_inj (property : α → Prop) {item item' : α} {before before' after after' : List α}
    (hsplit : before ++ item :: after = before' ++ item' :: after') (hitem : property item)
    (hbefore' : ∀ other ∈ before', ¬property other)
    (hafter' : ∀ other ∈ after', ¬property other) :
    before = before' ∧ item = item' ∧ after = after' := by
  have hitem' : property item' := by
    have hmem : item ∈ before' ++ item' :: after' := by
      rw [← hsplit]
      simp
    rcases List.mem_append.mp hmem with hmem | hmem
    · exact absurd hitem (hbefore' item hmem)
    · rcases List.mem_cons.mp hmem with rfl | hmem
      · exact hitem
      · exact absurd hitem (hafter' item hmem)
  rcases marker_split hsplit with ⟨rest, rfl, hrest⟩ | ⟨middle, rfl, hrest⟩
  · exact absurd hitem (hafter' item (by simp [hrest]))
  · cases middle with
    | nil =>
        obtain ⟨hsame, hafter⟩ := List.cons.inj hrest
        exact ⟨(List.append_nil _).symm, hsame, hafter⟩
    | cons first middle =>
        obtain ⟨rfl, -⟩ := List.cons.inj hrest
        exact absurd hitem (hbefore' item (by simp))

end ShuttleFlow.Segments
