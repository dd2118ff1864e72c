import Mathlib.Data.List.Sort
import Mathlib.Data.List.Nodup

/-! # Pages of sorted lists

Lists that are sorted by a key, with different keys for different items.
-/

namespace ShuttleFlow

open scoped List

variable {α κ : Type} [LinearOrder κ] {key : α → κ} {items others : List α}

/-- Sorted by a key, without two items of one key. -/
def KeySorted (key : α → κ) (items : List α) : Prop :=
  items.Pairwise fun item other => key item < key other

namespace KeySorted

theorem filter (hsorted : KeySorted key items) (keep : α → Bool) :
    KeySorted key (items.filter keep) :=
  List.Pairwise.filter keep hsorted

/-- There is one way to sort. -/
theorem eq_of_perm (hsorted : KeySorted key items) (hothers : KeySorted key others)
    (hperm : items ~ others) : items = others :=
  List.Perm.eq_of_pairwise (fun _ _ _ _ hlt hgt => absurd hgt (lt_asymm hlt)) hsorted hothers hperm

/-- What is kept of a list is kept of its first page, where fewer keys than the page
has places come before each item that is kept. -/
theorem filter_take (hsorted : KeySorted key items) {keep : α → Bool} {limit : Nat}
    (hfew : ∀ item ∈ items, keep item →
      (items.countP fun other => decide (key other < key item)) < limit) :
    (items.take limit).filter keep = items.filter keep := by
  have hsplit := List.take_append_drop limit items
  have hrest : (items.drop limit).filter keep = [] := by
    refine List.filter_eq_nil_iff.mpr fun item hitem hkeep => ?_
    have hcount := hfew item (List.mem_of_mem_drop hitem) hkeep
    rw [← hsplit, List.countP_append] at hcount
    have hbefore : ((items.take limit).countP fun other => decide (key other < key item)) =
        (items.take limit).length := by
      refine List.countP_eq_length.mpr fun other hother => decide_eq_true ?_
      rw [KeySorted, ← hsplit] at hsorted
      exact (List.pairwise_append.mp hsorted).2.2 other hother item hitem
    have hlong : limit < items.length := by
      have hpos := List.length_pos_of_mem hitem
      rw [List.length_drop] at hpos
      omega
    rw [hbefore, List.length_take, Nat.min_eq_left (Nat.le_of_lt hlong)] at hcount
    omega
  calc (items.take limit).filter keep
      = (items.take limit).filter keep ++ (items.drop limit).filter keep := by
        rw [hrest, List.append_nil]
    _ = items.filter keep := by rw [← List.filter_append, hsplit]

end KeySorted

/-- Sorting by different keys. -/
theorem keySorted_insertionSort (hnodup : (items.map key).Nodup) :
    KeySorted key (items.insertionSort fun item other => key item ≤ key other) := by
  have : Std.Total fun item other : α => key item ≤ key other := ⟨fun _ _ => le_total _ _⟩
  have : IsTrans α fun item other : α => key item ≤ key other := ⟨fun _ _ _ => le_trans⟩
  have hsorted := List.pairwise_insertionSort (fun item other => key item ≤ key other) items
  have hdistinct : (items.insertionSort fun item other => key item ≤ key other).Pairwise
      fun item other => key item ≠ key other :=
    List.pairwise_map.mp (((List.perm_insertionSort _ _).map key).nodup_iff.mpr hnodup)
  exact (hsorted.and hdistinct).imp fun hboth => lt_of_le_of_ne hboth.1 hboth.2

end ShuttleFlow

/-! ## Pages that name the next item

A page ends with the name of the item behind it. The next page starts there, in a list from which
items may have gone and into which they may have come back, but which keeps its order. Where the
item is not in the list, the page starts at the beginning.
-/

namespace ShuttleFlow

namespace CursorPages

open scoped List

variable {α : Type} [DecidableEq α]

/-- The items from the one that is named on. -/
def startingAt (items : List α) (cursor : Option α) : List α :=
  match cursor with
  | none => items
  | some item => if item ∈ items then items.dropWhile (· ≠ item) else items

/-- The items of a page, and the one behind them. -/
def page (limit : Nat) (items : List α) (cursor : Option α) : List α × Option α :=
  ((startingAt items cursor).take limit, (startingAt items cursor)[limit]?)

/-- The pages that follow each other, each in the list as it is then. -/
def pages (limit : Nat) (lists : Nat → List α) : Nat → Option (List α × Option α)
  | 0 => some (page limit (lists 0) none)
  | count + 1 => ((pages limit lists count).bind Prod.snd).map fun item =>
      page limit (lists (count + 1)) (some item)

/-- The items of the first pages. -/
def delivered (limit : Nat) (lists : Nat → List α) (count : Nat) : List α :=
  (List.range count).flatMap fun number => ((pages limit lists number).map Prod.fst).getD []

theorem delivered_succ (limit : Nat) (lists : Nat → List α) (count : Nat) :
    delivered limit lists (count + 1) =
      delivered limit lists count ++ ((pages limit lists count).map Prod.fst).getD [] := by
  rw [delivered, List.range_succ, List.flatMap_append, List.flatMap_singleton]
  rfl

/-- Each item that is named is in the list when it is looked for. -/
def Found (limit : Nat) (lists : Nat → List α) : Prop :=
  ∀ count items item, pages limit lists count = some (items, some item) → item ∈ lists (count + 1)

/-! ## Lists in one order -/

theorem dropWhile_ne_append {front behind : List α} {item : α} (hfront : item ∉ front) :
    (front ++ item :: behind).dropWhile (· ≠ item) = item :: behind := by
  induction front with
  | nil => simp
  | cons first rest ih =>
      rw [List.mem_cons, not_or] at hfront
      rw [List.cons_append, List.dropWhile_cons_of_pos (by simpa using Ne.symm hfront.1)]
      exact ih hfront.2

/-- Where an item is kept, so are those behind it. -/
theorem startingAt_filter {front behind : List α} {item : α} {keep : α → Bool}
    (hnodup : (front ++ item :: behind).Nodup) (hkeep : keep item = true) :
    startingAt ((front ++ item :: behind).filter keep) (some item) =
      (item :: behind).filter keep := by
  have hfront : item ∉ front.filter keep := by
    intro hmem
    rw [List.nodup_append] at hnodup
    exact hnodup.2.2 item (List.mem_of_mem_filter hmem) item List.mem_cons_self rfl
  have hmem : item ∈ (front ++ item :: behind).filter keep :=
    List.mem_filter.mpr ⟨List.mem_append_right _ List.mem_cons_self, hkeep⟩
  rw [startingAt, if_pos hmem, List.filter_append, List.filter_cons_of_pos hkeep]
  exact dropWhile_ne_append hfront

omit [DecidableEq α] in
/-- The first items that are kept, and the place of the next one. -/
theorem exists_split_filter {order : List α} {keep : α → Bool} {limit : Nat} {item : α}
    (hnext : (order.filter keep)[limit]? = some item) :
    ∃ front behind, order = front ++ item :: behind ∧
      front.filter keep = (order.filter keep).take limit := by
  induction order generalizing limit with
  | nil => cases hnext
  | cons first rest ih =>
      by_cases hkeep : keep first = true
      · rw [List.filter_cons_of_pos hkeep] at hnext ⊢
        cases limit with
        | zero =>
            rw [List.getElem?_cons_zero, Option.some.injEq] at hnext
            subst hnext
            exact ⟨[], rest, rfl, rfl⟩
        | succ limit =>
            rw [List.getElem?_cons_succ] at hnext
            obtain ⟨front, behind, hrest, htake⟩ := ih hnext
            refine ⟨first :: front, behind, by rw [hrest, List.cons_append], ?_⟩
            rw [List.filter_cons_of_pos hkeep, htake, List.take_succ_cons]
      · rw [List.filter_cons_of_neg hkeep] at hnext ⊢
        obtain ⟨front, behind, hrest, htake⟩ := ih hnext
        refine ⟨first :: front, behind, by rw [hrest, List.cons_append], ?_⟩
        rw [List.filter_cons_of_neg hkeep, htake]

/-- A part of a list without repetitions is what is kept by its own items. -/
theorem eq_filter_of_sublist {items order : List α} (hsublist : items <+ order)
    (hnodup : order.Nodup) : items = order.filter fun item => decide (item ∈ items) := by
  induction hsublist with
  | slnil => rfl
  | @cons items order first hsublist ih =>
      rw [List.nodup_cons] at hnodup
      have hnew : first ∉ items := fun hmem => hnodup.1 (hsublist.subset hmem)
      rw [List.filter_cons, decide_eq_false hnew]
      exact ih hnodup.2
  | @cons_cons items order first hsublist ih =>
      rw [List.nodup_cons] at hnodup
      rw [List.filter_cons, decide_eq_true List.mem_cons_self, if_pos rfl]
      congr 1
      refine (ih hnodup.2).trans (List.filter_congr fun item hitem => ?_)
      have hne : item ≠ first := fun heq => hnodup.1 (heq ▸ hitem)
      simp [hne]

omit [DecidableEq α] in
/-- Sorting a part of a list gives a part of the sorted list. -/
theorem sublist_insertionSort_of_sublist {r : α → α → Prop} [DecidableRel r] [Std.Total r]
    [IsTrans α r] {items others : List α} (hsublist : items <+ others) :
    items.insertionSort r <+ others.insertionSort r := by
  induction hsublist with
  | slnil => exact List.Sublist.refl _
  | cons first _ ih =>
      rw [List.insertionSort_cons]
      exact ih.trans (List.sublist_orderedInsert _ _)
  | cons_cons first _ ih =>
      rw [List.insertionSort_cons, List.insertionSort_cons]
      exact ih.orderedInsert_sublist first (List.pairwise_insertionSort _ _)

/-! ## What the pages have delivered -/

section

variable {order : List α} {keeps : Nat → α → Bool} {limit : Nat}

/-- Of the items in front of the one that comes next, each that was always kept has been
delivered. -/
structure DeliveredTo (keeps : Nat → α → Bool) (requests : Nat)
    (items front : List α) : Prop where
  sublist : items <+ front
  complete : ∀ item ∈ front, (∀ number < requests, keeps number item = true) → item ∈ items

omit [DecidableEq α] in
/-- A page behind what has been delivered. -/
theorem DeliveredTo.page {requests : Nat} {items front rest : List α}
    (hdelivered : DeliveredTo keeps requests items front) (hsplit : order = front ++ rest) :
    ((rest.filter (keeps requests))[limit]? = none →
      DeliveredTo keeps (requests + 1)
        (items ++ (rest.filter (keeps requests)).take limit) order) ∧
    ∀ item, (rest.filter (keeps requests))[limit]? = some item →
      ∃ further behind, order = further ++ item :: behind ∧
        DeliveredTo keeps (requests + 1)
          (items ++ (rest.filter (keeps requests)).take limit) further := by
  have hextend : ∀ middle behind : List α, rest = middle ++ behind →
      middle.filter (keeps requests) = (rest.filter (keeps requests)).take limit →
      DeliveredTo keeps (requests + 1)
        (items ++ (rest.filter (keeps requests)).take limit) (front ++ middle) := by
    intro middle behind hrest htake
    rw [← htake]
    refine ⟨hdelivered.sublist.append List.filter_sublist, fun item hitem hkept => ?_⟩
    rcases List.mem_append.mp hitem with hfront | hmiddle
    · exact List.mem_append_left _ (hdelivered.complete item hfront fun number hnumber =>
        hkept number (Nat.lt_succ_of_lt hnumber))
    · exact List.mem_append_right _ (List.mem_filter.mpr ⟨hmiddle, hkept _ (Nat.lt_succ_self _)⟩)
  constructor
  · intro hnone
    rw [hsplit]
    apply hextend rest [] (List.append_nil rest).symm
    rw [List.take_of_length_le (List.getElem?_eq_none_iff.mp hnone)]
  · intro item hsome
    obtain ⟨middle, behind, hrest, htake⟩ := exists_split_filter hsome
    refine ⟨front ++ middle, behind, ?_, hextend middle (item :: behind) hrest htake⟩
    rw [hsplit, hrest, List.append_assoc]

variable {lists : Nat → List α}

theorem delivered_one (limit : Nat) (lists : Nat → List α) :
    delivered limit lists 1 = (lists 0).take limit := by
  rw [delivered_succ, pages]
  rfl

/-- A page after the first one. -/
theorem pages_succ_eq_some {count : Nat} {items : List α} {next : Option α}
    (hpage : pages limit lists (count + 1) = some (items, next)) :
    ∃ before item, pages limit lists count = some (before, some item) ∧
      (items, next) = page limit (lists (count + 1)) (some item) := by
  rw [pages, Option.map_eq_some_iff] at hpage
  obtain ⟨item, hitem, hpage⟩ := hpage
  obtain ⟨⟨before, cursor⟩, hbefore, hcursor⟩ := Option.bind_eq_some_iff.mp hitem
  cases hcursor
  exact ⟨before, item, hbefore, hpage.symm⟩

theorem startingAt_subset (items : List α) (cursor : Option α) :
    startingAt items cursor ⊆ items := by
  unfold startingAt
  split
  · exact List.Subset.refl _
  · split
    · exact (List.dropWhile_sublist _).subset
    · exact List.Subset.refl _

/-- The item that a page names is in the list of the page. -/
theorem mem_of_pages {count : Nat} {items : List α} {item : α}
    (hpage : pages limit lists count = some (items, some item)) : item ∈ lists count := by
  have hnamed : ∀ cursor, (page limit (lists count) cursor).2 = some item →
      item ∈ lists count := fun cursor hitem =>
    startingAt_subset _ _ (List.mem_of_getElem? hitem)
  cases count with
  | zero =>
      rw [pages, Option.some.injEq] at hpage
      exact hnamed none (congrArg Prod.snd hpage)
  | succ count =>
      obtain ⟨before, cursor, -, heq⟩ := pages_succ_eq_some hpage
      exact hnamed (some cursor) (congrArg Prod.snd heq).symm

omit [DecidableEq α] in
theorem length_take_pos {items : List α} {item : α} (hpositive : 0 < limit)
    (hitem : items[limit]? = some item) : 1 ≤ (items.take limit).length := by
  have hbound := (List.getElem?_eq_some_iff.mp hitem).1
  rw [List.length_take]
  omega

/-- While each item that is named is found, the pages go through the list from its beginning. -/
theorem deliveredTo_pages (hlists : ∀ number, lists number = order.filter (keeps number))
    (hnodup : order.Nodup) (hpositive : 0 < limit) (hfound : Found limit lists) (count : Nat)
    {items : List α} {next : Option α} (hpage : pages limit lists count = some (items, next)) :
    (next = none → DeliveredTo keeps (count + 1) (delivered limit lists (count + 1)) order) ∧
    ∀ item, next = some item → count + 1 ≤ (delivered limit lists (count + 1)).length ∧
      ∃ front behind, order = front ++ item :: behind ∧
        DeliveredTo keeps (count + 1) (delivered limit lists (count + 1)) front := by
  induction count generalizing items next with
  | zero =>
      have hstart : DeliveredTo keeps 0 ([] : List α) [] :=
        ⟨List.Sublist.refl _, fun _ hitem => absurd hitem List.not_mem_nil⟩
      obtain ⟨hend, hmore⟩ := @DeliveredTo.page α order keeps limit 0 [] [] order hstart rfl
      rw [Nat.zero_add, delivered_one, hlists]
      rw [pages, Option.some.injEq, page, hlists, Prod.mk.injEq] at hpage
      obtain ⟨-, rfl⟩ := hpage
      exact ⟨hend, fun item hitem => ⟨length_take_pos hpositive hitem, hmore item hitem⟩⟩
  | succ count ih =>
      obtain ⟨before, cursor, hbefore, hpaged⟩ := pages_succ_eq_some hpage
      obtain ⟨hlength, front, behind, hsplit, hdelivered⟩ := (ih hbefore).2 cursor rfl
      have hkeep : keeps (count + 1) cursor = true := by
        have hmem := hfound count before cursor hbefore
        rw [hlists] at hmem
        exact (List.mem_filter.mp hmem).2
      have hrest : startingAt (lists (count + 1)) (some cursor) =
          (cursor :: behind).filter (keeps (count + 1)) := by
        rw [hlists, hsplit]
        rw [hsplit] at hnodup
        exact startingAt_filter hnodup hkeep
      rw [page, hrest, Prod.mk.injEq] at hpaged
      obtain ⟨rfl, rfl⟩ := hpaged
      obtain ⟨hend, hmore⟩ := @DeliveredTo.page _ _ _ limit _ _ _ _ hdelivered hsplit
      rw [delivered_succ, hpage]
      refine ⟨hend, fun item hitem => ⟨?_, hmore item hitem⟩⟩
      have hpage := length_take_pos hpositive hitem
      rw [List.length_append]
      exact Nat.add_le_add hlength hpage

theorem delivered_of_none {count : Nat} (hnone : pages limit lists count = none) :
    delivered limit lists (count + 1) = delivered limit lists count := by
  rw [delivered_succ, hnone]
  exact List.append_nil _

/-- No item is delivered twice. -/
theorem nodup_delivered (hlists : ∀ number, lists number = order.filter (keeps number))
    (hnodup : order.Nodup) (hpositive : 0 < limit) (hfound : Found limit lists) (count : Nat) :
    (delivered limit lists count).Nodup ∧ delivered limit lists count ⊆ order := by
  induction count with
  | zero => exact ⟨List.nodup_nil, List.nil_subset _⟩
  | succ count ih =>
      cases hpage : pages limit lists count with
      | none =>
          rw [delivered_of_none hpage]
          exact ih
      | some found =>
          obtain ⟨items, next⟩ := found
          obtain ⟨hend, hmore⟩ := deliveredTo_pages hlists hnodup hpositive hfound count hpage
          cases next with
          | none =>
              have hsublist := (hend rfl).sublist
              exact ⟨hsublist.nodup hnodup, hsublist.subset⟩
          | some item =>
              obtain ⟨-, front, behind, hsplit, hdelivered⟩ := hmore item rfl
              have hsublist : delivered limit lists (count + 1) <+ order := by
                rw [hsplit]
                exact hdelivered.sublist.trans (List.sublist_append_left _ _)
              exact ⟨hsublist.nodup hnodup, hsublist.subset⟩

/-- The pages come to an end. -/
theorem pages_eq_none (hlists : ∀ number, lists number = order.filter (keeps number))
    (hnodup : order.Nodup) (hpositive : 0 < limit) (hfound : Found limit lists) {count : Nat}
    (hlarge : order.length < count) : pages limit lists count = none := by
  cases count with
  | zero => cases hlarge
  | succ count =>
      by_contra hsome
      obtain ⟨⟨items, next⟩, hpage⟩ := Option.ne_none_iff_exists'.mp hsome
      obtain ⟨before, item, hbefore, -⟩ := pages_succ_eq_some hpage
      obtain ⟨hlength, -⟩ :=
        (deliveredTo_pages hlists hnodup hpositive hfound count hbefore).2 item rfl
      obtain ⟨hdistinct, hsubset⟩ := nodup_delivered hlists hnodup hpositive hfound (count + 1)
      have hbound := (List.subperm_of_subset hdistinct hsubset).length_le
      omega

/-- What was kept at each request has been delivered when there is no further page. -/
theorem mem_delivered (hlists : ∀ number, lists number = order.filter (keeps number))
    (hnodup : order.Nodup) (hpositive : 0 < limit) (hfound : Found limit lists) {count : Nat}
    (hnone : pages limit lists count = none) {item : α} (hitem : item ∈ order)
    (hkept : ∀ number < count, keeps number item = true) : item ∈ delivered limit lists count := by
  induction count with
  | zero =>
      rw [pages] at hnone
      cases hnone
  | succ count ih =>
      cases hpage : pages limit lists count with
      | none =>
          rw [delivered_of_none hpage]
          exact ih hpage fun number hnumber => hkept number (Nat.lt_succ_of_lt hnumber)
      | some found =>
          obtain ⟨items, next⟩ := found
          cases next with
          | some cursor =>
              rw [pages, hpage] at hnone
              cases hnone
          | none =>
              have hend := (deliveredTo_pages hlists hnodup hpositive hfound count hpage).1 rfl
              exact hend.complete item hitem hkept

end

end CursorPages

end ShuttleFlow
