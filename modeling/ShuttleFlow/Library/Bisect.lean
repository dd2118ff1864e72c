import Mathlib.Data.List.TakeWhile

/-! # Binary search

A list is searched for the first item above a bound. The search finds it where what is above
the bound comes last. In other lists it ends somewhere.
-/

namespace ShuttleFlow.Bisect

variable {α : Type} {above : α → Bool} {items : List α}

/-- The loop. The position is searched from `low` up to `high`. -/
def search (above : α → Bool) (items : List α) : (fuel low high : Nat) → Nat
  | 0, low, _ => low
  | fuel + 1, low, high =>
      if low < high then
        let middle := (low + high) / 2
        if items[middle]?.any above then search above items fuel low middle
        else search above items fuel (middle + 1) high
      else low

/-- The position behind which everything is above the bound. -/
def bisectRight (above : α → Bool) (items : List α) : Nat :=
  search above items items.length 0 items.length

/-- The item comes before what is above the bound. -/
def insort (above : α → Bool) (item : α) (items : List α) : List α :=
  items.take (bisectRight above items) ++ item :: items.drop (bisectRight above items)

/-- What is above the bound comes last. -/
def Partitioned (above : α → Bool) (items : List α) : Prop :=
  items.Pairwise fun first second => above first → above second

instance (above : α → Bool) (items : List α) : Decidable (Partitioned above items) :=
  inferInstanceAs (Decidable (items.Pairwise fun first second => above first → above second))

theorem search_eq {before after : List α} (hsplit : items = before ++ after)
    (hbefore : ∀ item ∈ before, above item = false) (hafter : ∀ item ∈ after, above item)
    {fuel low high : Nat} (hlow : low ≤ before.length) (hhigh : before.length ≤ high)
    (hlength : high ≤ items.length) (hfuel : high - low ≤ fuel) :
    search above items fuel low high = before.length := by
  induction fuel generalizing low high with
  | zero =>
      rw [search]
      omega
  | succ fuel ih =>
      rw [search]
      split
      next hlt =>
        have hmiddle : (low + high) / 2 < items.length := by omega
        simp only [List.getElem?_eq_getElem hmiddle, Option.any_some]
        by_cases hfront : (low + high) / 2 < before.length
        · have hmem : items[(low + high) / 2] ∈ before := by
            simp only [hsplit, List.getElem_append_left hfront]
            exact List.getElem_mem hfront
          rw [if_neg (by rw [hbefore _ hmem]; exact Bool.false_ne_true)]
          exact ih hfront hhigh hlength (by omega)
        · rw [Nat.not_lt] at hfront
          have hmem : items[(low + high) / 2] ∈ after := by
            simp only [hsplit, List.getElem_append_right hfront]
            exact List.getElem_mem _
          rw [if_pos (hafter _ hmem)]
          exact ih hlow hfront (by omega) (by omega)
      next hge => omega

/-- Behind the first item that is above the bound, all are. -/
theorem Partitioned.above_dropWhile (hpartitioned : Partitioned above items) :
    ∀ item ∈ items.dropWhile fun item => !above item, above item := by
  induction items with
  | nil => exact nofun
  | cons first rest ih =>
      obtain ⟨hfirst, hrest⟩ := List.pairwise_cons.mp hpartitioned
      rw [List.dropWhile_cons]
      split
      next => exact ih hrest
      next hstop =>
        have habove : above first := by simpa using hstop
        intro item hitem
        rcases List.mem_cons.mp hitem with rfl | hitem
        · exact habove
        · exact hfirst item hitem habove

theorem Partitioned.bisectRight_eq (hpartitioned : Partitioned above items) :
    bisectRight above items = (items.takeWhile fun item => !above item).length := by
  refine search_eq List.takeWhile_append_dropWhile.symm (fun item hitem => ?_)
    hpartitioned.above_dropWhile (Nat.zero_le _) ?_ (Nat.le_refl _) (Nat.le_refl _)
  · simpa using List.mem_takeWhile_imp hitem
  · exact (List.takeWhile_prefix _).length_le

/-- The item is inserted where it belongs. -/
theorem Partitioned.insort_eq (hpartitioned : Partitioned above items) (item : α) :
    insort above item items =
      items.takeWhile (fun item => !above item) ++
        item :: items.dropWhile fun item => !above item := by
  have hsplit := @List.takeWhile_append_dropWhile _ (fun item => !above item) items
  have htake : items.take (bisectRight above items) =
      items.takeWhile fun item => !above item := by
    rw [hpartitioned.bisectRight_eq]
    exact List.prefix_iff_eq_take.mp (List.takeWhile_prefix _) |>.symm
  have hdrop : items.drop (bisectRight above items) =
      items.dropWhile fun item => !above item := by
    have hrest := @List.drop_left _ (items.takeWhile fun item => !above item)
      (items.dropWhile fun item => !above item)
    rw [hsplit] at hrest
    rw [hpartitioned.bisectRight_eq, hrest]
  rw [insort, htake, hdrop]

/-- Wherever the search ends, the other items keep their order. -/
theorem insort_split (above : α → Bool) (item : α) (items : List α) :
    ∃ before after, items = before ++ after ∧ insort above item items = before ++ item :: after :=
  ⟨_, _, (List.take_append_drop (bisectRight above items) items).symm, rfl⟩

end ShuttleFlow.Bisect
