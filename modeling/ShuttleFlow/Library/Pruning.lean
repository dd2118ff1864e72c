import Mathlib.Data.Finset.Basic
import Mathlib.Data.List.Basic
import Mathlib.Data.List.Nodup

/-! # Pruning a list until no rule fires

A rule looks at a list and names the keys it wants dropped. Pruning applies the
first rule that names something, then starts over with the first rule. When
every rule is antitone, the order of application does not matter: the outcome
is the greatest sublist on which no rule fires.
-/

namespace ShuttleFlow.Pruning

open scoped List

variable {α ι : Type*}

/-- The keys a rule wants dropped from the list it is shown. -/
abbrev Rule (α ι : Type*) := List α → Finset ι

/-- No rule fires. -/
def Stable (rules : List (Rule α ι)) (items : List α) : Prop :=
  ∀ rule ∈ rules, rule items = ∅

/-- A local rule only names keys of the list it is shown. -/
def Local (key : α → ι) (rule : Rule α ι) : Prop :=
  ∀ items, ∀ k ∈ rule items, ∃ item ∈ items, key item = k

/-- Below `base`, an item named in some list is still named in every shorter
list that has kept it. -/
def AntitoneOn (key : α → ι) (base : List α) (rule : Rule α ι) : Prop :=
  ∀ ⦃more fewer : List α⦄, more <+ base → fewer <+ more →
    ∀ item ∈ fewer, key item ∈ rule more → key item ∈ rule fewer

/-- `kept` is the greatest stable sublist of `items`. -/
structure IsGreatestStable (rules : List (Rule α ι)) (items kept : List α) : Prop where
  sublist : kept <+ items
  stable : Stable rules kept
  greatest : ∀ other, other <+ items → Stable rules other → other <+ kept

variable {rules : List (Rule α ι)} {items kept : List α}

theorem IsGreatestStable.unique {other : List α} (hkept : IsGreatestStable rules items kept)
    (hother : IsGreatestStable rules items other) : kept = other :=
  (hother.greatest _ hkept.sublist hkept.stable).antisymm
    (hkept.greatest _ hother.sublist hother.stable)

/-- A stable list is its own greatest stable sublist. -/
theorem IsGreatestStable.refl (hstable : Stable rules items) :
    IsGreatestStable rules items items :=
  ⟨.refl _, hstable, fun _ hsub _ => hsub⟩

/-! ## Sweeping -/

variable [DecidableEq ι]

/-- Drop every item whose key was named. -/
def sweep (key : α → ι) (dropped : Finset ι) (items : List α) : List α :=
  items.filter fun item => key item ∉ dropped

variable {key : α → ι}

@[simp] theorem mem_sweep {dropped : Finset ι} {item : α} :
    item ∈ sweep key dropped items ↔ item ∈ items ∧ key item ∉ dropped := by
  simp [sweep]

@[simp] theorem sweep_empty : sweep key ∅ items = items := by
  simp [sweep]

theorem sweep_sublist (dropped : Finset ι) : sweep key dropped items <+ items :=
  List.filter_sublist

/-- Sweeping cannot remove a sublist none of whose keys was named. -/
theorem sublist_sweep {dropped : Finset ι} (hsub : kept <+ items)
    (hkeep : ∀ item ∈ kept, key item ∉ dropped) : kept <+ sweep key dropped items := by
  have hself : kept.filter (fun item => key item ∉ dropped) = kept := by
    rw [List.filter_eq_self]
    simpa using hkeep
  rw [← hself]
  exact hsub.filter _

/-- A local rule that fires strictly shortens the list. -/
theorem length_sweep_lt {rule : Rule α ι} (hlocal : Local key rule)
    (hfires : rule items ≠ ∅) : (sweep key (rule items) items).length < items.length := by
  obtain ⟨k, hk⟩ := Finset.nonempty_iff_ne_empty.mpr hfires
  obtain ⟨item, hitem, rfl⟩ := hlocal items k hk
  refine List.length_filter_lt_length_iff_exists.mpr ⟨item, hitem, ?_⟩
  simpa using hk

/-! ## Pruning -/

/-- Sweep with the first rule that fires and start over, at most `fuel` times. -/
def prune (key : α → ι) (rules : List (Rule α ι)) : Nat → List α → List α
  | 0, items => items
  | fuel + 1, items =>
      match rules.find? fun rule => rule items ≠ ∅ with
      | none => items
      | some rule => prune key rules fuel (sweep key (rule items) items)

theorem prune_sublist (fuel : Nat) (items : List α) : prune key rules fuel items <+ items := by
  induction fuel generalizing items with
  | zero => exact .refl _
  | succ fuel ih =>
      unfold prune
      split
      · exact .refl _
      · exact (ih _).trans (sweep_sublist _)

/-- Local rules shorten the list whenever they fire, so as many rounds as the
list has items always suffice. -/
theorem prune_stable (hlocal : ∀ rule ∈ rules, Local key rule) (fuel : Nat)
    (hfuel : items.length ≤ fuel) : Stable rules (prune key rules fuel items) := by
  induction fuel generalizing items with
  | zero =>
      have hnil : items = [] := List.length_eq_zero_iff.mp (Nat.le_zero.mp hfuel)
      subst hnil
      intro rule hrule
      by_contra hfires
      simpa [prune] using length_sweep_lt (hlocal rule hrule) hfires
  | succ fuel ih =>
      unfold prune
      split
      next hnone => simpa [List.find?_eq_none, Stable] using hnone
      next rule hsome =>
        have hrule := List.mem_of_find?_eq_some hsome
        have hfires : rule items ≠ ∅ := by simpa using List.find?_some hsome
        have hshorter := length_sweep_lt (hlocal rule hrule) hfires
        exact ih (by omega)

/-- Antitone rules never touch a stable sublist. -/
theorem sublist_prune (hanti : ∀ rule ∈ rules, AntitoneOn key items rule)
    (hstable : Stable rules kept) (hsub : kept <+ items) (fuel : Nat) :
    kept <+ prune key rules fuel items := by
  induction fuel generalizing items with
  | zero => exact hsub
  | succ fuel ih =>
      unfold prune
      split
      · exact hsub
      next rule hsome =>
        have hrule := List.mem_of_find?_eq_some hsome
        have hkept : kept <+ sweep key (rule items) items := by
          refine sublist_sweep hsub fun item hitem hnamed => ?_
          have := hanti rule hrule (.refl _) hsub item hitem hnamed
          simp [hstable rule hrule] at this
        refine ih (fun other hother more fewer hmore => ?_) hkept
        exact hanti other hother (hmore.trans (sweep_sublist _))

theorem prune_isGreatestStable (hlocal : ∀ rule ∈ rules, Local key rule)
    (hanti : ∀ rule ∈ rules, AntitoneOn key items rule) (fuel : Nat)
    (hfuel : items.length ≤ fuel) :
    IsGreatestStable rules items (prune key rules fuel items) :=
  ⟨prune_sublist fuel items, prune_stable hlocal fuel hfuel,
    fun _ hsub hstable => sublist_prune hanti hstable hsub fuel⟩

/-- A leading rule that is settled by one sweep, and stays settled on every
sublist, may be taken first: the remaining rules then prune what it left. -/
theorem prune_cons_isGreatestStable {first : Rule α ι}
    (hlocal : ∀ rule ∈ first :: rules, Local key rule)
    (hsettled : ∀ ⦃fewer : List α⦄, fewer <+ sweep key (first items) items → first fewer = ∅)
    (hanti : ∀ rule ∈ rules, AntitoneOn key (sweep key (first items) items) rule)
    (fuel : Nat) (hfuel : items.length ≤ fuel) :
    IsGreatestStable rules (sweep key (first items) items)
      (prune key (first :: rules) fuel items) := by
  have hall : ∀ rule ∈ first :: rules,
      AntitoneOn key (sweep key (first items) items) rule := by
    intro rule hrule
    rcases List.mem_cons.mp hrule with rfl | hrule
    · intro more fewer hmore _ item _ hnamed
      simp [hsettled hmore] at hnamed
    · exact hanti rule hrule
  have hgreatest : ∀ rounds, (sweep key (first items) items).length ≤ rounds →
      IsGreatestStable rules (sweep key (first items) items)
        (prune key (first :: rules) rounds (sweep key (first items) items)) := by
    intro rounds hrounds
    have hpruned := prune_isGreatestStable hlocal hall rounds hrounds
    refine ⟨hpruned.sublist, fun rule hrule => hpruned.stable rule (.tail _ hrule), ?_⟩
    intro other hother hstable
    refine hpruned.greatest other hother fun rule hrule => ?_
    rcases List.mem_cons.mp hrule with rfl | hrule
    · exact hsettled hother
    · exact hstable rule hrule
  by_cases hfires : first items = ∅
  · simp only [hfires, sweep_empty] at hgreatest ⊢
    exact hgreatest fuel hfuel
  · have hshorter := length_sweep_lt (hlocal first List.mem_cons_self) hfires
    cases fuel with
    | zero => omega
    | succ fuel =>
        simpa [prune, hfires] using hgreatest fuel (by omega)

end ShuttleFlow.Pruning
