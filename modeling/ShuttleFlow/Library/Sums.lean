import Mathlib.Algebra.Order.BigOperators.Group.List
import Mathlib.Logic.Function.Basic
import ShuttleFlow.Library.Dict

/-! # Sums of which one part changes

The parts are numbered objects, or the values of a dictionary.
-/

namespace ShuttleFlow

section Objects

variable {ι M : Type} [DecidableEq ι] [AddCommMonoid M]

/-- A sum over distinct objects, one of which grows. -/
theorem sum_map_update_add {objects : List ι} (hnodup : objects.Nodup) {object : ι}
    (hmem : object ∈ objects) (amount : ι → M) (added : M) :
    (objects.map (Function.update amount object (amount object + added))).sum =
      (objects.map amount).sum + added := by
  induction objects with
  | nil => cases hmem
  | cons first rest ih =>
      obtain ⟨hfirst, hrest⟩ := List.nodup_cons.mp hnodup
      rw [List.map_cons, List.map_cons, List.sum_cons, List.sum_cons]
      rcases List.mem_cons.mp hmem with rfl | hlater
      · have hsame : rest.map (Function.update amount object (amount object + added)) =
            rest.map amount := by
          apply List.map_congr_left
          intro other hother
          apply Function.update_of_ne
          exact ne_of_mem_of_not_mem hother hfirst
        rw [hsame, Function.update_self]
        exact add_right_comm ..
      · have hne : first ≠ object := (ne_of_mem_of_not_mem hlater hfirst).symm
        rw [ih hrest hlater, Function.update_of_ne hne, add_assoc]

theorem sum_map_update_of_notMem {objects : List ι} {object : ι} (hmem : object ∉ objects)
    (amount : ι → M) (value : M) :
    (objects.map (Function.update amount object value)).sum = (objects.map amount).sum := by
  congr 1
  apply List.map_congr_left
  intro other hother
  apply Function.update_of_ne
  exact ne_of_mem_of_not_mem hother hmem

omit [DecidableEq ι] [AddCommMonoid M] in
/-- A list as the values of its places. -/
theorem map_getD_range (list : List M) (default : M) :
    ((List.range list.length).map fun place => (list[place]?).getD default) = list := by
  apply List.ext_getElem
  · rw [List.length_map, List.length_range]
  · intro place _ hplace
    simp [hplace]

end Objects

/-- Sums of which no part falls only stay the same when every part does. -/
theorem sum_eq_sum_iff_of_le {ι M : Type} [AddCommMonoid M] [PartialOrder M]
    [IsOrderedCancelAddMonoid M] {objects : List ι} {before after : ι → M}
    (hle : ∀ object ∈ objects, before object ≤ after object) :
    (objects.map after).sum = (objects.map before).sum ↔
      ∀ object ∈ objects, after object = before object := by
  constructor
  · intro hsum object hmem
    by_contra hne
    have hlt := List.sum_lt_sum before after hle
      ⟨object, hmem, lt_of_le_of_ne (hle object hmem) (Ne.symm hne)⟩
    exact absurd hsum hlt.ne'
  · intro hall
    rw [List.map_congr_left hall]

namespace Dict

variable {κ ν M : Type} [DecidableEq κ] [AddCommMonoid M]

omit [AddCommMonoid M] in
theorem nodup_values {dict : Dict κ ν} (hdistinct : ∀ first second value,
    dict.get? first = some value → dict.get? second = some value → first = second) :
    dict.values.Nodup := by
  apply List.Nodup.map_on
  · rintro ⟨first, value⟩ hfirst ⟨second, other⟩ hsecond rfl
    rw [hdistinct first second value (get?_of_mem_entries hfirst) (get?_of_mem_entries hsecond)]
  · exact dict.nodup.of_map _

theorem sum_erase_entry (entries : List (κ × ν)) (key : κ) (amount : ν → M)
    (hnodup : (entries.map Prod.fst).Nodup) :
    (entries.map fun entry => amount entry.2).sum =
      ((entries.filter fun entry => entry.1 ≠ key).map fun entry => amount entry.2).sum +
        (((entries.find? fun entry => entry.1 = key).map Prod.snd).map amount).getD 0 := by
  induction entries with
  | nil => simp
  | cons entry rest ih =>
      obtain ⟨hnew, hrest⟩ := List.nodup_cons.mp hnodup
      by_cases hentry : entry.1 = key
      · -- The key does not come again.
        have hfilter : (rest.filter fun other => other.1 ≠ key) = rest := by
          apply List.filter_eq_self.mpr
          intro other hother
          have hne : other.1 ≠ key := by
            intro heq
            apply hnew
            rw [hentry, ← heq]
            exact List.mem_map_of_mem hother
          simpa using hne
        rw [List.filter_cons_of_neg (by simpa using hentry), hfilter,
          List.find?_cons_of_pos (by simpa using hentry)]
        simp [add_comm]
      · rw [List.filter_cons_of_pos (by simpa using hentry),
          List.find?_cons_of_neg (by simpa using hentry), List.map_cons, List.sum_cons,
          ih hrest, List.map_cons, List.sum_cons, add_assoc]

theorem sum_values_erase (dict : Dict κ ν) (key : κ) (amount : ν → M) :
    (dict.values.map amount).sum =
      ((dict.erase key).values.map amount).sum + ((dict.get? key).map amount).getD 0 := by
  have hsum := sum_erase_entry dict.entries key amount dict.nodup
  simpa [values, erase, get?, Function.comp_def] using hsum

/-- The new value counts in place of the one that was there. -/
theorem sum_values_set (dict : Dict κ ν) (key : κ) (value : ν) (amount : ν → M) :
    ((dict.set key value).values.map amount).sum + ((dict.get? key).map amount).getD 0 =
      (dict.values.map amount).sum + amount value := by
  have hnew := sum_values_erase (dict.set key value) key amount
  have hold := sum_values_erase dict key amount
  have hsame : ((dict.set key value).erase key).values = (dict.erase key).values := by
    rw [values, erase_set_entries, values]
  rw [get?_set, if_pos rfl, hsame] at hnew
  rw [hnew, hold]
  exact add_right_comm ..

/-- A sum does not fall when every value does not. There may be new ones. -/
theorem sum_values_le_of_get? [PartialOrder M] [CanonicallyOrderedAdd M] [IsOrderedAddMonoid M]
    {before after : Dict κ ν} {amount : ν → M}
    (hgrows : ∀ key value, before.get? key = some value →
      ∃ later, after.get? key = some later ∧ amount value ≤ amount later) :
    (before.values.map amount).sum ≤ (after.values.map amount).sum := by
  have hentries : ∀ (entries : List (κ × ν)) (after : Dict κ ν),
      (entries.map Prod.fst).Nodup →
      (∀ entry ∈ entries, ∃ later, after.get? entry.1 = some later ∧
        amount entry.2 ≤ amount later) →
      ((entries.map Prod.snd).map amount).sum ≤ (after.values.map amount).sum := by
    intro entries
    induction entries with
    | nil =>
        intro after _ _
        exact zero_le
    | cons entry rest ih =>
        intro after hnodup hall
        obtain ⟨hnew, hrest⟩ := List.nodup_cons.mp hnodup
        obtain ⟨later, hlater, hle⟩ := hall entry List.mem_cons_self
        have herased := ih (after.erase entry.1) hrest fun other hother => by
          obtain ⟨value, hvalue, hsmaller⟩ := hall other (.tail _ hother)
          refine ⟨value, ?_, hsmaller⟩
          rw [get?_erase, if_neg (ne_of_mem_of_not_mem (List.mem_map_of_mem hother) hnew)]
          exact hvalue
        rw [sum_values_erase after entry.1, hlater, Option.map_some, Option.getD_some,
          List.map_cons, List.map_cons, List.sum_cons, add_comm]
        exact add_le_add herased hle
  apply hentries before.entries after before.nodup
  intro entry hmem
  exact hgrows entry.1 entry.2 (get?_of_mem_entries hmem)

end Dict

end ShuttleFlow
