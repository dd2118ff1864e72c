import Mathlib.Data.List.Find
import Mathlib.Data.List.Nodup

/-! # Dictionaries in insertion order

A key keeps its place when its value is replaced. A new key goes to the end.
-/

namespace ShuttleFlow

structure Dict (κ ν : Type) where
  entries : List (κ × ν)
  nodup : (entries.map Prod.fst).Nodup
  deriving DecidableEq

namespace Dict

variable {κ ν : Type} [DecidableEq κ]

def empty : Dict κ ν := ⟨[], List.nodup_nil⟩

def keys (dict : Dict κ ν) : List κ := dict.entries.map Prod.fst

def values (dict : Dict κ ν) : List ν := dict.entries.map Prod.snd

def get? (dict : Dict κ ν) (key : κ) : Option ν :=
  (dict.entries.find? fun entry => entry.1 = key).map Prod.snd

theorem map_replace (entries : List (κ × ν)) (key : κ) (value : ν) :
    (entries.map fun entry => if entry.1 = key then (key, value) else entry).map Prod.fst =
      entries.map Prod.fst := by
  rw [List.map_map]
  refine List.map_congr_left fun entry _ => ?_
  change (if entry.1 = key then (key, value) else entry).1 = entry.1
  split
  next hsame => exact hsame.symm
  next => rfl

def set (dict : Dict κ ν) (key : κ) (value : ν) : Dict κ ν :=
  if hmem : key ∈ dict.keys then
    { entries := dict.entries.map fun entry => if entry.1 = key then (key, value) else entry
      nodup := by
        rw [map_replace]
        exact dict.nodup }
  else
    { entries := dict.entries ++ [(key, value)]
      nodup := by
        rw [List.map_append, List.nodup_append]
        refine ⟨dict.nodup, List.nodup_singleton _, fun other hother new hnew heq => hmem ?_⟩
        obtain rfl : new = key := List.mem_singleton.mp hnew
        exact heq ▸ hother }

def erase (dict : Dict κ ν) (key : κ) : Dict κ ν where
  entries := dict.entries.filter fun entry => entry.1 ≠ key
  nodup := dict.nodup.sublist (List.filter_sublist.map Prod.fst)

/-- A value gets another key, and keeps its place. A key that is in use is not taken. -/
def renameKey (dict : Dict κ ν) (old new : κ) : Dict κ ν :=
  if hnew : new ∈ dict.keys then dict
  else
    { entries := dict.entries.map fun entry => (if entry.1 = old then new else entry.1, entry.2)
      nodup := by
        have hkeys : (dict.entries.map fun entry =>
            (if entry.1 = old then new else entry.1, entry.2)).map Prod.fst =
              dict.keys.map fun key => if key = old then new else key := by
          rw [keys, List.map_map, List.map_map]
          rfl
        rw [hkeys]
        refine dict.nodup.map_on fun first hfirst second hsecond heq => ?_
        split at heq <;> split at heq
        · rw [‹first = old›, ‹second = old›]
        · exact absurd (heq ▸ hsecond) hnew
        · exact absurd (heq ▸ hfirst) hnew
        · exact heq }

/-- The values that a function gives, and their keys. -/
def filterMap {μ : Type} (dict : Dict κ ν) (f : κ → ν → Option μ) : Dict κ μ where
  entries := dict.entries.filterMap fun entry => (f entry.1 entry.2).map fun value =>
    (entry.1, value)
  nodup := by
    refine dict.nodup.sublist ?_
    induction dict.entries with
    | nil => exact List.Sublist.slnil
    | cons entry rest ih =>
        rw [List.filterMap_cons, List.map_cons]
        cases f entry.1 entry.2 with
        | none => exact ih.cons _
        | some value => exact ih.cons_cons _

/-- Keep the value of a key that is there. -/
def setDefault (dict : Dict κ ν) (key : κ) (value : ν) : Dict κ ν :=
  if (dict.get? key).isSome then dict else dict.set key value

@[simp] theorem get?_empty (key : κ) : (empty : Dict κ ν).get? key = none := rfl

theorem eq_empty {dict : Dict κ ν} (hentries : dict.entries = []) : dict = empty := by
  cases dict
  cases hentries
  rfl

theorem isSome_get?_iff {dict : Dict κ ν} {key : κ} :
    (dict.get? key).isSome ↔ key ∈ dict.keys := by
  simp [get?, keys]

theorem get?_eq_none_iff {dict : Dict κ ν} {key : κ} :
    dict.get? key = none ↔ key ∉ dict.keys := by
  rw [← isSome_get?_iff, Option.not_isSome_iff_eq_none]

theorem get?_of_mem_entries {dict : Dict κ ν} {key : κ} {value : ν}
    (hmem : (key, value) ∈ dict.entries) : dict.get? key = some value := by
  cases hfind : dict.entries.find? fun entry => entry.1 = key with
  | none => exact absurd (List.find?_eq_none.mp hfind _ hmem) (by simp)
  | some found =>
      have hkey : found.1 = key := by simpa using List.find?_some hfind
      have hsame : found = (key, value) :=
        List.inj_on_of_nodup_map dict.nodup (List.mem_of_find?_eq_some hfind) hmem hkey
      rw [get?, hfind, hsame]
      rfl

theorem keys_set_of_mem {dict : Dict κ ν} {key : κ} (hmem : key ∈ dict.keys) (value : ν) :
    (dict.set key value).keys = dict.keys := by
  unfold set
  rw [dif_pos hmem]
  exact map_replace ..

theorem keys_set_of_notMem {dict : Dict κ ν} {key : κ} (hnew : key ∉ dict.keys) (value : ν) :
    (dict.set key value).keys = dict.keys ++ [key] := by
  unfold set
  rw [dif_neg hnew]
  exact List.map_append ..

theorem entries_set_of_notMem {dict : Dict κ ν} {key : κ} (hnew : key ∉ dict.keys) (value : ν) :
    (dict.set key value).entries = dict.entries ++ [(key, value)] := by
  unfold set
  rw [dif_neg hnew]

theorem find?_replace (entries : List (κ × ν)) {key : κ} (value : ν) (other : κ)
    (hmem : key ∈ entries.map Prod.fst) :
    ((entries.map fun entry => if entry.1 = key then (key, value) else entry).find?
      fun entry => entry.1 = other).map Prod.snd =
      if other = key then some value
      else (entries.find? fun entry => entry.1 = other).map Prod.snd := by
  induction entries with
  | nil => cases hmem
  | cons entry rest ih =>
      rw [List.map_cons, List.find?_cons, List.find?_cons]
      by_cases hentry : entry.1 = key
      · by_cases hother : other = key
        · simp [hentry, hother]
        · have hkey : key ≠ other := Ne.symm hother
          by_cases hrest : key ∈ rest.map Prod.fst
          · simpa [hentry, hkey, hother] using ih hrest
          · have hsame : (rest.map fun entry => if entry.1 = key then (key, value) else entry) =
                rest := by
              refine (List.map_congr_left fun found hfound => ?_).trans (List.map_id rest)
              exact if_neg fun heq : found.1 = key => hrest (heq ▸ List.mem_map_of_mem hfound)
            simp [hentry, hkey, hother, hsame]
      · have hrest : key ∈ rest.map Prod.fst := by simpa [Ne.symm hentry] using hmem
        by_cases hother : entry.1 = other
        · have hne : other ≠ key := hother ▸ hentry
          simp [hother, hne]
        · simpa [hentry, hother] using ih hrest

theorem get?_set (dict : Dict κ ν) (key : κ) (value : ν) (other : κ) :
    (dict.set key value).get? other = if other = key then some value else dict.get? other := by
  by_cases hmem : key ∈ dict.keys
  · unfold set get?
    rw [dif_pos hmem]
    exact find?_replace dict.entries value other hmem
  · unfold set
    rw [dif_neg hmem]
    by_cases hother : other = key
    · rw [if_pos hother]
      have hnone := get?_eq_none_iff.mpr hmem
      rw [get?, Option.map_eq_none_iff] at hnone
      rw [get?, List.find?_append, hother, hnone]
      simp
    · rw [if_neg hother, get?, get?, List.find?_append]
      simp [Ne.symm hother]

theorem get?_erase (dict : Dict κ ν) (key other : κ) :
    (dict.erase key).get? other = if other = key then none else dict.get? other := by
  by_cases hother : other = key
  · rw [if_pos hother, get?_eq_none_iff, hother]
    simp [keys, erase]
  · rw [if_neg hother, get?, get?, erase, List.find?_filter]
    congr 2
    funext entry
    by_cases hentry : entry.1 = other
    · simp [hentry, hother]
    · simp [hentry]

theorem get?_filterMap {μ : Type} (dict : Dict κ ν) (f : κ → ν → Option μ) (key : κ) :
    (dict.filterMap f).get? key = (dict.get? key).bind (f key) := by
  have hentries : ∀ entries : List (κ × ν), (entries.map Prod.fst).Nodup →
      ((entries.filterMap fun entry => (f entry.1 entry.2).map fun value =>
        (entry.1, value)).find? fun entry => entry.1 = key).map Prod.snd =
        ((entries.find? fun entry => entry.1 = key).map Prod.snd).bind (f key) := by
    intro entries hnodup
    induction entries with
    | nil => rfl
    | cons entry rest ih =>
        obtain ⟨hnew, hrest⟩ := List.nodup_cons.mp hnodup
        by_cases hentry : entry.1 = key
        · rw [List.find?_cons_of_pos (by simpa using hentry), List.filterMap_cons, hentry]
          cases hvalue : f key entry.2 with
          | none =>
              have hnone : rest.find? (fun entry => entry.1 = key) = none := by
                refine List.find?_eq_none.mpr fun other hother => ?_
                have hne : other.1 ≠ key := fun heq =>
                  hnew (hentry ▸ heq ▸ List.mem_map_of_mem hother)
                simpa using hne
              have hlater := ih hrest
              rw [hnone] at hlater
              exact hlater.trans hvalue.symm
          | some value => simp [hvalue]
        · rw [List.find?_cons_of_neg (by simpa using hentry), ← ih hrest, List.filterMap_cons]
          cases f entry.1 entry.2 with
          | none => rfl
          | some value => simp [hentry]
  exact hentries dict.entries dict.nodup

theorem get?_renameKey {dict : Dict κ ν} {old new : κ} (hnew : dict.get? new = none) (key : κ) :
    (dict.renameKey old new).get? key =
      if key = new then dict.get? old else if key = old then none else dict.get? key := by
  rw [get?_eq_none_iff] at hnew
  have hne : ∀ entry ∈ dict.entries, entry.1 ≠ new := fun entry hentry heq =>
    hnew (heq ▸ List.mem_map_of_mem hentry)
  unfold renameKey
  rw [dif_neg hnew, get?, List.find?_map, Option.map_map]
  change Option.map Prod.snd _ = _
  split
  next hkey =>
    rw [get?, hkey]
    congr 1
    refine List.find?_congr fun entry hentry => ?_
    simp only [Function.comp]
    split
    next hold => simp [hold]
    next hold => simp [hold, hne entry hentry]
  next hkey =>
    split
    next hold =>
      rw [Option.map_eq_none_iff, List.find?_eq_none]
      intro entry hentry
      simp only [Function.comp]
      split
      next => simp [Ne.symm hkey]
      next hother => simp [hold, hother]
    next hold =>
      rw [get?]
      congr 1
      refine List.find?_congr fun entry hentry => ?_
      simp only [Function.comp]
      split
      next heq => simp [heq, Ne.symm hkey, Ne.symm hold]
      next => rfl

theorem mem_entries_of_get? {dict : Dict κ ν} {key : κ} {value : ν}
    (hget : dict.get? key = some value) : (key, value) ∈ dict.entries := by
  obtain ⟨entry, hfind, rfl⟩ := Option.map_eq_some_iff.mp hget
  obtain rfl : entry.1 = key := by simpa using List.find?_some hfind
  exact List.mem_of_find?_eq_some hfind

theorem mem_values_set {dict : Dict κ ν} {key : κ} {value other : ν}
    (hmem : other ∈ (dict.set key value).values) : other = value ∨ other ∈ dict.values := by
  obtain ⟨⟨found, other⟩, hentry, rfl⟩ := List.mem_map.mp hmem
  have hget := get?_of_mem_entries hentry
  rw [get?_set] at hget
  split at hget
  next => exact .inl (Option.some.inj hget).symm
  next => exact .inr (@List.mem_map_of_mem _ _ _ _ Prod.snd (mem_entries_of_get? hget))

theorem mem_values_iff {dict : Dict κ ν} {value : ν} :
    value ∈ dict.values ↔ ∃ key, dict.get? key = some value := by
  constructor
  · intro hmem
    obtain ⟨⟨key, value⟩, hentry, rfl⟩ := List.mem_map.mp hmem
    exact ⟨key, get?_of_mem_entries hentry⟩
  · rintro ⟨key, hget⟩
    exact @List.mem_map_of_mem _ _ _ _ Prod.snd (mem_entries_of_get? hget)

/-- Where no value occurs twice, a value has one key. -/
theorem eq_of_get?_eq {dict : Dict κ ν} (hnodup : dict.values.Nodup) {first second : κ}
    {value : ν} (hfirst : dict.get? first = some value) (hsecond : dict.get? second = some value) :
    first = second := by
  have hsame := List.inj_on_of_nodup_map hnodup (mem_entries_of_get? hfirst)
    (mem_entries_of_get? hsecond) rfl
  exact congrArg Prod.fst hsame

theorem values_set_of_get?_none {dict : Dict κ ν} {key : κ} (hnone : dict.get? key = none)
    (value : ν) : (dict.set key value).values = dict.values ++ [value] := by
  unfold set
  rw [dif_neg (get?_eq_none_iff.mp hnone)]
  exact List.map_append ..

theorem entries_eq_nil_of_get? {dict : Dict κ ν} (hnone : ∀ key, dict.get? key = none) :
    dict.entries = [] := by
  rw [List.eq_nil_iff_forall_not_mem]
  rintro ⟨key, value⟩ hmem
  have hget := get?_of_mem_entries hmem
  rw [hnone] at hget
  cases hget

/-- How many values have a property. -/
def countValues (dict : Dict κ ν) (property : ν → Bool) : Nat :=
  dict.entries.countP fun entry => property entry.2

theorem countValues_pos_iff {dict : Dict κ ν} {property : ν → Bool} :
    0 < dict.countValues property ↔ ∃ key value, dict.get? key = some value ∧ property value := by
  rw [countValues, List.countP_pos_iff]
  constructor
  · rintro ⟨⟨key, value⟩, hmem, hproperty⟩
    exact ⟨key, value, get?_of_mem_entries hmem, hproperty⟩
  · rintro ⟨key, value, hget, hproperty⟩
    exact ⟨(key, value), mem_entries_of_get? hget, hproperty⟩

theorem countP_erase_entry (entries : List (κ × ν)) (key : κ) (property : ν → Bool)
    (hnodup : (entries.map Prod.fst).Nodup) :
    entries.countP (fun entry => property entry.2) =
      (entries.filter fun entry => entry.1 ≠ key).countP (fun entry => property entry.2) +
        if (((entries.find? fun entry => entry.1 = key).map Prod.snd).any property) then 1
        else 0 := by
  induction entries with
  | nil => rfl
  | cons entry rest ih =>
      obtain ⟨hnew, hrest⟩ := List.nodup_cons.mp hnodup
      by_cases hentry : entry.1 = key
      · have hfilter : (rest.filter fun other => other.1 ≠ key) = rest := by
          refine List.filter_eq_self.mpr fun other hother => ?_
          have hne : other.1 ≠ key := fun heq =>
            hnew (hentry ▸ heq ▸ List.mem_map_of_mem hother)
          simpa using hne
        rw [List.filter_cons_of_neg (by simpa using hentry), hfilter, List.countP_cons,
          List.find?_cons_of_pos (by simpa using hentry)]
        simp
      · rw [List.filter_cons_of_pos (by simpa using hentry), List.countP_cons, List.countP_cons,
          List.find?_cons_of_neg (by simpa using hentry), ih hrest]
        omega

/-- One entry less. -/
theorem countValues_erase (dict : Dict κ ν) (key : κ) (property : ν → Bool) :
    dict.countValues property =
      (dict.erase key).countValues property +
        if (dict.get? key).any property then 1 else 0 :=
  countP_erase_entry dict.entries key property dict.nodup

theorem erase_set_entries (dict : Dict κ ν) (key : κ) (value : ν) :
    ((dict.set key value).erase key).entries = (dict.erase key).entries := by
  unfold set
  split
  · change (dict.entries.map fun entry =>
      if entry.1 = key then (key, value) else entry).filter (fun entry => entry.1 ≠ key) =
        dict.entries.filter fun entry => entry.1 ≠ key
    rw [List.filter_map]
    have hfilter : (dict.entries.filter ((fun entry : κ × ν => decide (entry.1 ≠ key)) ∘
        fun entry => if entry.1 = key then (key, value) else entry)) =
        dict.entries.filter fun entry => decide (entry.1 ≠ key) := by
      refine List.filter_congr fun entry _ => ?_
      by_cases hentry : entry.1 = key
      · simp [hentry]
      · simp [hentry]
    rw [hfilter]
    refine (List.map_congr_left fun entry hentry => ?_).trans (List.map_id _)
    have hne : entry.1 ≠ key := by simpa using List.of_mem_filter hentry
    exact if_neg hne
  · change (dict.entries ++ [(key, value)]).filter (fun entry => entry.1 ≠ key) =
      dict.entries.filter fun entry => entry.1 ≠ key
    rw [List.filter_append]
    simp

/-- One entry changed. -/
theorem countValues_set (dict : Dict κ ν) (key : κ) (value : ν) (property : ν → Bool) :
    (dict.set key value).countValues property + (if (dict.get? key).any property then 1 else 0) =
      dict.countValues property + if property value then 1 else 0 := by
  have hnew := countValues_erase (dict.set key value) key property
  have hold := countValues_erase dict key property
  rw [get?_set, if_pos rfl, Option.any_some] at hnew
  have hsame : ((dict.set key value).erase key).countValues property =
      (dict.erase key).countValues property := by
    rw [countValues, erase_set_entries, countValues]
  omega

/-- At most one entry differs. -/
structure Changed (before after : Dict κ ν) (key : κ) (value : Option ν) : Prop where
  elsewhere : ∀ other, other ≠ key → after.get? other = before.get? other
  here : after.get? key = value
  count : ∀ property : ν → Bool,
    after.countValues property + (if (before.get? key).any property then 1 else 0) =
      before.countValues property + if value.any property then 1 else 0

theorem changed_set (dict : Dict κ ν) (key : κ) (value : ν) :
    Changed dict (dict.set key value) key (some value) where
  elsewhere other hother := by rw [get?_set, if_neg hother]
  here := by rw [get?_set, if_pos rfl]
  count property := by
    rw [countValues_set, Option.any_some]

theorem changed_erase (dict : Dict κ ν) (key : κ) : Changed dict (dict.erase key) key none where
  elsewhere other hother := by rw [get?_erase, if_neg hother]
  here := by rw [get?_erase, if_pos rfl]
  count property := by
    rw [← countValues_erase, Option.any_none]
    simp

theorem changed_refl (dict : Dict κ ν) (key : κ) : Changed dict dict key (dict.get? key) where
  elsewhere _ _ := rfl
  here := rfl
  count _ := rfl

/-- The second change of an entry counts. -/
theorem Changed.of_set {dict after : Dict κ ν} {key : κ} {first : ν} {value : Option ν}
    (hchanged : Changed dict after key value) :
    Changed (dict.set key first) after key value where
  elsewhere other hother := by
    rw [hchanged.elsewhere other hother, get?_set, if_neg hother]
  here := hchanged.here
  count property := by
    have hafter := hchanged.count property
    have hset := countValues_set dict key first property
    rw [get?_set, if_pos rfl, Option.any_some]
    omega

theorem get?_setDefault (dict : Dict κ ν) (key : κ) (value : ν) (other : κ) :
    (dict.setDefault key value).get? other =
      if other = key then some ((dict.get? key).getD value) else dict.get? other := by
  unfold setDefault
  split
  next hsome =>
    obtain ⟨found, hfound⟩ := Option.isSome_iff_exists.mp hsome
    split
    next hsame => rw [hsame, hfound, Option.getD_some]
    next => rfl
  next hnone =>
    rw [Option.not_isSome_iff_eq_none] at hnone
    rw [get?_set, hnone, Option.getD_none]

theorem setDefault_of_isSome {dict : Dict κ ν} {key : κ} (hsome : (dict.get? key).isSome)
    (value : ν) : dict.setDefault key value = dict := if_pos hsome

/-- Setting entries that agree with each other. -/
theorem get?_foldl_set {entries : List (κ × ν)}
    (hagree : ∀ first ∈ entries, ∀ second ∈ entries, first.1 = second.1 → first = second)
    (dict : Dict κ ν) (key : κ) (value : ν) :
    (entries.foldl (fun dict entry => dict.set entry.1 entry.2) dict).get? key = some value ↔
      (key, value) ∈ entries ∨ key ∉ entries.map Prod.fst ∧ dict.get? key = some value := by
  induction entries generalizing dict with
  | nil => simp
  | cons entry rest ih =>
      rw [List.foldl_cons, ih fun first hfirst second hsecond =>
        hagree first (.tail _ hfirst) second (.tail _ hsecond), get?_set, List.map_cons,
        List.mem_cons, List.mem_cons, not_or]
      by_cases hsame : key = entry.1
      · have hentry : (key, value) = entry ↔ some entry.2 = some value := by
          rw [Prod.ext_iff, Option.some.injEq]
          exact (and_iff_right hsame).trans eq_comm
        rw [if_pos hsame, ← hentry]
        constructor
        · rintro (hrest | ⟨-, heq⟩)
          · exact .inl (.inr hrest)
          · exact .inl (.inl heq)
        · rintro ((heq | hrest) | ⟨⟨hne, -⟩, -⟩)
          · by_cases hkey : key ∈ rest.map Prod.fst
            · obtain ⟨found, hfound, hkeyed⟩ := List.mem_map.mp hkey
              have hfirst := hagree found (.tail _ hfound) entry List.mem_cons_self
                (hkeyed.trans hsame)
              exact .inl (heq ▸ hfirst ▸ hfound)
            · exact .inr ⟨hkey, heq⟩
          · exact .inl hrest
          · exact absurd hsame hne
      · have hne : (key, value) ≠ entry := fun heq => hsame (congrArg Prod.fst heq)
        simp [hsame, hne]

end Dict

end ShuttleFlow
