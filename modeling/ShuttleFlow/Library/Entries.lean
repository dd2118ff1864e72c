import Mathlib.Data.List.Induction
import Mathlib.Data.List.Nodup

/-! # Entries that are written one after the other

The entries of a dictionary under construction. A key that is written again keeps its
place and gets the new value.
-/

namespace ShuttleFlow.Entries

open scoped List

variable {κ κ' ν ν' : Type} [DecidableEq κ] [DecidableEq κ']

def set : List (κ × ν) → κ → ν → List (κ × ν)
  | [], key, value => [(key, value)]
  | entry :: rest, key, value =>
      if entry.1 = key then (key, value) :: rest else entry :: set rest key value

def get? (entries : List (κ × ν)) (key : κ) : Option ν :=
  (entries.find? fun entry => decide (entry.1 = key)).map Prod.snd

/-- The dictionary that a comprehension builds. -/
def build (entries : List (κ × ν)) : List (κ × ν) :=
  entries.foldl (fun built entry => set built entry.1 entry.2) []

/-! ## What is found under a key -/

@[simp] theorem get?_nil (key : κ) : get? ([] : List (κ × ν)) key = none := rfl

theorem get?_cons (entry : κ × ν) (rest : List (κ × ν)) (key : κ) :
    get? (entry :: rest) key = if entry.1 = key then some entry.2 else get? rest key := by
  by_cases hsame : entry.1 = key <;> simp [get?, hsame]

theorem get?_eq_none_iff {entries : List (κ × ν)} {key : κ} :
    get? entries key = none ↔ key ∉ entries.map Prod.fst := by
  induction entries with
  | nil => simp
  | cons entry rest ih =>
      rw [get?_cons]
      by_cases hsame : entry.1 = key
      · simp [hsame]
      · simp [hsame, Ne.symm hsame, ih]

theorem mem_of_get?_eq_some {entries : List (κ × ν)} {key : κ} {value : ν}
    (hget : get? entries key = some value) : (key, value) ∈ entries := by
  induction entries with
  | nil => cases hget
  | cons entry rest ih =>
      rw [get?_cons] at hget
      split at hget
      next hsame =>
        cases hget
        rw [← hsame]
        exact List.mem_cons_self
      next => exact List.mem_cons_of_mem _ (ih hget)

theorem get?_of_mem {entries : List (κ × ν)} (hnodup : (entries.map Prod.fst).Nodup)
    {entry : κ × ν} (hmem : entry ∈ entries) : get? entries entry.1 = some entry.2 := by
  induction entries with
  | nil => cases hmem
  | cons first rest ih =>
      rw [List.map_cons, List.nodup_cons] at hnodup
      rw [get?_cons]
      rcases List.mem_cons.mp hmem with rfl | hrest
      · exact if_pos rfl
      · have hne : first.1 ≠ entry.1 := fun heq => hnodup.1 (heq ▸ List.mem_map_of_mem hrest)
        rw [if_neg hne]
        exact ih hnodup.2 hrest

theorem get?_set (entries : List (κ × ν)) (key : κ) (value : ν) (other : κ) :
    get? (set entries key value) other = if other = key then some value else get? entries other := by
  induction entries with
  | nil =>
      rw [set, get?_cons]
      simp only [eq_comm, get?_nil]
  | cons entry rest ih =>
      by_cases hsame : entry.1 = key
      · by_cases hother : other = key
        · simp [set, get?_cons, hsame, hother]
        · simp [set, get?_cons, hsame, hother, Ne.symm hother]
      · by_cases hother : entry.1 = other
        · have hne : other ≠ key := hother ▸ hsame
          simp [set, get?_cons, hother, hne]
        · simp [set, get?_cons, hsame, hother, ih]

/-! ## Writing -/

theorem build_snoc (entries : List (κ × ν)) (entry : κ × ν) :
    build (entries ++ [entry]) = set (build entries) entry.1 entry.2 := by
  rw [build, List.foldl_append]
  rfl

/-- A key is new, or its value is replaced. -/
theorem set_cases (entries : List (κ × ν)) (key : κ) (value : ν) :
    (key ∉ entries.map Prod.fst ∧ set entries key value = entries ++ [(key, value)]) ∨
      ∃ before old after, entries = before ++ (key, old) :: after ∧
        key ∉ before.map Prod.fst ∧ set entries key value = before ++ (key, value) :: after := by
  induction entries with
  | nil => exact .inl ⟨List.not_mem_nil, rfl⟩
  | cons entry rest ih =>
      by_cases hsame : entry.1 = key
      · exact .inr ⟨[], entry.2, rest, by rw [← hsame]; rfl, List.not_mem_nil, if_pos hsame⟩
      · have hhead : set (entry :: rest) key value = entry :: set rest key value := if_neg hsame
        rw [hhead]
        rcases ih with ⟨hnew, hset⟩ | ⟨before, old, after, hrest, hbefore, hset⟩
        · refine .inl ⟨?_, by rw [hset, List.cons_append]⟩
          rw [List.map_cons, List.mem_cons]
          exact fun hmem => hmem.elim (fun heq => hsame heq.symm) hnew
        · refine .inr ⟨entry :: before, old, after, by rw [hrest, List.cons_append], ?_,
            by rw [hset, List.cons_append]⟩
          rw [List.map_cons, List.mem_cons]
          exact fun hmem => hmem.elim (fun heq => hsame heq.symm) hbefore

theorem mem_set {entries : List (κ × ν)} {key : κ} {value : ν} {entry : κ × ν}
    (hmem : entry ∈ set entries key value) : entry = (key, value) ∨ entry ∈ entries := by
  rcases set_cases entries key value with ⟨-, hset⟩ | ⟨before, old, after, hentries, -, hset⟩
  · rw [hset, List.mem_append, List.mem_singleton] at hmem
    exact hmem.symm
  · rw [hset] at hmem
    rw [hentries]
    simp only [List.mem_append, List.mem_cons] at hmem ⊢
    tauto

theorem nodup_keys_set {entries : List (κ × ν)} (hnodup : (entries.map Prod.fst).Nodup) (key : κ)
    (value : ν) : ((set entries key value).map Prod.fst).Nodup := by
  rcases set_cases entries key value with ⟨hnew, hset⟩ | ⟨before, old, after, hentries, -, hset⟩
  · rw [hset, List.map_append, List.map_singleton, List.nodup_append]
    refine ⟨hnodup, List.nodup_singleton _, ?_⟩
    rintro found hfound other hother rfl
    rw [List.mem_singleton.mp hother] at hfound
    exact hnew hfound
  · rw [hset]
    rw [hentries] at hnodup
    simpa only [List.map_append, List.map_cons] using hnodup

theorem set_set (entries : List (κ × ν)) (key : κ) (value value' : ν) :
    set (set entries key value) key value' = set entries key value' := by
  induction entries with
  | nil => exact if_pos rfl
  | cons entry rest ih =>
      by_cases hsame : entry.1 = key
      · simp [set, hsame]
      · simp [set, hsame, ih]

theorem mem_keys_set {entries : List (κ × ν)} {key key' : κ} {value : ν} :
    key' ∈ (set entries key value).map Prod.fst ↔ key' = key ∨ key' ∈ entries.map Prod.fst := by
  induction entries with
  | nil => simp [set]
  | cons entry rest ih =>
      by_cases hsame : entry.1 = key
      · simp [set, hsame]
      · simp [set, hsame, ih, or_left_comm]

/-- A key that has its place can be written before or after another one. -/
theorem set_comm {entries : List (κ × ν)} {key key' : κ} (value value' : ν)
    (hmem : key ∈ entries.map Prod.fst) (hne : key ≠ key') :
    set (set entries key value) key' value' = set (set entries key' value') key value := by
  induction entries with
  | nil => cases hmem
  | cons entry rest ih =>
      by_cases hsame : entry.1 = key
      · subst hsame
        simp [set, hne]
      · have hrest : key ∈ rest.map Prod.fst := by
          rw [List.map_cons, List.mem_cons] at hmem
          exact hmem.resolve_left fun heq => hsame heq.symm
        by_cases hsame' : entry.1 = key'
        · subst hsame'
          simp [set, hsame]
        · simp [set, hsame, hsame', ih hrest]

theorem foldl_set_comm (entries : List (κ × ν)) {built : List (κ × ν)} {key : κ} (value : ν)
    (hmem : key ∈ built.map Prod.fst) (hkey : key ∉ entries.map Prod.fst) :
    entries.foldl (fun built entry => set built entry.1 entry.2) (set built key value) =
      set (entries.foldl (fun built entry => set built entry.1 entry.2) built) key value := by
  induction entries generalizing built with
  | nil => rfl
  | cons entry rest ih =>
      rw [List.map_cons, List.mem_cons, not_or] at hkey
      rw [List.foldl_cons, List.foldl_cons, set_comm value entry.2 hmem hkey.1]
      exact ih (mem_keys_set.mpr (.inr hmem)) hkey.2

/-- A value that no later entry overwrites may as well be written last. -/
theorem build_replace (before after : List (κ × ν)) (key : κ) (old value : ν)
    (hafter : key ∉ after.map Prod.fst) :
    build (before ++ (key, value) :: after) =
      set (build (before ++ (key, old) :: after)) key value := by
  have hmem : key ∈ (set (build before) key old).map Prod.fst := mem_keys_set.mpr (.inl rfl)
  have hreplace := foldl_set_comm after value hmem hafter
  rw [set_set] at hreplace
  rw [build, build, List.foldl_append, List.foldl_append, List.foldl_cons, List.foldl_cons]
  exact hreplace

theorem keys_build_sublist (entries : List (κ × ν)) :
    (build entries).map Prod.fst <+ entries.map Prod.fst := by
  induction entries using List.reverseRecOn with
  | nil => exact List.Sublist.refl _
  | append_singleton entries entry ih =>
      rw [build_snoc, List.map_append]
      rcases set_cases (build entries) entry.1 entry.2 with
        ⟨-, hset⟩ | ⟨before, old, after, hbuilt, -, hset⟩
      · rw [hset, List.map_append]
        exact ih.append (List.Sublist.refl _)
      · rw [hbuilt, List.map_append, List.map_cons] at ih
        rw [hset, List.map_append, List.map_cons]
        exact ih.trans (List.sublist_append_left _ _)

theorem nodup_keys_build (entries : List (κ × ν)) : ((build entries).map Prod.fst).Nodup := by
  induction entries using List.reverseRecOn with
  | nil => exact List.nodup_nil
  | append_singleton entries entry ih =>
      rw [build_snoc]
      rcases set_cases (build entries) entry.1 entry.2 with
        ⟨hnew, hset⟩ | ⟨before, old, after, hbuilt, -, hset⟩
      · rw [hset, List.map_append, List.map_singleton]
        exact List.nodup_append.mpr ⟨ih, List.nodup_singleton _, fun key hkey other hother hsame =>
          hnew (List.mem_singleton.mp hother ▸ hsame ▸ hkey)⟩
      · rw [hbuilt, List.map_append, List.map_cons] at ih
        rw [hset, List.map_append, List.map_cons]
        exact ih

section Renaming

variable {α β : Type} {first : α → κ} {final : α → κ'}

/-- Between two keys of one first name stands no key of another first name that has the
same final name. -/
def Unmixed (first : α → κ) (final : α → κ') (keys : List α) : Prop :=
  ∀ before one between two after, keys = before ++ one :: between ++ two :: after →
    first one = first two → ∀ other ∈ between, final other = final two → first other = first two

omit [DecidableEq κ] [DecidableEq κ'] in
theorem Unmixed.initial {keys : List α} {key : α} (hunmixed : Unmixed first final (keys ++ [key])) :
    Unmixed first final keys := fun before one between two after hkeys hsame other hother hfinal =>
  hunmixed before one between two (after ++ [key])
    (by rw [hkeys, List.append_assoc, List.cons_append]) hsame other hother hfinal

omit [DecidableEq κ] [DecidableEq κ'] in
theorem unmixed_of_nodup {keys : List α} (hnodup : (keys.map first).Nodup) :
    Unmixed first final keys := by
  intro before one between two after hkeys hsame
  rw [hkeys, List.map_append, List.map_append, List.map_cons, List.map_cons] at hnodup
  refine absurd hsame ((List.nodup_append.mp hnodup).2.2 _ ?_ _ List.mem_cons_self)
  exact List.mem_append_right _ List.mem_cons_self

omit [DecidableEq κ] in
theorem exists_of_pair_sublist {keys : List α} {name other : κ}
    (hsub : [name, other] <+ keys.map first) :
    ∃ before one rest two, keys = before ++ one :: rest ∧ two ∈ rest ∧ first one = name ∧
      first two = other := by
  obtain ⟨left, right, hkeys, hleft, hright⟩ := List.cons_sublist_iff.mp hsub
  obtain ⟨left', right', rfl, rfl, rfl⟩ := List.map_eq_append_iff.mp hkeys
  obtain ⟨one, hone, rfl⟩ := List.mem_map.mp hleft
  obtain ⟨two, htwo, rfl⟩ := List.mem_map.mp (List.singleton_sublist.mp hright)
  obtain ⟨before, rest, rfl⟩ := List.append_of_mem hone
  exact ⟨before, one, rest ++ right', two, by rw [List.append_assoc, List.cons_append],
    List.mem_append_right _ htwo, rfl, rfl⟩

/-- Keys may be renamed in two steps. -/
theorem build_build (entries : List (α × β)) {value : β → ν} {rename : κ → κ'} {revalue : ν → ν'}
    {finalValue : β → ν'} (hunmixed : Unmixed first final (entries.map Prod.fst))
    (hrename : ∀ entry ∈ entries, rename (first entry.1) = final entry.1)
    (hrevalue : ∀ entry ∈ entries, revalue (value entry.2) = finalValue entry.2) :
    build ((build (entries.map fun entry => (first entry.1, value entry.2))).map
        fun entry => (rename entry.1, revalue entry.2)) =
      build (entries.map fun entry => (final entry.1, finalValue entry.2)) := by
  induction entries using List.reverseRecOn with
  | nil => rfl
  | append_singleton entries entry ih =>
      rw [List.map_append, List.map_singleton] at hunmixed
      rw [List.forall_mem_append, List.forall_mem_singleton] at hrename hrevalue
      have hearlier := ih hunmixed.initial hrename.1 hrevalue.1
      rw [List.map_append, List.map_singleton, build_snoc, List.map_append, List.map_singleton,
        build_snoc, ← hearlier, ← hrename.2, ← hrevalue.2]
      generalize hbuilt : build (entries.map fun entry => (first entry.1, value entry.2)) = built
      rcases set_cases built (first entry.1) (value entry.2) with
        ⟨-, hset⟩ | ⟨before, old, after, hsplit, hbefore, hset⟩
      · rw [hset, List.map_append, List.map_singleton, build_snoc]
      rw [hset, hsplit, List.map_append, List.map_append, List.map_cons, List.map_cons]
      refine build_replace _ _ _ _ _ fun hmem => ?_
      -- A key that came after the first one of this name would be mixed with it.
      rw [List.map_map, List.mem_map] at hmem
      obtain ⟨⟨other, otherValue⟩, hother, hsame⟩ := hmem
      have hkeys := keys_build_sublist (entries.map fun entry => (first entry.1, value entry.2))
      have hnodup := nodup_keys_build (entries.map fun entry => (first entry.1, value entry.2))
      rw [hbuilt, hsplit, List.map_append, List.map_cons] at hkeys hnodup
      have hother' : other ∈ after.map Prod.fst := List.mem_map.mpr ⟨_, hother, rfl⟩
      have hpair : [first entry.1, other] <+ (entries.map Prod.fst).map first := by
        rw [List.map_map] at hkeys ⊢
        refine List.Sublist.trans ?_ ((List.sublist_append_right _ _).trans hkeys)
        exact (List.singleton_sublist.mpr hother').cons_cons _
      obtain ⟨earlier, one, rest, two, hentries, htwo, hone, htwo'⟩ := exists_of_pair_sublist hpair
      have hfinal : final two = final entry.1 := by
        have hmemTwo : two ∈ entries.map Prod.fst := by
          rw [hentries]
          exact List.mem_append_right _ (List.mem_cons_of_mem _ htwo)
        obtain ⟨found, hfound, rfl⟩ := List.mem_map.mp hmemTwo
        rw [← hrename.1 found hfound, htwo', ← hrename.2]
        exact hsame
      have hfirst := hunmixed earlier one rest entry.1 []
        (by rw [hentries, List.append_assoc]) hone two htwo hfinal
      refine (List.nodup_cons.mp (List.nodup_append.mp hnodup).2.1).1 ?_
      rw [← hfirst, htwo']
      exact hother'

end Renaming

end ShuttleFlow.Entries
