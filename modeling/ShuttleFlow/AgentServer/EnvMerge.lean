import Mathlib.Data.List.GetD
import ShuttleFlow.AgentServer.EnvParser

/-! # Merging settings

The values of a JSON variable and those of the variables for its parts are merged. A list is
not made longer.
-/

namespace ShuttleFlow

open JsonType (getMissing getNone setItem ofEntries ofItems)

variable {Float : Type}

namespace JsonType

/-- A value like one of JSON. Marks for missing values are items of lists only. -/
inductive JsonLike : JsonType Float → Prop
  | none : JsonLike .none
  | bool (value : Bool) : JsonLike (.bool value)
  | int (value : Int) : JsonLike (.int value)
  | float (value : Float) : JsonLike (.float value)
  | str (value : EnvText) : JsonLike (.str value)
  | list {items : List (JsonType Float)}
      (hitems : ∀ item ∈ items, item ≠ .missing → JsonLike item) : JsonLike (.list items)
  | dict {entries : List (EnvText × JsonType Float)} (hkeys : (entries.map Prod.fst).Nodup)
      (hvalues : ∀ entry ∈ entries, JsonLike entry.2) : JsonLike (.dict entries)

/-- A way from a value to a part of it. -/
inductive Place
  | key (name : EnvText)
  | index (number : Nat)

/-- The part of a value at the end of a way, missing when there is none. -/
def part (value : JsonType Float) : List Place → JsonType Float
  | [] => value
  | .key name :: rest =>
      match value with
      | .dict entries => (getMissing entries name).part rest
      | _ => .missing
  | .index number :: rest =>
      match value with
      | .list items => (items.getD number .missing).part rest
      | _ => .missing

/-- No list of the second value is longer than the list of the first one at its place. -/
def Fits (a b : JsonType Float) : Prop :=
  ∀ places items updates, a.part places = .list items → b.part places = .list updates →
    updates.length ≤ items.length

/-- What merging two values should give. -/
structure MergesPointwise (a b : JsonType Float) : Prop where
  total : ∃ merged, merge a b = .ok merged
  missing_left : a = .missing → merge a b = .ok b
  missing_right : b = .missing → merge a b = .ok a
  objects : ∀ entries updates, a = .dict entries → b = .dict updates →
    ∃ result, merge a b = .ok (.dict result) ∧
      (∀ key, key ∈ result.map Prod.fst ↔
        key ∈ entries.map Prod.fst ∨ key ∈ updates.map Prod.fst) ∧
      ∀ key, merge (getMissing entries key) (getMissing updates key) =
        .ok (getMissing result key)
  lists : ∀ items updates, a = .list items → b = .list updates →
    ∃ result, merge a b = .ok (.list result) ∧
      result.length = max items.length updates.length ∧
      ∀ index, merge (items.getD index .missing) (updates.getD index .missing) =
        .ok (result.getD index .missing)

end JsonType

open JsonType

/-! ## Objects -/

theorem merge_missing_left (b : JsonType Float) : merge .missing b = .ok b := by
  cases b <;> rfl

theorem merge_missing_right (a : JsonType Float) : merge a .missing = .ok a := by
  cases a <;> rfl

/-- A key that is not there is taken for one without a value. -/
theorem merge_none_left {b : JsonType Float} (hpresent : b ≠ .missing) :
    merge .none b = .ok b := by
  cases b with
  | missing => exact absurd rfl hpresent
  | _ => rfl

theorem JsonType.JsonLike.ne_missing {value : JsonType Float} (hvalue : JsonLike value) :
    value ≠ .missing := by
  intro hmissing
  subst hmissing
  cases hvalue

theorem merge_getNone (entries : List (EnvText × JsonType Float)) (key : EnvText)
    {value : JsonType Float} (hpresent : value ≠ .missing) :
    merge (getNone entries key) value = merge (getMissing entries key) value := by
  unfold getNone getMissing
  cases Entries.get? entries key with
  | none => exact (merge_none_left hpresent).trans (merge_missing_left value).symm
  | some found => rfl

theorem getMissing_set (entries : List (EnvText × JsonType Float)) (key : EnvText)
    (value : JsonType Float) (other : EnvText) :
    getMissing (Entries.set entries key value) other =
      if other = key then value else getMissing entries other := by
  unfold getMissing
  rw [Entries.get?_set]
  split <;> rfl

theorem getMissing_cons (entry : EnvText × JsonType Float)
    (rest : List (EnvText × JsonType Float)) (key : EnvText) :
    getMissing (entry :: rest) key = if entry.1 = key then entry.2 else getMissing rest key := by
  unfold getMissing
  rw [Entries.get?_cons]
  split <;> rfl

theorem getMissing_of_notMem {entries : List (EnvText × JsonType Float)} {key : EnvText}
    (hnew : key ∉ entries.map Prod.fst) : getMissing entries key = .missing := by
  rw [getMissing, Entries.get?_eq_none_iff.mpr hnew]
  rfl

theorem getMissing_of_mem {entries : List (EnvText × JsonType Float)}
    (hkeys : (entries.map Prod.fst).Nodup) {entry : EnvText × JsonType Float}
    (hmem : entry ∈ entries) : getMissing entries entry.1 = entry.2 := by
  rw [getMissing, Entries.get?_of_mem hkeys hmem]
  rfl

/-- The updates can be made when each one can be merged with what is there at first. -/
theorem mergeEntries_cons (result : List (EnvText × JsonType Float)) (key : EnvText)
    (value : JsonType Float) (rest : List (EnvText × JsonType Float)) :
    mergeEntries result ((key, value) :: rest) =
      (merge (getNone result key) value).bind fun merged =>
        mergeEntries (Entries.set result key merged) rest := by
  rw [mergeEntries]
  rfl

theorem exists_mergeEntries_iff {updates : List (EnvText × JsonType Float)}
    (hkeys : (updates.map Prod.fst).Nodup) (hvalues : ∀ entry ∈ updates, entry.2 ≠ .missing)
    (entries : List (EnvText × JsonType Float)) :
    (∃ result, mergeEntries entries updates = .ok result) ↔
      ∀ entry ∈ updates, ∃ merged, merge (getMissing entries entry.1) entry.2 = .ok merged := by
  induction updates generalizing entries with
  | nil => simp [mergeEntries]
  | cons entry rest ih =>
      obtain ⟨key, value⟩ := entry
      rw [List.map_cons, List.nodup_cons] at hkeys
      have hrest : ∀ entry ∈ rest, entry.2 ≠ .missing :=
        fun entry hentry => hvalues entry (.tail _ hentry)
      rw [mergeEntries_cons, merge_getNone entries key (hvalues _ List.mem_cons_self),
        List.forall_mem_cons]
      cases hmerge : merge (getMissing entries key) value with
      | error error => simp [Except.bind]
      | ok merged =>
          have hother : ∀ entry ∈ rest, getMissing (Entries.set entries key merged) entry.1 =
              getMissing entries entry.1 := by
            intro entry hentry
            have hne : entry.1 ≠ key := by
              rintro rfl
              have hmem : entry.1 ∈ rest.map Prod.fst := List.mem_map_of_mem hentry
              exact hkeys.1 hmem
            rw [getMissing_set, if_neg hne]
          simp only [Except.bind, Except.ok.injEq, exists_eq', true_and]
          rw [ih hkeys.2 hrest]
          constructor
          · intro hall entry hentry
            rw [← hother entry hentry]
            exact hall entry hentry
          · intro hall entry hentry
            rw [hother entry hentry]
            exact hall entry hentry

/-- What the updates make of an object. -/
theorem of_mergeEntries {updates : List (EnvText × JsonType Float)}
    (hkeys : (updates.map Prod.fst).Nodup) (hvalues : ∀ entry ∈ updates, entry.2 ≠ .missing)
    {entries result : List (EnvText × JsonType Float)}
    (hmerge : mergeEntries entries updates = .ok result) :
    (∀ key, key ∈ result.map Prod.fst ↔
      key ∈ entries.map Prod.fst ∨ key ∈ updates.map Prod.fst) ∧
    ∀ key, merge (getMissing entries key) (getMissing updates key) =
      .ok (getMissing result key) := by
  induction updates generalizing entries with
  | nil =>
      rw [mergeEntries, Except.ok.injEq] at hmerge
      subst hmerge
      refine ⟨fun key => by simp, fun key => ?_⟩
      exact merge_missing_right _
  | cons entry rest ih =>
      obtain ⟨key, value⟩ := entry
      rw [List.map_cons, List.nodup_cons] at hkeys
      rw [mergeEntries_cons, merge_getNone entries key (hvalues _ List.mem_cons_self)] at hmerge
      cases hfirst : merge (getMissing entries key) value with
      | error error =>
          rw [hfirst] at hmerge
          cases hmerge
      | ok merged =>
          rw [hfirst] at hmerge
          obtain ⟨hmem, hparts⟩ :=
            ih hkeys.2 (fun entry hentry => hvalues entry (.tail _ hentry)) hmerge
          constructor
          · intro other
            rw [hmem, Entries.mem_keys_set, List.map_cons, List.mem_cons]
            tauto
          · intro other
            have hother := hparts other
            rw [getMissing_set] at hother
            by_cases hsame : other = key
            · rw [if_pos hsame, hsame, getMissing_of_notMem hkeys.1, merge_missing_right] at hother
              rw [hsame, getMissing_cons, if_pos rfl, ← hother]
              exact hfirst
            · rw [if_neg hsame] at hother
              rw [getMissing_cons, if_neg (Ne.symm hsame)]
              exact hother

/-! ## Lists -/

theorem mergeItems_cons_of_lt {items : List (JsonType Float)} {index : Nat}
    (hbound : index < items.length) (value : JsonType Float) (rest : List (JsonType Float)) :
    mergeItems items.length items index (value :: rest) =
      (merge (items.getD index .missing) value).bind fun merged =>
        mergeItems items.length (items.set index merged) (index + 1) rest := by
  rw [mergeItems, if_neg (Nat.not_le.mpr hbound)]
  cases merge (items.getD index .missing) value with
  | error error => rfl
  | ok merged =>
      simp only [bind, Except.bind, setItem]
      rw [if_pos hbound]

/-- An item behind the last one is never put there. -/
theorem mergeItems_cons_of_le {items : List (JsonType Float)} {index : Nat}
    (hbound : items.length ≤ index) (value : JsonType Float) (rest : List (JsonType Float)) :
    mergeItems items.length items index (value :: rest) = .error .index := by
  rw [mergeItems, if_pos hbound, setItem, if_neg (Nat.not_lt.mpr hbound)]
  rfl

theorem getD_set {items : List (JsonType Float)} {index : Nat} (hbound : index < items.length)
    (value : JsonType Float) (number : Nat) :
    (items.set index value).getD number .missing =
      if number = index then value else items.getD number .missing := by
  rw [List.getD_eq_getElem?_getD, List.getElem?_set]
  by_cases hsame : index = number
  · subst hsame
    simp [hbound]
  · simp [hsame, Ne.symm hsame]

/-- What the updates from one index on make of a list: they go to items that are there. -/
theorem of_mergeItems {items result : List (JsonType Float)} {index : Nat}
    {updates : List (JsonType Float)} (hbound : index ≤ items.length)
    (hmerge : mergeItems items.length items index updates = .ok result) :
    result.length = items.length ∧ index + updates.length ≤ items.length ∧
      (∀ number < index, result.getD number .missing = items.getD number .missing) ∧
      ∀ number, merge (items.getD (index + number) .missing) (updates.getD number .missing) =
        .ok (result.getD (index + number) .missing) := by
  induction updates generalizing items index with
  | nil =>
      rw [mergeItems, Except.ok.injEq] at hmerge
      subst hmerge
      exact ⟨rfl, hbound, fun _ _ => rfl, fun _ => merge_missing_right _⟩
  | cons value rest ih =>
      rcases Nat.lt_or_ge index items.length with hinside | houtside
      · rw [mergeItems_cons_of_lt hinside] at hmerge
        cases hfirst : merge (items.getD index .missing) value with
        | error error =>
            rw [hfirst] at hmerge
            cases hmerge
        | ok merged =>
            rw [hfirst] at hmerge
            have hlength : (items.set index merged).length = items.length := List.length_set
            have hmerge : mergeItems (items.set index merged).length (items.set index merged)
                (index + 1) rest = .ok result := by
              rw [hlength]
              exact hmerge
            obtain ⟨hsize, hroom, hbefore, hbehind⟩ := ih (by omega) hmerge
            refine ⟨hsize.trans hlength, by rw [List.length_cons]; omega, ?_, ?_⟩
            · intro number hnumber
              rw [hbefore number (by omega), getD_set hinside, if_neg (by omega)]
            · intro number
              cases number with
              | zero =>
                  have hput := hbefore index (Nat.lt_succ_self index)
                  rw [getD_set hinside, if_pos rfl] at hput
                  rw [Nat.add_zero, hput]
                  exact hfirst
              | succ number =>
                  have hrest := hbehind number
                  rw [getD_set hinside, if_neg (by omega)] at hrest
                  rw [List.getD_cons_succ, show index + (number + 1) = index + 1 + number by omega]
                  exact hrest
      · rw [mergeItems_cons_of_le houtside] at hmerge
        cases hmerge

theorem exists_mergeItems {items : List (JsonType Float)} {index : Nat}
    {updates : List (JsonType Float)} (hbound : index + updates.length ≤ items.length)
    (hmerges : ∀ number, ∃ merged, merge (items.getD (index + number) .missing)
      (updates.getD number .missing) = .ok merged) :
    ∃ result, mergeItems items.length items index updates = .ok result := by
  induction updates generalizing items index with
  | nil => exact ⟨items, rfl⟩
  | cons value rest ih =>
      rw [List.length_cons] at hbound
      have hinside : index < items.length := by omega
      obtain ⟨merged, hfirst⟩ := hmerges 0
      rw [Nat.add_zero, List.getD_cons_zero] at hfirst
      rw [mergeItems_cons_of_lt hinside, hfirst]
      have hlength : (items.set index merged).length = items.length := List.length_set
      have hrest : ∀ number, ∃ next, merge ((items.set index merged).getD (index + 1 + number)
          .missing) (rest.getD number .missing) = .ok next := by
        intro number
        have hnext := hmerges (number + 1)
        rw [List.getD_cons_succ, show index + (number + 1) = index + 1 + number by omega] at hnext
        rw [getD_set hinside, if_neg (by omega)]
        exact hnext
      obtain ⟨result, hresult⟩ := ih (by omega) hrest
      rw [hlength] at hresult
      exact ⟨result, hresult⟩

/-! ## Values that can be merged -/

/-- Two values without parts in common have no lists at the same place. -/
theorem fits_of_kinds {a b : JsonType Float}
    (hobjects : ∀ entries updates, a = .dict entries → b ≠ .dict updates)
    (hlists : ∀ items updates, a = .list items → b ≠ .list updates) : Fits a b := by
  intro places items updates hitems hupdates
  cases places with
  | nil => exact absurd hupdates (hlists items updates hitems)
  | cons place rest =>
      cases place with
      | key name =>
          cases a with
          | dict entries =>
              cases b with
              | dict updates => exact absurd rfl (hobjects entries updates rfl)
              | _ => cases hupdates
          | _ => cases hitems
      | index number =>
          cases a with
          | list items =>
              cases b with
              | list updates => exact absurd rfl (hlists items updates rfl)
              | _ => cases hupdates
          | _ => cases hitems

theorem fits_missing_right (a : JsonType Float) : Fits a .missing := by
  apply fits_of_kinds
  · intro entries updates _ hupdates
    cases hupdates
  · intro items updates _ hupdates
    cases hupdates

theorem fits_dict_iff {entries updates : List (EnvText × JsonType Float)} :
    Fits (.dict entries) (.dict updates) ↔
      ∀ key, Fits (getMissing entries key) (getMissing updates key) := by
  constructor
  · intro hfits key places items found hitems hfound
    exact hfits (.key key :: places) items found hitems hfound
  · intro hfits places items found hitems hfound
    cases places with
    | nil => cases hitems
    | cons place rest =>
        cases place with
        | key name => exact hfits name rest items found hitems hfound
        | index number => cases hitems

theorem fits_list_iff {items updates : List (JsonType Float)} :
    Fits (.list items) (.list updates) ↔ updates.length ≤ items.length ∧
      ∀ index, Fits (items.getD index .missing) (updates.getD index .missing) := by
  constructor
  · intro hfits
    refine ⟨hfits [] items updates rfl rfl, ?_⟩
    intro index places found newer hfound hnewer
    exact hfits (.index index :: places) found newer hfound hnewer
  · rintro ⟨hlength, hfits⟩ places found newer hfound hnewer
    cases places with
    | nil =>
        cases hfound
        cases hnewer
        exact hlength
    | cons place rest =>
        cases place with
        | key name => cases hfound
        | index number => exact hfits number rest found newer hfound hnewer

theorem merge_dict (entries updates : List (EnvText × JsonType Float)) :
    merge (.dict entries) (.dict updates) = (mergeEntries entries updates).map .dict := by
  rw [merge]

theorem merge_list (items updates : List (JsonType Float)) :
    merge (.list items) (.list updates) =
      (mergeItems items.length items 0 updates).map .list := by
  rw [merge]

theorem exists_map_iff {α β : Type} {f : α → β} {parsed : Except EnvError α} :
    (∃ value, parsed.map f = .ok value) ↔ ∃ value, parsed = .ok value := by
  cases parsed <;> simp [Except.map]

/-- An object takes updates whose values fit what it has under their keys. -/
theorem exists_merge_dict_iff {updates : List (EnvText × JsonType Float)}
    (hkeys : (updates.map Prod.fst).Nodup) (hvalues : ∀ entry ∈ updates, JsonLike entry.2)
    (ih : ∀ entry ∈ updates, ∀ a, (∃ merged, merge a entry.2 = .ok merged) ↔ Fits a entry.2)
    (entries : List (EnvText × JsonType Float)) :
    (∃ merged, merge (.dict entries) (.dict updates) = .ok merged) ↔
      Fits (.dict entries) (.dict updates) := by
  have hpresent : ∀ entry ∈ updates, entry.2 ≠ .missing :=
    fun entry hentry => (hvalues entry hentry).ne_missing
  rw [merge_dict, exists_map_iff, exists_mergeEntries_iff hkeys hpresent, fits_dict_iff]
  constructor
  · intro hmerges key
    by_cases hkey : key ∈ updates.map Prod.fst
    · obtain ⟨entry, hentry, rfl⟩ := List.mem_map.mp hkey
      rw [getMissing_of_mem hkeys hentry]
      exact (ih entry hentry _).mp (hmerges entry hentry)
    · rw [getMissing_of_notMem hkey]
      exact fits_missing_right _
  · intro hfits entry hentry
    have hfit := hfits entry.1
    rw [getMissing_of_mem hkeys hentry] at hfit
    exact (ih entry hentry _).mpr hfit

theorem exists_merge_list_iff {updates : List (JsonType Float)}
    (ih : ∀ item ∈ updates, item ≠ .missing →
      ∀ a, (∃ merged, merge a item = .ok merged) ↔ Fits a item)
    (items : List (JsonType Float)) :
    (∃ merged, merge (.list items) (.list updates) = .ok merged) ↔
      Fits (.list items) (.list updates) := by
  have hitem : ∀ index a, (∃ merged, merge a (updates.getD index .missing) = .ok merged) ↔
      Fits a (updates.getD index .missing) := by
    intro index a
    by_cases hmissing : updates.getD index .missing = .missing
    · rw [hmissing, merge_missing_right]
      exact ⟨fun _ => fits_missing_right a, fun _ => ⟨a, rfl⟩⟩
    · rcases Nat.lt_or_ge index updates.length with hlt | hge
      · rw [List.getD_eq_getElem _ _ hlt] at hmissing ⊢
        exact ih _ (List.getElem_mem hlt) hmissing a
      · exact absurd (List.getD_eq_default _ _ hge) hmissing
  rw [merge_list, exists_map_iff, fits_list_iff]
  constructor
  · rintro ⟨result, hresult⟩
    obtain ⟨-, hroom, -, hmerges⟩ := of_mergeItems (Nat.zero_le _) hresult
    refine ⟨by omega, fun index => (hitem index _).mp ?_⟩
    have hmerged := hmerges index
    rw [Nat.zero_add] at hmerged
    exact ⟨_, hmerged⟩
  · rintro ⟨hlength, hfits⟩
    apply exists_mergeItems (by omega)
    intro number
    rw [Nat.zero_add]
    exact (hitem number _).mpr (hfits number)

/-- Values of different kinds are merged without a look at their parts. -/
theorem exists_merge_of_kinds {a b : JsonType Float}
    (hobjects : ∀ entries updates, a = .dict entries → b ≠ .dict updates)
    (hlists : ∀ items updates, a = .list items → b ≠ .list updates) :
    ∃ merged, merge a b = .ok merged := by
  cases a with
  | dict entries =>
      cases b with
      | dict updates => exact absurd rfl (hobjects entries updates rfl)
      | _ => exact ⟨_, rfl⟩
  | list items =>
      cases b with
      | list updates => exact absurd rfl (hlists items updates rfl)
      | _ => exact ⟨_, rfl⟩
  | _ => cases b <;> exact ⟨_, rfl⟩

theorem exists_merge_iff {b : JsonType Float} (hb : JsonLike b) (a : JsonType Float) :
    (∃ merged, merge a b = .ok merged) ↔ Fits a b := by
  have hkinds : ∀ {a b : JsonType Float},
      (∀ entries updates, a = .dict entries → b ≠ .dict updates) →
      (∀ items updates, a = .list items → b ≠ .list updates) →
      ((∃ merged, merge a b = .ok merged) ↔ Fits a b) :=
    fun hobjects hlists =>
      iff_of_true (exists_merge_of_kinds hobjects hlists) (fits_of_kinds hobjects hlists)
  induction hb generalizing a with
  | dict hkeys hvalues ih =>
      cases a with
      | dict entries => exact exists_merge_dict_iff hkeys hvalues ih entries
      | _ => apply hkinds <;> simp
  | list hitems ih =>
      cases a with
      | list items => exact exists_merge_list_iff ih items
      | _ => apply hkinds <;> simp
  | _ => apply hkinds <;> simp

/-- The same where there may be nothing to merge with. -/
theorem exists_merge_iff_fits (a : JsonType Float) {b : JsonType Float}
    (hb : b ≠ .missing → JsonLike b) : (∃ merged, merge a b = .ok merged) ↔ Fits a b := by
  by_cases hmissing : b = .missing
  · rw [hmissing]
    exact iff_of_true ⟨a, merge_missing_right a⟩ (fits_missing_right a)
  · exact exists_merge_iff (hb hmissing) a

/-- Merging gives what it should exactly when no list would have to grow. -/
theorem mergesPointwise_iff (a : JsonType Float) {b : JsonType Float}
    (hb : b ≠ .missing → JsonLike b) : MergesPointwise a b ↔ Fits a b := by
  constructor
  · intro hmerges
    exact (exists_merge_iff_fits a hb).mp hmerges.total
  · intro hfits
    obtain ⟨merged, hmerged⟩ := (exists_merge_iff_fits a hb).mpr hfits
    constructor
    · exact ⟨merged, hmerged⟩
    · rintro rfl
      exact merge_missing_left b
    · rintro rfl
      exact merge_missing_right a
    · rintro entries updates rfl rfl
      have hlike := hb (by simp)
      rw [merge_dict] at hmerged ⊢
      cases hlike with
      | dict hkeys hvalues =>
          cases hentries : mergeEntries entries updates with
          | error error =>
              rw [hentries] at hmerged
              cases hmerged
          | ok result =>
              exact ⟨result, rfl, of_mergeEntries hkeys
                (fun entry hentry => (hvalues entry hentry).ne_missing) hentries⟩
    · rintro items updates rfl rfl
      rw [merge_list] at hmerged ⊢
      cases hitems : mergeItems items.length items 0 updates with
      | error error =>
          rw [hitems] at hmerged
          cases hmerged
      | ok result =>
          obtain ⟨hlength, hroom, -, hmerges⟩ := of_mergeItems (Nat.zero_le _) hitems
          refine ⟨result, rfl, by omega, fun index => ?_⟩
          have hmerge := hmerges index
          rw [Nat.zero_add] at hmerge
          exact hmerge

end ShuttleFlow
