import ShuttleFlow.AgentServer.EnvValues

/-! # Settings with overrides for their parts

The fields of a model that is given as JSON are overridden by variables of their own, as long
as no list has to grow.
-/

namespace ShuttleFlow

open JsonType (JsonLike Regular MergesPointwise Fits getMissing ofEntries isMissing_iff)

variable {Float : Type}

namespace EnvHost

variable {host : EnvHost Float}

/-! ## Fields of a model -/

/-- A field is merged with what there is of it. -/
theorem overrideField_some (base : List (EnvText × JsonType Float)) (name : EnvText)
    {value : JsonType Float} (hpresent : value ≠ .missing) :
    overrideField (some base) name value =
      (merge (getMissing base name) value).map fun merged => some (Entries.set base name merged) := by
  unfold overrideField
  rw [if_neg fun hmissing => hpresent (isMissing_iff.mp hmissing), Option.getD_some]
  cases hmerge : merge (getMissing base name) value with
  | error error => rfl
  | ok merged =>
      have hmerged : ¬merged.isMissing = true := fun hmissing =>
        merge_ne_missing_right hmerge hpresent (isMissing_iff.mp hmissing)
      exact if_neg hmerged

theorem overrideField_of_merge {base : List (EnvText × JsonType Float)} {name : EnvText}
    {value merged : JsonType Float} (hmerge : merge (getMissing base name) value = .ok merged) :
    ∃ next, overrideField (some base) name value = .ok (some next) ∧
      ∀ other, getMissing next other = if other = name then merged else getMissing base other := by
  by_cases hmissing : value = .missing
  · rw [hmissing, merge_missing_right] at hmerge
    refine ⟨base, by rw [hmissing]; rfl, fun other => ?_⟩
    split
    next heq => rw [heq, Except.ok.inj hmerge]
    next => rfl
  · refine ⟨Entries.set base name merged, ?_, getMissing_set base name merged⟩
    rw [overrideField_some base name hmissing, hmerge]
    rfl

/-- What overriding the fields gives: each one is merged with its value, and no other is
changed. -/
def Overridden (base result : List (EnvText × JsonType Float)) (names : List EnvText)
    (values : EnvText → JsonType Float) : Prop :=
  (∀ name ∈ names, merge (getMissing base name) (values name) = .ok (getMissing result name)) ∧
    ∀ name ∉ names, getMissing result name = getMissing base name

theorem overrideFields_of_fits {read : EnvParser → EnvText → Parsed (JsonType Float)}
    {key : EnvText} {fields : List (EnvText × EnvParser)} {values : EnvText → JsonType Float}
    (hnames : (fields.map Prod.fst).Nodup)
    (hread : ∀ field ∈ fields, host.fieldValue read key field = .ok (values field.1))
    (hregular : ∀ field ∈ fields, Regular (values field.1))
    {base : List (EnvText × JsonType Float)}
    (hfits : ∀ field ∈ fields, Fits (getMissing base field.1) (values field.1)) :
    ∃ result, host.overrideFields read key fields (some base) = .ok (some result) ∧
      Overridden base result (fields.map Prod.fst) values := by
  induction fields generalizing base with
  | nil => exact ⟨base, rfl, fun _ hname => absurd hname List.not_mem_nil, fun _ _ => rfl⟩
  | cons field rest ih =>
      rw [List.map_cons, List.nodup_cons] at hnames
      rw [overrideFields, hread field List.mem_cons_self, Parsed.ok, Parsed.bind]
      obtain ⟨merged, hmerged⟩ : ∃ merged,
          merge (getMissing base field.1) (values field.1) = .ok merged :=
        (exists_merge_iff_fits _ (hregular field List.mem_cons_self)).mpr
          (hfits field List.mem_cons_self)
      obtain ⟨next, hnext, hset⟩ := overrideField_of_merge hmerged
      rw [hnext, Parsed.bind]
      have hother : ∀ name ∈ rest.map Prod.fst, getMissing next name = getMissing base name := by
        rintro name hname
        have hne : name ≠ field.1 := ne_of_mem_of_not_mem hname hnames.1
        rw [hset, if_neg hne]
      obtain ⟨result, hresult, hparts, hsame⟩ := ih hnames.2
        (fun field hfield => hread field (.tail _ hfield))
        (fun field hfield => hregular field (.tail _ hfield))
        (fun other hfield => by
          rw [hother other.1 (List.mem_map_of_mem hfield)]
          exact hfits other (.tail _ hfield))
      refine ⟨result, hresult, ?_, ?_⟩
      · intro name hname
        rw [List.map_cons, List.mem_cons] at hname
        by_cases hlater : name ∈ rest.map Prod.fst
        · rw [← hother name hlater]
          exact hparts name hlater
        · obtain rfl := hname.resolve_right hlater
          rw [hsame field.1 hlater, hset, if_pos rfl]
          exact hmerged
      · intro name hname
        rw [List.map_cons, List.mem_cons, not_or] at hname
        rw [hsame name hname.2, hset, if_neg hname.1]

/-- The first field that does not fit stops the parsing. -/
theorem overrideFields_of_not_fits {read : EnvParser → EnvText → Parsed (JsonType Float)}
    {key : EnvText} {fields : List (EnvText × EnvParser)} {values : EnvText → JsonType Float}
    (hnames : (fields.map Prod.fst).Nodup)
    (hread : ∀ field ∈ fields, host.fieldValue read key field = .ok (values field.1))
    (hregular : ∀ field ∈ fields, Regular (values field.1))
    {base : List (EnvText × JsonType Float)}
    (hfits : ¬∀ field ∈ fields, Fits (getMissing base field.1) (values field.1)) :
    host.overrideFields read key fields (some base) = .raise .index := by
  induction fields generalizing base with
  | nil => exact absurd (fun _ hfield => absurd hfield List.not_mem_nil) hfits
  | cons field rest ih =>
      rw [List.map_cons, List.nodup_cons] at hnames
      rw [overrideFields, hread field List.mem_cons_self, Parsed.ok, Parsed.bind]
      have hfield := hregular field List.mem_cons_self
      cases hmerge : merge (getMissing base field.1) (values field.1) with
      | error error =>
          have hmissing : values field.1 ≠ .missing := by
            intro hmissing
            rw [hmissing, merge_missing_right] at hmerge
            cases hmerge
          rw [overrideField_some base field.1 hmissing, hmerge, merge_eq_error hfield hmerge]
          rfl
      | ok merged =>
          obtain ⟨next, hnext, hset⟩ := overrideField_of_merge hmerge
          rw [hnext]
          refine ih hnames.2 (fun field hfield => hread field (.tail _ hfield))
            (fun field hfield => hregular field (.tail _ hfield)) fun hrest => hfits ?_
          intro other hother
          rcases List.mem_cons.mp hother with rfl | hlater
          · exact (exists_merge_iff_fits _ hfield).mp ⟨merged, hmerge⟩
          · have hne : other.1 ≠ field.1 :=
              ne_of_mem_of_not_mem (List.mem_map_of_mem hlater) hnames.1
            have hfit := hrest other hlater
            rw [hset, if_neg hne] at hfit
            exact hfit

/-- A model that is given as JSON, and what the variables for its fields say. -/
structure Given (host : EnvHost Float) (fuel : Nat) (fields : List (EnvText × EnvParser))
    (key : EnvText) (base : List (EnvText × JsonValue Float))
    (values : EnvText → JsonType Float) : Prop where
  names : (fields.map Prod.fst).Nodup
  json : ∃ text, host.getenv key = some text ∧ text ≠ [] ∧
    JsonText.loads host.format text = some (.obj base)
  read : ∀ field ∈ fields,
    host.fieldValue (host.fromEnv fuel) key field = .ok (values field.1)

section

variable {fuel : Nat} {fields : List (EnvText × EnvParser)} {key : EnvText}
  {base : List (EnvText × JsonValue Float)} {values : EnvText → JsonType Float}

theorem Given.readObject (hgiven : Given host fuel fields key base values) :
    host.readObject key = .ok (some (ofEntries base)) := by
  obtain ⟨text, hgetenv, htext, hloads⟩ := hgiven.json
  unfold EnvHost.readObject
  rw [hgetenv]
  simp only [if_neg htext, hloads]

theorem Given.regular (hgiven : Given host fuel fields key base values) :
    ∀ field ∈ fields, Regular (values field.1) := by
  intro field hfield
  have hread := hgiven.read field hfield
  unfold fieldValue at hread
  split at hread
  next => exact regular_fromEnv _ _ _ hread
  next =>
    rw [← Except.ok.inj (Option.some.inj hread)]
    exact JsonType.regular_missing

/-- Both the values of the JSON text and those of the variables are kept. -/
theorem Given.fromEnv_of_fits (hgiven : Given host fuel fields key base values)
    (hfits : ∀ field ∈ fields, Fits (getMissing (ofEntries base) field.1) (values field.1)) :
    ∃ result, host.fromEnv (fuel + 1) (.model fields) key = .ok (.dict result) ∧
      Overridden (ofEntries base) result (fields.map Prod.fst) values := by
  obtain ⟨result, hresult, hparts⟩ :=
    overrideFields_of_fits hgiven.names hgiven.read hgiven.regular hfits
  refine ⟨result, ?_, hparts⟩
  rw [fromEnv, hgiven.readObject, Parsed.bind, hresult]
  rfl

theorem Given.fromEnv_of_not_fits (hgiven : Given host fuel fields key base values)
    (hfits : ¬∀ field ∈ fields, Fits (getMissing (ofEntries base) field.1) (values field.1)) :
    host.fromEnv (fuel + 1) (.model fields) key = .raise .index := by
  rw [fromEnv, hgiven.readObject, Parsed.bind,
    overrideFields_of_not_fits hgiven.names hgiven.read hgiven.regular hfits]
  rfl

end

/-! ## Lists by their indices -/

/-- The items of a list that variables of their own give, up to an index that has none. -/
structure GivenItems (host : EnvHost Float) (fuel : Nat) (item : EnvParser) (key : EnvText)
    (items : List (JsonType Float)) : Prop where
  own : host.getenv key = none
  possible : host.hasPossibleKeys key = true
  read : ∀ index (hindex : index < items.length),
    host.fromEnv fuel item (itemKey key index) = .ok items[index]
  present : ∀ found ∈ items, found ≠ .missing
  stop : host.fromEnv fuel item (itemKey key items.length) = .ok .missing
  enough : items.length < fuel

theorem readItems_of_read {read : EnvText → Parsed (JsonType Float)} {key : EnvText}
    {items : List (JsonType Float)} (hpresent : ∀ found ∈ items, found ≠ .missing)
    {index fuel : Nat} (hread : ∀ number (hnumber : number < items.length),
      read (itemKey key (index + number)) = .ok items[number])
    (hstop : read (itemKey key (index + items.length)) = .ok .missing)
    (henough : items.length < fuel) (result : List (JsonType Float)) :
    readItems read key fuel index result = .ok (result ++ items) := by
  induction items generalizing index fuel result with
  | nil =>
      cases fuel with
      | zero => cases henough
      | succ fuel =>
          rw [readItems, show read (itemKey key index) = .ok .missing from hstop, List.append_nil]
          rfl
  | cons first rest ih =>
      cases fuel with
      | zero => cases henough
      | succ fuel =>
          have hfirst : read (itemKey key index) = .ok first := hread 0 (Nat.zero_lt_succ _)
          have hthere : ¬first.isMissing = true := fun hmissing =>
            hpresent first List.mem_cons_self (isMissing_iff.mp hmissing)
          rw [List.length_cons] at hstop henough
          rw [readItems, hfirst, Parsed.ok, Parsed.bind]
          simp only [if_neg hthere]
          rw [ih (fun found hfound => hpresent found (.tail _ hfound)) ?_ ?_ (by omega),
            List.append_assoc, List.singleton_append]
          · intro number hnumber
            rw [show index + 1 + number = index + (number + 1) by omega]
            exact hread (number + 1) (Nat.succ_lt_succ hnumber)
          · rw [show index + 1 + rest.length = index + (rest.length + 1) by omega]
            exact hstop

theorem GivenItems.fromEnv_list {fuel : Nat} {item : EnvParser} {key : EnvText}
    {items : List (JsonType Float)} (hgiven : GivenItems host fuel item key items)
    (hsome : items ≠ []) : host.fromEnv (fuel + 1) (.list item) key = .ok (.list items) := by
  have hitems : readItems (host.fromEnv fuel item) key fuel 0 [] = .ok ([] ++ items) := by
    apply readItems_of_read hgiven.present _ _ hgiven.enough
    · intro number hnumber
      rw [Nat.zero_add]
      exact hgiven.read number hnumber
    · rw [Nat.zero_add]
      exact hgiven.stop
  rw [fromEnv, hgiven.own]
  simp only [hitems, Parsed.ok, Parsed.bind, List.nil_append, if_neg hsome]

/-- Merging is total and pointwise, and what JSON and the variables say is kept, exactly when no
list has to grow. Items at indices behind the list that JSON gives are never kept. -/
theorem merges_iff_fits :
    (∀ a b : JsonType Float, Regular a → Regular b → (MergesPointwise a b ↔ Fits a b)) ∧
    (∀ (host : EnvHost Float) fuel fields key base values,
      Given host fuel fields key base values →
      ((∃ result, host.fromEnv (fuel + 1) (.model fields) key = .ok (.dict result) ∧
          Overridden (ofEntries base) result (fields.map Prod.fst) values) ↔
        ∀ field ∈ fields, Fits (getMissing (ofEntries base) field.1) (values field.1))) ∧
    ∀ (host : EnvHost Float) fuel fields key base values name item items updates,
      Given host (fuel + 1) fields key base values → (name, .list item) ∈ fields →
      getMissing (ofEntries base) name = .list items →
      GivenItems host fuel item (host.fieldKey key name) updates →
      items.length < updates.length →
      host.fromEnv (fuel + 2) (.model fields) key = .raise .index := by
  refine ⟨fun a b _ hb => mergesPointwise_iff a hb, ?_, ?_⟩
  · intro host fuel fields key base values hgiven
    constructor
    · rintro ⟨result, hresult, -⟩
      by_contra hfits
      rw [hgiven.fromEnv_of_not_fits hfits] at hresult
      cases hresult
    · exact hgiven.fromEnv_of_fits
  · intro host fuel fields key base values name item items updates hgiven hfield hbase hitems
      hlonger
    apply hgiven.fromEnv_of_not_fits
    intro hfits
    have hsome : updates ≠ [] := List.ne_nil_of_length_pos (by omega)
    have hvalue := hgiven.read _ hfield
    rw [fieldValue, if_pos hitems.possible, hitems.fromEnv_list hsome] at hvalue
    have hfit := hfits _ hfield
    rw [hbase, ← Except.ok.inj (Option.some.inj hvalue)] at hfit
    exact Nat.not_lt.mpr (hfit [] items updates rfl rfl) hlonger

/-- The settings of the examples. -/
def listSettings : List (EnvText × EnvParser) := [("xs".toList, .list .str)]

def oneItem : List (EnvText × JsonValue (Nat × Fin 10)) :=
  [("xs".toList, .arr [.str "a".toList])]

/-- A list with one item is given as JSON, and there are variables for two items. -/
def twoItems : EnvHost (Nat × Fin 10) where
  environ := [("A".toList, JsonText.dumps .tenths (.obj oneItem)), ("A_XS_0".toList, "b".toList),
    ("A_XS_1".toList, "c".toList)]
  parser _ := none
  upper := List.map Char.toUpper
  int _ := .error .value
  float _ := .error .value
  format := .tenths
  importClass _ _ := .error .importing

def newItems : List (JsonType (Nat × Fin 10)) := [.str "b".toList, .str "c".toList]

theorem fieldKey_twoItems : twoItems.fieldKey "A".toList "xs".toList = "A_XS".toList := by
  decide +kernel

theorem givenItems_twoItems : GivenItems twoItems 3 .str "A_XS".toList newItems where
  own := by decide +kernel
  possible := by decide +kernel
  read index hindex := by
    match index, hindex with
    | 0, _ =>
        have hgetenv : twoItems.getenv (itemKey "A_XS".toList 0) = some "b".toList := by
          decide +kernel
        rw [fromEnv, hgetenv]
        rfl
    | 1, _ =>
        have hgetenv : twoItems.getenv (itemKey "A_XS".toList 1) = some "c".toList := by
          decide +kernel
        rw [fromEnv, hgetenv]
        rfl
  present := by simp [newItems]
  stop := by
    have hgetenv : twoItems.getenv (itemKey "A_XS".toList newItems.length) = none := by
      decide +kernel
    rw [fromEnv, hgetenv]
  enough := by decide

theorem given_twoItems :
    Given twoItems 4 listSettings "A".toList oneItem fun _ => .list newItems where
  names := by decide
  json := by
    refine ⟨JsonText.dumps .tenths (.obj oneItem), rfl, by decide +kernel, ?_⟩
    apply JsonText.loads_dumps
    refine .obj (List.nodup_singleton _) fun entry hentry => ?_
    rw [List.mem_singleton.mp hentry]
    refine .arr fun item hitem => ?_
    rw [List.mem_singleton.mp hitem]
    exact .str _
  read field hfield := by
    rw [List.mem_singleton.mp hfield, fieldValue, fieldKey_twoItems,
      if_pos givenItems_twoItems.possible]
    exact givenItems_twoItems.fromEnv_list (by simp [newItems])

theorem regular_newItems : Regular (.list newItems) := by
  intro _
  refine .list fun item hitem _ => ?_
  simp only [newItems, List.mem_cons, List.not_mem_nil, or_false] at hitem
  obtain rfl | rfl := hitem <;> exact .str _

theorem regular_singleton (text : EnvText) :
    Regular (.list [.str text] : JsonType (Nat × Fin 10)) := by
  intro _
  refine .list fun item hitem _ => ?_
  rw [List.mem_singleton.mp hitem]
  exact .str text

/-- A list takes a shorter one, and the variables for two items are too many for one item. -/
theorem merges_newItems :
    MergesPointwise (.list newItems) (.list [.str "a".toList]) ∧
      twoItems.fromEnv 5 (.model listSettings) "A".toList = .raise .index := by
  have hitems := givenItems_twoItems
  rw [← fieldKey_twoItems] at hitems
  refine ⟨(merges_iff_fits.1 _ _ regular_newItems (regular_singleton _)).mpr ?_,
    merges_iff_fits.2.2 twoItems 3 listSettings _ oneItem _ "xs".toList .str [.str "a".toList]
      newItems given_twoItems List.mem_cons_self rfl hitems (by decide)⟩
  refine fits_list_iff.mpr ⟨by decide, fun index => ?_⟩
  cases index with
  | zero => exact fits_of_kinds (by simp [newItems]) (by simp [newItems])
  | succ index => exact fits_missing_right _

/-- A list with one item does not take a second one, wherever the two items come from. -/
theorem not_merges_twoItems :
    ¬MergesPointwise (.list [.str "a".toList]) (.list newItems) ∧
      twoItems.fromEnv 5 (.model listSettings) "A".toList = .raise .index := by
  have hlonger : ∀ a : JsonType (Nat × Fin 10), a = .list [.str "a".toList] →
      ¬Fits a (.list newItems) := by
    rintro a rfl hfits
    exact Nat.not_succ_le_self 1 (hfits [] _ _ rfl rfl)
  constructor
  · intro hmerges
    exact hlonger _ rfl ((mergesPointwise_iff _ regular_newItems).mp hmerges)
  · apply given_twoItems.fromEnv_of_not_fits
    intro hfits
    exact hlonger _ rfl (hfits _ List.mem_cons_self)

end EnvHost

end ShuttleFlow
