import ShuttleFlow.Library.JsonRoundTrip
import ShuttleFlow.AgentServer.EnvMerge

/-! # Parsed values

Whatever is parsed from the variables is like a value of JSON, or missing.
-/

namespace ShuttleFlow

variable {Float : Type}

namespace JsonType

/-- Like a value of JSON, when it is there at all. -/
def Regular (value : JsonType Float) : Prop :=
  value ≠ .missing → JsonLike value

theorem JsonLike.regular {value : JsonType Float} (hvalue : JsonLike value) : Regular value :=
  fun _ => hvalue

theorem regular_missing : Regular (.missing : JsonType Float) :=
  fun hpresent => absurd rfl hpresent

theorem isMissing_iff {value : JsonType Float} : value.isMissing = true ↔ value = .missing := by
  cases value <;> simp [isMissing]

theorem ofItems_eq_map (items : List (JsonValue Float)) : ofItems items = items.map ofJson := by
  induction items with
  | nil => rfl
  | cons item rest ih => rw [ofItems, ih, List.map_cons]

theorem ofEntries_eq_map (entries : List (EnvText × JsonValue Float)) :
    ofEntries entries = entries.map fun entry => (entry.1, ofJson entry.2) := by
  induction entries with
  | nil => rfl
  | cons entry rest ih =>
      obtain ⟨key, value⟩ := entry
      rw [ofEntries, ih, List.map_cons]

theorem jsonLike_ofJson {value : JsonValue Float} (hvalid : value.Valid) :
    JsonLike (ofJson value) := by
  induction hvalid with
  | null => exact .none
  | bool value => exact .bool value
  | int value => exact .int value
  | float value => exact .float value
  | str value => exact .str value
  | arr hitems ih =>
      rw [ofJson, ofItems_eq_map]
      refine .list fun item hitem _ => ?_
      obtain ⟨found, hfound, rfl⟩ := List.mem_map.mp hitem
      exact ih found hfound
  | obj hkeys hvalues ih =>
      rw [ofJson, ofEntries_eq_map]
      refine .dict ?_ fun entry hentry => ?_
      · rw [List.map_map]
        exact hkeys
      · obtain ⟨found, hfound, rfl⟩ := List.mem_map.mp hentry
        exact ih found hfound

end JsonType

open JsonType (JsonLike Regular MergesPointwise Fits getMissing getNone ofJson ofItems ofEntries
  regular_missing isMissing_iff jsonLike_ofJson)


/-! ## Merged values -/

theorem merge_ne_missing {a b merged : JsonType Float} (hmerge : merge a b = .ok merged)
    (hpresent : a ≠ .missing) : merged ≠ .missing := by
  rintro rfl
  cases b with
  | missing =>
      rw [merge_missing_right] at hmerge
      cases hmerge
      exact hpresent rfl
  | dict updates =>
      cases a with
      | missing => exact hpresent rfl
      | dict entries =>
          rw [merge_dict] at hmerge
          cases hentries : mergeEntries entries updates <;> rw [hentries] at hmerge <;> cases hmerge
      | _ => cases hmerge
  | list updates =>
      cases a with
      | missing => exact hpresent rfl
      | list items =>
          rw [merge_list] at hmerge
          cases hitems : mergeItems items.length items 0 updates <;> rw [hitems] at hmerge <;>
            cases hmerge
      | _ => cases hmerge
  | _ =>
      cases a with
      | missing => exact hpresent rfl
      | _ => cases hmerge

theorem merge_eq_or {a b merged : JsonType Float}
    (hobjects : ∀ entries updates, a = .dict entries → b ≠ .dict updates)
    (hlists : ∀ items updates, a = .list items → b ≠ .list updates)
    (hmerge : merge a b = .ok merged) : merged = a ∨ merged = b := by
  cases a with
  | dict entries =>
      cases b with
      | dict updates => exact absurd rfl (hobjects entries updates rfl)
      | missing | none => exact .inl (Except.ok.inj hmerge).symm
      | _ => exact .inr (Except.ok.inj hmerge).symm
  | list items =>
      cases b with
      | list updates => exact absurd rfl (hlists items updates rfl)
      | missing | none => exact .inl (Except.ok.inj hmerge).symm
      | _ => exact .inr (Except.ok.inj hmerge).symm
  | _ =>
      cases b with
      | missing | none => first
          | exact .inl (Except.ok.inj hmerge).symm
          | exact .inr (Except.ok.inj hmerge).symm
      | _ => exact .inr (Except.ok.inj hmerge).symm

theorem jsonLike_getNone {entries : List (EnvText × JsonType Float)}
    (hvalues : ∀ entry ∈ entries, JsonLike entry.2) (key : EnvText) :
    JsonLike (getNone entries key) := by
  unfold getNone
  cases hget : Entries.get? entries key with
  | none => exact .none
  | some value => exact hvalues _ (Entries.mem_of_get?_eq_some hget)

theorem jsonLike_set {entries : List (EnvText × JsonType Float)}
    (hentries : JsonLike (.dict entries)) (key : EnvText) {value : JsonType Float}
    (hvalue : JsonLike value) : JsonLike (.dict (Entries.set entries key value)) := by
  cases hentries with
  | dict hkeys hvalues =>
      refine .dict (Entries.nodup_keys_set hkeys key value) fun entry hentry => ?_
      rcases Entries.mem_set hentry with rfl | hold
      · exact hvalue
      · exact hvalues entry hold

theorem jsonLike_mergeEntries {updates : List (EnvText × JsonType Float)}
    (hvalues : ∀ entry ∈ updates, JsonLike entry.2)
    (ih : ∀ entry ∈ updates, ∀ a merged, Regular a → merge a entry.2 = .ok merged →
      Regular merged)
    {entries result : List (EnvText × JsonType Float)} (hentries : JsonLike (.dict entries))
    (hmerge : mergeEntries entries updates = .ok result) : JsonLike (.dict result) := by
  induction updates generalizing entries with
  | nil =>
      rw [mergeEntries, Except.ok.injEq] at hmerge
      exact hmerge ▸ hentries
  | cons entry rest ihrest =>
      obtain ⟨key, value⟩ := entry
      rw [mergeEntries_cons] at hmerge
      cases hfirst : merge (getNone entries key) value with
      | error error =>
          rw [hfirst] at hmerge
          cases hmerge
      | ok merged =>
          rw [hfirst] at hmerge
          have hold : JsonLike (getNone entries key) := by
            cases hentries with
            | dict hkeys hvalues => exact jsonLike_getNone hvalues key
          have hmerged : JsonLike merged :=
            ih _ List.mem_cons_self _ _ hold.regular hfirst
              (merge_ne_missing hfirst hold.ne_missing)
          exact ihrest (fun entry hentry => hvalues entry (.tail _ hentry))
            (fun entry hentry => ih entry (.tail _ hentry)) (jsonLike_set hentries key hmerged) hmerge

theorem regular_mergeItems {updates : List (JsonType Float)}
    (ih : ∀ item ∈ updates, ∀ a merged, Regular a → merge a item = .ok merged → Regular merged)
    {items result : List (JsonType Float)} {index : Nat} (hitems : ∀ item ∈ items, Regular item)
    (hmerge : mergeItems items.length items index updates = .ok result) :
    ∀ item ∈ result, Regular item := by
  induction updates generalizing items index with
  | nil =>
      rw [mergeItems, Except.ok.injEq] at hmerge
      exact hmerge ▸ hitems
  | cons value rest ihrest =>
      rcases Nat.lt_or_ge index items.length with hinside | houtside
      · rw [mergeItems_cons_of_lt hinside] at hmerge
        cases hfirst : merge (items.getD index .missing) value with
        | error error =>
            rw [hfirst] at hmerge
            cases hmerge
        | ok merged =>
            rw [hfirst] at hmerge
            have hold : Regular (items.getD index .missing) := by
              rw [List.getD_eq_getElem _ _ hinside]
              exact hitems _ (List.getElem_mem hinside)
            have hmerged := ih value List.mem_cons_self _ _ hold hfirst
            have hset : ∀ item ∈ items.set index merged, Regular item := by
              intro item hitem
              rcases List.mem_or_eq_of_mem_set hitem with hitem | rfl
              · exact hitems item hitem
              · exact hmerged
            have hmerge : mergeItems (items.set index merged).length (items.set index merged)
                (index + 1) rest = .ok result := by
              rw [List.length_set]
              exact hmerge
            exact ihrest (fun item hitem => ih item (.tail _ hitem)) hset hmerge
      · rw [mergeItems_cons_of_le houtside] at hmerge
        cases hmerge

/-- What is merged from values like those of JSON is like one of them. -/
theorem regular_merge {a b merged : JsonType Float} (ha : Regular a) (hb : Regular b)
    (hmerge : merge a b = .ok merged) : Regular merged := by
  by_cases hmissing : b = .missing
  · rw [hmissing, merge_missing_right] at hmerge
    exact Except.ok.inj hmerge ▸ ha
  have hkinds : ∀ {a b merged : JsonType Float}, Regular a → JsonLike b →
      (∀ entries updates, a = .dict entries → b ≠ .dict updates) →
      (∀ items updates, a = .list items → b ≠ .list updates) →
      merge a b = .ok merged → Regular merged := by
    intro a b merged ha hb hobjects hlists hmerge
    rcases merge_eq_or hobjects hlists hmerge with rfl | rfl
    · exact ha
    · exact hb.regular
  have hlike := hb hmissing
  induction hlike generalizing a merged with
  | @dict updates hkeys hvalues ih =>
      cases a with
      | dict entries =>
          rw [merge_dict] at hmerge
          cases hentries : mergeEntries entries updates with
          | error error =>
              rw [hentries] at hmerge
              cases hmerge
          | ok result =>
              rw [hentries] at hmerge
              cases hmerge
              apply JsonLike.regular
              refine jsonLike_mergeEntries hvalues ?_ (ha (by simp)) hentries
              intro entry hentry a merged ha hmerge
              exact ih entry hentry ha (hvalues entry hentry).regular hmerge
                (hvalues entry hentry).ne_missing
      | _ => exact hkinds ha (.dict hkeys hvalues) (by simp) (by simp) hmerge
  | @list updates hitems ih =>
      cases a with
      | list items =>
          rw [merge_list] at hmerge
          cases hresult : mergeItems items.length items 0 updates with
          | error error =>
              rw [hresult] at hmerge
              cases hmerge
          | ok result =>
              rw [hresult] at hmerge
              cases hmerge
              have hlist : JsonLike (.list items) := ha (by simp)
              apply JsonLike.regular
              refine .list (regular_mergeItems ?_ ?_ hresult)
              · intro item hitem a merged ha hmerge
                by_cases hmissing : item = .missing
                · rw [hmissing, merge_missing_right] at hmerge
                  exact Except.ok.inj hmerge ▸ ha
                · exact ih item hitem hmissing ha (hitems item hitem) hmerge hmissing
              · cases hlist with
                | list hregular => exact hregular
      | _ => exact hkinds ha (.list hitems) (by simp) (by simp) hmerge
  | none => exact hkinds ha .none (by simp) (by simp) hmerge
  | bool value => exact hkinds ha (.bool value) (by simp) (by simp) hmerge
  | int value => exact hkinds ha (.int value) (by simp) (by simp) hmerge
  | float value => exact hkinds ha (.float value) (by simp) (by simp) hmerge
  | str value => exact hkinds ha (.str value) (by simp) (by simp) hmerge

theorem merge_ne_missing_right {a b merged : JsonType Float} (hmerge : merge a b = .ok merged)
    (hpresent : b ≠ .missing) : merged ≠ .missing := by
  by_cases hmissing : a = .missing
  · rw [hmissing, merge_missing_left] at hmerge
    exact Except.ok.inj hmerge ▸ hpresent
  · exact merge_ne_missing hmerge hmissing

/-! ## Failures to merge -/

theorem mergeEntries_eq_error {updates : List (EnvText × JsonType Float)}
    (ih : ∀ entry ∈ updates, ∀ a error, merge a entry.2 = .error error → error = .index)
    {entries : List (EnvText × JsonType Float)} {error : EnvError}
    (hmerge : mergeEntries entries updates = .error error) : error = .index := by
  induction updates generalizing entries with
  | nil =>
      rw [mergeEntries] at hmerge
      cases hmerge
  | cons entry rest ihrest =>
      obtain ⟨key, value⟩ := entry
      rw [mergeEntries_cons] at hmerge
      cases hfirst : merge (getNone entries key) value with
      | error found =>
          rw [hfirst] at hmerge
          cases hmerge
          exact ih _ List.mem_cons_self _ _ hfirst
      | ok merged =>
          rw [hfirst] at hmerge
          exact ihrest (fun entry hentry => ih entry (.tail _ hentry)) hmerge

theorem mergeItems_eq_error {updates : List (JsonType Float)}
    (ih : ∀ item ∈ updates, ∀ a error, merge a item = .error error → error = .index)
    {items : List (JsonType Float)} {index : Nat} {error : EnvError}
    (hmerge : mergeItems items.length items index updates = .error error) : error = .index := by
  induction updates generalizing items index with
  | nil =>
      rw [mergeItems] at hmerge
      cases hmerge
  | cons value rest ihrest =>
      rcases Nat.lt_or_ge index items.length with hinside | houtside
      · rw [mergeItems_cons_of_lt hinside] at hmerge
        cases hfirst : merge (items.getD index .missing) value with
        | error found =>
            rw [hfirst] at hmerge
            cases hmerge
            exact ih value List.mem_cons_self _ _ hfirst
        | ok merged =>
            rw [hfirst] at hmerge
            have hmerge : mergeItems (items.set index merged).length (items.set index merged)
                (index + 1) rest = .error error := by
              rw [List.length_set]
              exact hmerge
            exact ihrest (fun item hitem => ih item (.tail _ hitem)) hmerge
      · rw [mergeItems_cons_of_le houtside] at hmerge
        cases hmerge
        rfl

theorem merge_ne_error {a b : JsonType Float}
    (hobjects : ∀ entries updates, a = .dict entries → b ≠ .dict updates)
    (hlists : ∀ items updates, a = .list items → b ≠ .list updates) (error : EnvError) :
    merge a b ≠ .error error := by
  intro hmerge
  obtain ⟨merged, hmerged⟩ := exists_merge_of_kinds hobjects hlists
  rw [hmerged] at hmerge
  cases hmerge

/-- Merging fails for an index only. -/
theorem merge_eq_error {a b : JsonType Float} (hb : Regular b) {error : EnvError}
    (hmerge : merge a b = .error error) : error = .index := by
  by_cases hmissing : b = .missing
  · rw [hmissing, merge_missing_right] at hmerge
    cases hmerge
  have hlike := hb hmissing
  induction hlike generalizing a error with
  | @dict updates hkeys hvalues ih =>
      cases a with
      | dict entries =>
          rw [merge_dict] at hmerge
          cases hentries : mergeEntries entries updates with
          | error found =>
              rw [hentries] at hmerge
              cases hmerge
              refine mergeEntries_eq_error ?_ hentries
              intro entry hentry a error hmerge
              exact ih entry hentry (hvalues entry hentry).regular hmerge
                (hvalues entry hentry).ne_missing
          | ok result =>
              rw [hentries] at hmerge
              cases hmerge
      | _ => exact absurd hmerge (merge_ne_error (by simp) (by simp) error)
  | @list updates hitems ih =>
      cases a with
      | list items =>
          rw [merge_list] at hmerge
          cases hresult : mergeItems items.length items 0 updates with
          | error found =>
              rw [hresult] at hmerge
              cases hmerge
              refine mergeItems_eq_error ?_ hresult
              intro item hitem a error hmerge
              by_cases hmissing : item = .missing
              · rw [hmissing, merge_missing_right] at hmerge
                cases hmerge
              · exact ih item hitem hmissing (hitems item hitem) hmerge hmissing
          | ok result =>
              rw [hresult] at hmerge
              cases hmerge
      | _ => exact absurd hmerge (merge_ne_error (by simp) (by simp) error)
  | _ => exact absurd hmerge (merge_ne_error (by simp) (by simp) error)

/-! ## Reading -/

theorem Parsed.bind_eq_ok {α β : Type} {parsed : Parsed α} {f : α → Parsed β} {result : β}
    (hbind : parsed.bind f = .ok result) : ∃ value, parsed = .ok value ∧ f value = .ok result := by
  match parsed with
  | none => cases hbind
  | some (.error error) => cases hbind
  | some (.ok value) => exact ⟨value, rfl, hbind⟩

namespace EnvHost

variable {host : EnvHost Float}

theorem jsonLike_readObject {key : EnvText} {entries : List (EnvText × JsonType Float)}
    (hread : host.readObject key = .ok (some entries)) : JsonLike (.dict entries) := by
  unfold readObject at hread
  split at hread
  · cases hread
  · split at hread
    · cases hread
    · split at hread
      next => cases hread
      next found hloads =>
        cases hread
        have hlike := jsonLike_ofJson (JsonText.valid_of_loads hloads)
        rw [ofJson] at hlike
        exact hlike
      next => cases hread

theorem regular_readList {value : EnvText} {items : List (JsonType Float)}
    (hread : host.readList value = .ok items) : ∀ item ∈ items, Regular item := by
  unfold readList at hread
  split at hread
  next => cases hread
  next size _ =>
    cases hread
    intro item hitem
    rw [List.eq_of_mem_replicate hitem]
    exact regular_missing
  next value _ =>
    cases hread
    intro item hitem
    cases value with
    | false => cases hitem
    | true =>
        rw [List.mem_singleton.mp hitem]
        exact regular_missing
  next items hloads =>
    cases hread
    have hlike := jsonLike_ofJson (JsonText.valid_of_loads hloads)
    rw [ofJson] at hlike
    cases hlike with
    | list hitems => exact hitems
  next => cases hread

/-! ## What is parsed -/

theorem regular_toDict {result : Option (List (EnvText × JsonType Float))}
    (hresult : ∀ entries, result = some entries → JsonLike (.dict entries)) :
    Regular (toDict result) := by
  cases result with
  | none => exact regular_missing
  | some entries => exact (hresult entries rfl).regular

theorem jsonLike_overrideField {result after : Option (List (EnvText × JsonType Float))}
    {name : EnvText} {value : JsonType Float}
    (hresult : ∀ entries, result = some entries → JsonLike (.dict entries))
    (hvalue : Regular value) (hoverride : overrideField result name value = .ok after) :
    ∀ entries, after = some entries → JsonLike (.dict entries) := by
  have hbase : JsonLike (.dict (result.getD [])) := by
    cases result with
    | none => exact .dict List.nodup_nil fun _ hentry => nomatch hentry
    | some entries => exact hresult entries rfl
  unfold overrideField at hoverride
  split at hoverride
  next =>
    cases hoverride
    exact hresult
  next =>
    cases hmerge : merge (getMissing (result.getD []) name) value with
    | error error =>
        rw [hmerge] at hoverride
        cases hoverride
    | ok merged =>
        have hmerged : Regular merged := by
          refine regular_merge ?_ hvalue hmerge
          unfold getMissing
          cases hget : Entries.get? (result.getD []) name with
          | none => exact regular_missing
          | some found =>
              cases hbase with
              | dict hkeys hvalues =>
                  exact (hvalues _ (Entries.mem_of_get?_eq_some hget)).regular
        rw [hmerge] at hoverride
        simp only [bind, Except.bind] at hoverride
        split at hoverride
        next =>
          cases hoverride
          rintro entries ⟨⟩
          exact hbase
        next hpresent =>
          cases hoverride
          rintro entries ⟨⟩
          exact jsonLike_set hbase name (hmerged fun heq => hpresent (isMissing_iff.mpr heq))

theorem jsonLike_overrideFields {read : EnvParser → EnvText → Parsed (JsonType Float)}
    (hread : ∀ parser key value, read parser key = .ok value → Regular value) {key : EnvText}
    {fields : List (EnvText × EnvParser)}
    {result after : Option (List (EnvText × JsonType Float))}
    (hresult : ∀ entries, result = some entries → JsonLike (.dict entries))
    (hoverride : host.overrideFields read key fields result = .ok after) :
    ∀ entries, after = some entries → JsonLike (.dict entries) := by
  induction fields generalizing result with
  | nil =>
      cases hoverride
      exact hresult
  | cons field rest ih =>
      rw [overrideFields] at hoverride
      obtain ⟨value, hvalue, hoverride⟩ := Parsed.bind_eq_ok hoverride
      obtain ⟨next, hnext, hoverride⟩ := Parsed.bind_eq_ok hoverride
      have hregular : Regular value := by
        unfold fieldValue at hvalue
        split at hvalue
        next => exact hread _ _ _ hvalue
        next =>
          cases hvalue
          exact regular_missing
      exact ih (jsonLike_overrideField hresult hregular (Option.some.inj hnext)) hoverride

theorem regular_readItems {read : EnvText → Parsed (JsonType Float)}
    (hread : ∀ key value, read key = .ok value → Regular value) {key : EnvText} {fuel index : Nat}
    {result items : List (JsonType Float)} (hresult : ∀ item ∈ result, Regular item)
    (hitems : readItems read key fuel index result = .ok items) :
    ∀ item ∈ items, Regular item := by
  induction fuel generalizing index result with
  | zero => cases hitems
  | succ fuel ih =>
      rw [readItems] at hitems
      obtain ⟨value, hvalue, hitems⟩ := Parsed.bind_eq_ok hitems
      split at hitems
      next =>
        cases hitems
        exact hresult
      next =>
        refine ih (fun item hitem => ?_) hitems
        rcases List.mem_append.mp hitem with hitem | hitem
        · exact hresult item hitem
        · rw [List.mem_singleton.mp hitem]
          exact hread _ _ hvalue

theorem regular_fillItems {read : EnvText → Parsed (JsonType Float)}
    (hread : ∀ key value, read key = .ok value → Regular value) {key : EnvText} {index : Nat}
    {items filled : List (JsonType Float)} (hitems : ∀ item ∈ items, Regular item)
    (hfill : fillItems read key index items = .ok filled) : ∀ item ∈ filled, Regular item := by
  induction items generalizing index filled with
  | nil =>
      cases hfill
      exact fun _ hitem => nomatch hitem
  | cons first rest ih =>
      rw [fillItems] at hfill
      obtain ⟨found, hfound, hfill⟩ := Parsed.bind_eq_ok hfill
      obtain ⟨merged, hmerged, hfill⟩ := Parsed.bind_eq_ok hfill
      obtain ⟨others, hothers, hfill⟩ := Parsed.bind_eq_ok hfill
      cases hfill
      intro item hitem
      rcases List.mem_cons.mp hitem with rfl | hitem
      · exact regular_merge (hitems first List.mem_cons_self) (hread _ _ hfound)
          (Option.some.inj hmerged)
      · exact ih (fun item hitem => hitems item (.tail _ hitem)) hothers item hitem

theorem regular_mergeParsed {read : EnvParser → Parsed (JsonType Float)}
    (hread : ∀ parser value, read parser = .ok value → Regular value) {parsers : List EnvParser}
    {result value : JsonType Float} (hresult : Regular result)
    (hparsed : mergeParsed read parsers result = .ok value) : Regular value := by
  induction parsers generalizing result with
  | nil =>
      cases hparsed
      exact hresult
  | cons parser rest ih =>
      rw [mergeParsed] at hparsed
      obtain ⟨found, hfound, hparsed⟩ := Parsed.bind_eq_ok hparsed
      obtain ⟨merged, hmerged, hparsed⟩ := Parsed.bind_eq_ok hparsed
      exact ih (regular_merge hresult (hread _ _ hfound) (Option.some.inj hmerged)) hparsed

theorem regular_withKind {kind : EnvText} {found value : JsonType Float} (hfound : Regular found)
    (hkind : withKind kind found = .ok value) : Regular value := by
  unfold withKind at hkind
  split at hkind
  next =>
    cases hkind
    apply JsonLike.regular
    refine .dict (List.nodup_singleton _) fun entry hentry => ?_
    rw [List.mem_singleton.mp hentry]
    exact .str kind
  next entries =>
    cases hkind
    exact (jsonLike_set (hfound (by simp)) _ (.str kind)).regular
  next => cases hkind

/-- Whatever the variables say, what is parsed is like a value of JSON. -/
theorem regular_fromEnv (fuel : Nat) (parser : EnvParser) (key : EnvText) {value : JsonType Float}
    (hparsed : host.fromEnv fuel parser key = .ok value) : Regular value := by
  induction fuel generalizing parser key value with
  | zero => cases hparsed
  | succ fuel ih =>
      cases parser with
      | bool =>
          rw [fromEnv] at hparsed
          split at hparsed <;> cases hparsed
          · exact regular_missing
          · exact (JsonLike.bool _).regular
      | int =>
          rw [fromEnv] at hparsed
          split at hparsed
          · cases hparsed
            exact regular_missing
          next text _ =>
            cases hint : host.int text with
            | error error =>
                rw [hint] at hparsed
                cases hparsed
            | ok number =>
                rw [hint] at hparsed
                cases hparsed
                exact (JsonLike.int _).regular
      | float =>
          rw [fromEnv] at hparsed
          split at hparsed
          · cases hparsed
            exact regular_missing
          next text _ =>
            cases hfloat : host.float text with
            | error error =>
                rw [hfloat] at hparsed
                cases hparsed
            | ok number =>
                rw [hfloat] at hparsed
                cases hparsed
                exact (JsonLike.float _).regular
      | str =>
          rw [fromEnv] at hparsed
          split at hparsed <;> cases hparsed
          · exact regular_missing
          · exact (JsonLike.str _).regular
      | none =>
          rw [fromEnv] at hparsed
          split at hparsed <;> cases hparsed
          · exact JsonLike.none.regular
          · exact regular_missing
      | literal values =>
          rw [fromEnv] at hparsed
          split at hparsed
          · split at hparsed <;> cases hparsed
            · exact JsonLike.none.regular
            · exact (JsonLike.str _).regular
          · cases hparsed
            exact regular_missing
      | model parsers =>
          rw [fromEnv] at hparsed
          obtain ⟨base, hbase, hparsed⟩ := Parsed.bind_eq_ok hparsed
          obtain ⟨result, hresult, hparsed⟩ := Parsed.bind_eq_ok hparsed
          cases hparsed
          apply regular_toDict
          refine jsonLike_overrideFields (fun parser key value => ih parser key) ?_ hresult
          rintro entries rfl
          exact jsonLike_readObject (Option.some.inj hbase)
      | dict =>
          rw [fromEnv] at hparsed
          obtain ⟨base, hbase, hparsed⟩ := Parsed.bind_eq_ok hparsed
          cases hparsed
          apply regular_toDict
          rintro entries rfl
          exact jsonLike_readObject (Option.some.inj hbase)
      | list itemParser =>
          rw [fromEnv] at hparsed
          split at hparsed
          · obtain ⟨items, hitems, hparsed⟩ := Parsed.bind_eq_ok hparsed
            have hregular := regular_readItems (fun key value => ih itemParser key)
              (fun _ hitem => absurd hitem List.not_mem_nil) hitems
            split at hparsed <;> cases hparsed
            · exact regular_missing
            · exact (JsonLike.list hregular).regular
          · obtain ⟨items, hitems, hparsed⟩ := Parsed.bind_eq_ok hparsed
            obtain ⟨filled, hfilled, hparsed⟩ := Parsed.bind_eq_ok hparsed
            cases hparsed
            exact (JsonLike.list (regular_fillItems (fun key value => ih itemParser key)
              (regular_readList (Option.some.inj hitems)) hfilled)).regular
      | union parsers =>
          rw [fromEnv] at hparsed
          exact regular_mergeParsed (fun parser value => ih parser key) regular_missing hparsed
      | discriminated parsers =>
          rw [fromEnv] at hparsed
          split at hparsed
          · cases hparsed
            exact regular_missing
          · obtain ⟨chosen, hchosen, hparsed⟩ := Parsed.bind_eq_ok hparsed
            obtain ⟨found, hfound, hparsed⟩ := Parsed.bind_eq_ok hparsed
            split at hparsed
            · cases hparsed
              exact regular_missing
            · exact regular_withKind (ih _ _ hfound) (Option.some.inj hparsed)
      | delayed target =>
          rw [fromEnv] at hparsed
          split at hparsed
          · cases hparsed
          · exact ih _ _ hparsed

end EnvHost

end ShuttleFlow
