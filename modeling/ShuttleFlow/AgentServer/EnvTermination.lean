import Mathlib.Data.List.Infix
import Mathlib.Data.Set.Finite.List
import Mathlib.Order.Bounds.Basic
import Mathlib.Order.Interval.Finset.Nat
import ShuttleFlow.AgentServer.EnvValues

/-! # Reading environment variables comes to an end

Parsers may go round in a circle, and a list without a variable of its own is read up to the first
item that is missing. Reading ends if each parser that is called does, and if items are missing
where no variable has their name.
-/

namespace ShuttleFlow

variable {Float : Type}

/-! ## Parsing with more and more fuel -/

namespace Parsed

variable {α β : Type}

/-- With enough fuel there is a result, which does not change any more. -/
def Settles (parsed : Nat → Parsed α) : Prop :=
  ∃ enough result, ∀ fuel, enough ≤ fuel → parsed fuel = some result

theorem settles_const (result : Except EnvError α) : Settles fun _ => (some result : Parsed α) :=
  ⟨0, result, fun _ _ => rfl⟩

/-- One part after another settles if both do. -/
theorem Settles.bind {parsed : Nat → Parsed α} {next : Nat → α → Parsed β}
    (hparsed : Settles parsed) (hnext : ∀ value, Settles fun fuel => next fuel value) :
    Settles fun fuel => (parsed fuel).bind (next fuel) := by
  obtain ⟨enough, result, hresult⟩ := hparsed
  cases result with
  | error error =>
      refine ⟨enough, .error error, fun fuel hfuel => ?_⟩
      beta_reduce
      rw [hresult fuel hfuel]
      rfl
  | ok value =>
      obtain ⟨more, found, hfound⟩ := hnext value
      refine ⟨max enough more, found, fun fuel hfuel => ?_⟩
      beta_reduce
      rw [hresult fuel (le_of_max_le_left hfuel)]
      exact hfound fuel (le_of_max_le_right hfuel)

theorem Settles.exists_ne_none {parsed : Nat → Parsed α} (hparsed : Settles parsed) :
    ∃ fuel, parsed fuel ≠ none := by
  obtain ⟨enough, result, hresult⟩ := hparsed
  exact ⟨enough, by simp [hresult enough le_rfl]⟩

end Parsed

open Parsed (Settles settles_const)

namespace EnvHost

variable (host : EnvHost Float)

/-! ## One parser, which calls others -/

/-- What a parser does, by what it makes of the parsers that it calls. Items of a list are read in
so many rounds. -/
def step (rounds : Nat) (read : EnvParser → EnvText → Parsed (JsonType Float))
    (parser : EnvParser) (key : EnvText) : Parsed (JsonType Float) :=
  match parser with
  | .bool =>
      match host.getenv key with
      | none => .ok .missing
      | some value => .ok (.bool (host.isTrue value))
  | .int =>
      match host.getenv key with
      | none => .ok .missing
      | some value => some ((host.int value).map .int)
  | .float =>
      match host.getenv key with
      | none => .ok .missing
      | some value => some ((host.float value).map .float)
  | .str =>
      match host.getenv key with
      | none => .ok .missing
      | some value => .ok (.str value)
  | .none =>
      if host.isTrue ((host.getenv (key ++ "_IS_NONE".toList)).getD []) then .ok .none
      else .ok .missing
  | .literal values =>
      if values.contains (host.getenv key) then
        match host.getenv key with
        | none => .ok .none
        | some value => .ok (.str value)
      else .ok .missing
  | .model parsers =>
      Parsed.bind (some (host.readObject key)) fun base =>
        (host.overrideFields read key parsers base).bind fun result => .ok (toDict result)
  | .dict => Parsed.bind (some (host.readObject key)) fun result => .ok (toDict result)
  | .list itemParser =>
      match host.getenv key with
      | none =>
          (readItems (read itemParser) key rounds 0 []).bind fun items =>
            .ok (if items = [] then .missing else .list items)
      | some value =>
          Parsed.bind (some (host.readList value)) fun items =>
            (fillItems (read itemParser) key 0 items).bind fun items => .ok (.list items)
  | .union parsers => mergeParsed (read · key) parsers .missing
  | .discriminated parsers =>
      match host.kindOf parsers key with
      | none => .ok .missing
      | some kind =>
          Parsed.bind (some (host.kindParser parsers kind)) fun chosen =>
            (read chosen.2 key).bind fun found =>
              if found.isMissing ∧ host.getenv (key ++ "_KIND".toList) = none then .ok .missing
              else some (withKind chosen.1 found)
  | .delayed target =>
      match host.parser target with
      | none => .raise .assertion
      | some parser => read parser key

theorem fromEnv_succ (fuel : Nat) (parser : EnvParser) (key : EnvText) :
    host.fromEnv (fuel + 1) parser key = host.step fuel (host.fromEnv fuel) parser key := by
  cases parser with
  | literal values =>
      change (if host.getenv key ∈ values then _ else _) =
        if values.contains (host.getenv key) = true then _ else _
      by_cases hmem : host.getenv key ∈ values
      · exact (if_pos hmem).trans (if_pos (List.contains_iff_mem.mpr hmem)).symm
      · exact (if_neg hmem).trans (if_neg fun hin => hmem (List.contains_iff_mem.mp hin)).symm
  | _ => rfl

/-- Parsing as Python does it, where calls are nested only so deep. -/
def fromEnvWithin (rounds : Nat) : Nat → EnvParser → EnvText → Parsed (JsonType Float)
  | 0, _, _ => .raise .recursion
  | frames + 1, parser, key => host.step rounds (fromEnvWithin rounds frames) parser key

variable {host}

/-! ## Calls -/

/-- Which parsers a parser calls, and for which variables. -/
inductive CalledBy (host : EnvHost Float) : EnvParser × EnvText → EnvParser × EnvText → Prop
  | field {parsers : List (EnvText × EnvParser)} {field : EnvText × EnvParser} {key : EnvText}
      (hfield : field ∈ parsers)
      (hkeys : host.hasPossibleKeys (host.fieldKey key field.1) = true) :
      CalledBy host (field.2, host.fieldKey key field.1) (.model parsers, key)
  | item (itemParser : EnvParser) (key : EnvText) (index : Nat) :
      CalledBy host (itemParser, itemKey key index) (.list itemParser, key)
  | member {parsers : List EnvParser} {parser : EnvParser} {key : EnvText}
      (hparser : parser ∈ parsers) : CalledBy host (parser, key) (.union parsers, key)
  | kind {parsers : List (EnvText × EnvParser)} {kind : EnvText} {chosen : EnvText × EnvParser}
      {key : EnvText} (hkind : host.kindOf parsers key = some kind)
      (hchosen : host.kindParser parsers kind = .ok chosen) :
      CalledBy host (chosen.2, key) (.discriminated parsers, key)
  | delayed {target : Nat} {parser : EnvParser} {key : EnvText}
      (hparser : host.parser target = some parser) :
      CalledBy host (parser, key) (.delayed target, key)

section Settling

variable {read : Nat → EnvParser → EnvText → Parsed (JsonType Float)}

theorem overrideFields_settles {key : EnvText} {fields : List (EnvText × EnvParser)}
    (hread : ∀ field ∈ fields, host.hasPossibleKeys (host.fieldKey key field.1) = true →
      Settles fun fuel => read fuel field.2 (host.fieldKey key field.1))
    (result : Option (List (EnvText × JsonType Float))) :
    Settles fun fuel => host.overrideFields (read fuel) key fields result := by
  induction fields generalizing result with
  | nil => exact settles_const _
  | cons field rest ih =>
      have hvalue : Settles fun fuel => host.fieldValue (read fuel) key field := by
        by_cases hkeys : host.hasPossibleKeys (host.fieldKey key field.1) = true
        · simp only [fieldValue, if_pos hkeys]
          exact hread field List.mem_cons_self hkeys
        · simp only [fieldValue, if_neg hkeys]
          exact settles_const _
      refine hvalue.bind fun value => (settles_const _).bind fun result => ?_
      exact ih (fun other hother => hread other (List.mem_cons_of_mem _ hother)) result

theorem fillItems_settles {parser : EnvParser} {key : EnvText}
    (hread : ∀ index, Settles fun fuel => read fuel parser (itemKey key index))
    (items : List (JsonType Float)) (index : Nat) :
    Settles fun fuel => fillItems (read fuel parser) key index items := by
  induction items generalizing index with
  | nil => exact settles_const _
  | cons item rest ih =>
      refine (hread index).bind fun found => (settles_const _).bind fun merged => ?_
      exact (ih (index + 1)).bind fun rest => settles_const _

theorem mergeParsed_settles {key : EnvText} {parsers : List EnvParser}
    (hread : ∀ parser ∈ parsers, Settles fun fuel => read fuel parser key)
    (result : JsonType Float) :
    Settles fun fuel => mergeParsed (read fuel · key) parsers result := by
  induction parsers generalizing result with
  | nil => exact settles_const _
  | cons parser rest ih =>
      refine (hread parser List.mem_cons_self).bind fun found => (settles_const _).bind ?_
      exact ih fun other hother => hread other (List.mem_cons_of_mem _ hother)

/-- Items are read up to a bound at most, where they are missing from there on. -/
theorem readItems_settles {parser : EnvParser} {key : EnvText} {bound : Nat}
    (hread : ∀ index, Settles fun fuel => read fuel parser (itemKey key index))
    (hmissing : ∀ fuel index, bound ≤ index → ∀ item,
      read fuel parser (itemKey key index) = .ok item → item = .missing) (index : Nat)
    (result : List (JsonType Float)) :
    ∃ enough found, ∀ fuel rounds, enough ≤ fuel → enough ≤ rounds →
      readItems (read fuel parser) key rounds index result = some found := by
  induction hleft : bound - index using Nat.strong_induction_on generalizing index result with
  | _ left ih =>
      obtain ⟨enough, found, hfound⟩ := hread index
      beta_reduce at hfound
      have hstep : ∀ fuel rounds, enough ≤ fuel →
          readItems (read fuel parser) key (rounds + 1) index result =
            Parsed.bind (some found) fun item =>
              if item.isMissing then .ok result
              else readItems (read fuel parser) key rounds (index + 1) (result ++ [item]) := by
        intro fuel rounds hfuel
        rw [readItems, hfound fuel hfuel]
      cases found with
      | error error =>
          refine ⟨enough + 1, .error error, fun fuel rounds hfuel hrounds => ?_⟩
          obtain ⟨rounds, rfl⟩ := Nat.exists_eq_succ_of_ne_zero (by omega : rounds ≠ 0)
          exact hstep fuel rounds (by omega)
      | ok item =>
          by_cases hitem : item.isMissing
          · refine ⟨enough + 1, .ok result, fun fuel rounds hfuel hrounds => ?_⟩
            obtain ⟨rounds, rfl⟩ := Nat.exists_eq_succ_of_ne_zero (by omega : rounds ≠ 0)
            exact (hstep fuel rounds (by omega)).trans (if_pos hitem)
          · have hindex : index < bound := by
              by_contra hnot
              rw [hmissing enough index (not_lt.mp hnot) item (hfound enough le_rfl)] at hitem
              exact hitem rfl
            obtain ⟨more, rest, hrest⟩ :=
              ih (bound - (index + 1)) (by omega) (index + 1) (result ++ [item]) rfl
            refine ⟨max enough more + 1, rest, fun fuel rounds hfuel hrounds => ?_⟩
            obtain ⟨rounds, rfl⟩ := Nat.exists_eq_succ_of_ne_zero (by omega : rounds ≠ 0)
            refine (hstep fuel rounds (by omega)).trans ((if_neg hitem).trans ?_)
            exact hrest fuel rounds (by omega) (by omega)

end Settling

/-! ## Keys without variables -/

/-- No variable has a name that begins like this. -/
def Fresh (host : EnvHost Float) (key : EnvText) : Prop :=
  ∀ entry ∈ host.environ, ¬ key <+: entry.1

theorem Fresh.append {key : EnvText} (hfresh : host.Fresh key) (rest : EnvText) :
    host.Fresh (key ++ rest) :=
  fun entry hentry hprefix => hfresh entry hentry ((List.prefix_append key rest).trans hprefix)

theorem Fresh.getenv {key : EnvText} (hfresh : host.Fresh key) : host.getenv key = none := by
  rw [EnvHost.getenv, Entries.get?_eq_none_iff]
  intro hmem
  obtain ⟨entry, hentry, rfl⟩ := List.mem_map.mp hmem
  exact hfresh entry hentry List.prefix_rfl

theorem Fresh.hasPossibleKeys {key : EnvText} (hfresh : host.Fresh key) :
    host.hasPossibleKeys key = false := by
  rw [EnvHost.hasPossibleKeys, List.any_eq_false]
  intro entry hentry
  rw [decide_eq_true_eq]
  exact hfresh entry hentry

theorem itemKey_injective (key : EnvText) : Function.Injective (itemKey key) := by
  intro first second hsame
  have hdigits : Nat.toDigits 10 first = Nat.toDigits 10 second :=
    List.tail_eq_of_cons_eq (List.append_cancel_left hsame)
  rw [← @Nat.ofDigitChars_toDigits 10 first (by decide) (by decide), hdigits,
    Nat.ofDigitChars_toDigits (by decide) (by decide)]

/-- There are only so many beginnings of names, and each index has a key of its own. -/
theorem exists_fresh (host : EnvHost Float) (key : EnvText) :
    ∃ bound, ∀ index, bound ≤ index → host.Fresh (itemKey key index) := by
  have hfinite : {name : EnvText | ∃ entry ∈ host.environ, name <+: entry.1}.Finite := by
    have hnames : {name : EnvText | ∃ entry ∈ host.environ, name <+: entry.1} ⊆
        {name | name ∈ host.environ.flatMap fun entry => entry.1.inits} := by
      intro name hname
      obtain ⟨entry, hentry, hprefix⟩ := hname
      exact List.mem_flatMap.mpr ⟨entry, hentry, (List.mem_inits _ _).mpr hprefix⟩
    exact (List.finite_toSet _).subset hnames
  obtain ⟨bound, hbound⟩ := (hfinite.preimage (itemKey_injective key).injOn).bddAbove
  refine ⟨bound + 1, fun index hindex entry hentry hprefix => ?_⟩
  have hle : index ≤ bound := hbound ⟨entry, hentry, hprefix⟩
  omega

/-! ## Parsers that give something for no variable -/

/-- A literal may be `None`, which is also what there is for a missing variable. -/
inductive Gives : EnvParser → Prop
  | literal {values : List (Option EnvText)} (hnone : none ∈ values) : Gives (.literal values)
  | union {parsers : List EnvParser} {parser : EnvParser} (hparser : parser ∈ parsers)
      (hgives : Gives parser) : Gives (.union parsers)

/-- The items of lists are missing where there is no variable for them. -/
inductive ItemsEnd : EnvParser → Prop
  | bool : ItemsEnd .bool
  | int : ItemsEnd .int
  | float : ItemsEnd .float
  | str : ItemsEnd .str
  | none : ItemsEnd .none
  | literal (values : List (Option EnvText)) : ItemsEnd (.literal values)
  | model {parsers : List (EnvText × EnvParser)}
      (hparsers : ∀ field ∈ parsers, ItemsEnd field.2) : ItemsEnd (.model parsers)
  | dict : ItemsEnd .dict
  | list {itemParser : EnvParser} (hitem : ItemsEnd itemParser) (hgives : ¬ Gives itemParser) :
      ItemsEnd (.list itemParser)
  | union {parsers : List EnvParser} (hparsers : ∀ parser ∈ parsers, ItemsEnd parser) :
      ItemsEnd (.union parsers)
  | discriminated {parsers : List (EnvText × EnvParser)}
      (hparsers : ∀ entry ∈ parsers, ItemsEnd entry.2) : ItemsEnd (.discriminated parsers)
  | delayed (target : Nat) : ItemsEnd (.delayed target)

/-- The items of all lists end, also of those in parsers that are delayed or imported. -/
structure GraphEnds (host : EnvHost Float) : Prop where
  upper_nil : host.upper [] = []
  delayed : ∀ target parser, host.parser target = some parser → ItemsEnd parser ∧ ¬ Gives parser
  imported : ∀ moduleName className parser,
    host.importClass moduleName className = .ok parser → ItemsEnd parser

theorem map_eq_ok {α β : Type} {f : α → β} {result : Except EnvError α} {value : β}
    (hmap : result.map f = .ok value) : ∃ found, result = .ok found ∧ f found = value := by
  cases result with
  | error error => cases hmap
  | ok found => exact ⟨found, rfl, Except.ok.inj hmap⟩

/-- The parser for a kind is one of those that are there, or is imported. -/
theorem kindParser_cases {parsers : List (EnvText × EnvParser)} {kind : EnvText}
    {chosen : EnvText × EnvParser} (hchosen : host.kindParser parsers kind = .ok chosen) :
    chosen ∈ parsers ∨
      ∃ moduleName className, host.importClass moduleName className = .ok chosen.2 := by
  rw [kindParser] at hchosen
  split at hchosen
  next =>
    rw [importAndRegisterClass] at hchosen
    split at hchosen
    next parser hfound =>
      obtain rfl := Except.ok.inj hchosen
      exact .inl (Entries.mem_of_get?_eq_some hfound)
    next =>
      obtain ⟨parser, himport, rfl⟩ := map_eq_ok hchosen
      exact .inr ⟨_, _, himport⟩
  next =>
    split at hchosen
    next parser hfound =>
      obtain rfl := Except.ok.inj hchosen
      exact .inl (Entries.mem_of_get?_eq_some hfound)
    next => cases hchosen

theorem kindParser_itemsEnd (hgraph : GraphEnds host) {parsers : List (EnvText × EnvParser)}
    (hparsers : ∀ entry ∈ parsers, ItemsEnd entry.2) {kind : EnvText}
    {chosen : EnvText × EnvParser} (hchosen : host.kindParser parsers kind = .ok chosen) :
    ItemsEnd chosen.2 := by
  rcases kindParser_cases hchosen with hmem | ⟨moduleName, className, himport⟩
  · exact hparsers chosen hmem
  · exact hgraph.imported _ _ _ himport

theorem ItemsEnd.called (hgraph : GraphEnds host) {called caller : EnvParser × EnvText}
    (hends : ItemsEnd caller.1) (hcalled : CalledBy host called caller) : ItemsEnd called.1 := by
  cases hcalled with
  | field hfield hkeys =>
      cases hends with
      | model hparsers => exact hparsers _ hfield
  | item itemParser key index =>
      cases hends with
      | list hitem hgives => exact hitem
  | member hparser =>
      cases hends with
      | union hparsers => exact hparsers _ hparser
  | kind hkind hchosen =>
      cases hends with
      | discriminated hparsers => exact kindParser_itemsEnd hgraph hparsers hchosen
  | delayed hparser => exact (hgraph.delayed _ _ hparser).1

/-- What is read where there is no variable. -/
def Quiet (parser : EnvParser) (parsed : Parsed (JsonType Float)) : Prop :=
  ∀ value, parsed = .ok value → value = .missing ∨ value = .none ∧ Gives parser

theorem quiet_missing (parser : EnvParser) :
    Quiet parser (.ok .missing : Parsed (JsonType Float)) := by
  intro value hvalue
  cases hvalue
  exact .inl rfl

/-- Two values that are missing or `None` are merged into one of them. -/
theorem merge_quiet {given : Prop} {a b merged : JsonType Float}
    (ha : a = .missing ∨ a = .none ∧ given) (hb : b = .missing ∨ b = .none ∧ given)
    (hmerge : merge a b = .ok merged) : merged = .missing ∨ merged = .none ∧ given := by
  rcases ha with rfl | ⟨rfl, hgiven⟩
  · rw [merge] at hmerge
    cases hmerge
    exact hb
  · rcases hb with rfl | ⟨rfl, _⟩
    · cases hmerge
      exact .inr ⟨rfl, hgiven⟩
    · cases hmerge
      exact .inr ⟨rfl, hgiven⟩

section Fresh

variable {read : EnvParser → EnvText → Parsed (JsonType Float)}

theorem mergeParsed_quiet {given : Prop} {read : EnvParser → Parsed (JsonType Float)}
    {parsers : List EnvParser}
    (hread : ∀ parser ∈ parsers, ∀ value, read parser = .ok value →
      value = .missing ∨ value = .none ∧ given) {result value : JsonType Float}
    (hresult : result = .missing ∨ result = .none ∧ given)
    (hparsed : mergeParsed read parsers result = .ok value) :
    value = .missing ∨ value = .none ∧ given := by
  induction parsers generalizing result with
  | nil =>
      cases hparsed
      exact hresult
  | cons parser rest ih =>
      rw [mergeParsed] at hparsed
      obtain ⟨found, hfound, hparsed⟩ := Parsed.bind_eq_ok hparsed
      obtain ⟨merged, hmerged, hparsed⟩ := Parsed.bind_eq_ok hparsed
      exact ih (fun other hother => hread other (.tail _ hother))
        (merge_quiet hresult (hread parser (.head _) found hfound) (Option.some.inj hmerged))
        hparsed

/-- No field is read, since none has variables. -/
theorem Fresh.overrideFields {key : EnvText} (hfresh : host.Fresh key)
    (fields : List (EnvText × EnvParser)) (result : Option (List (EnvText × JsonType Float))) :
    host.overrideFields read key fields result = .ok result := by
  induction fields generalizing result with
  | nil => rfl
  | cons field rest ih =>
      have hkeys : host.hasPossibleKeys (host.fieldKey key field.1) = false :=
        (hfresh.append _).hasPossibleKeys
      have hvalue : host.fieldValue read key field = .ok .missing := by
        rw [fieldValue, hkeys]
        rfl
      rw [EnvHost.overrideFields, hvalue]
      exact ih result

theorem Fresh.readObject {key : EnvText} (hfresh : host.Fresh key) :
    host.readObject key = .ok none := by
  rw [EnvHost.readObject, hfresh.getenv]

/-- The first item is missing already. -/
theorem Fresh.readItems {read : EnvText → Parsed (JsonType Float)} {key : EnvText}
    (hread : ∀ value, read (itemKey key 0) = .ok value → value = .missing) {rounds : Nat}
    {items : List (JsonType Float)} (hitems : readItems read key rounds 0 [] = .ok items) :
    items = [] := by
  cases rounds with
  | zero => cases hitems
  | succ rounds =>
      rw [EnvHost.readItems] at hitems
      obtain ⟨item, hitem, hitems⟩ := Parsed.bind_eq_ok hitems
      rw [hread item hitem] at hitems
      cases hitems
      rfl

/-- Where there is no variable, a parser gives nothing, or `None` if it takes that for a value. -/
theorem step_quiet (hgraph : GraphEnds host)
    (hread : ∀ parser key, ItemsEnd parser → host.Fresh key → Quiet parser (read parser key))
    (rounds : Nat) {parser : EnvParser} {key : EnvText} (hends : ItemsEnd parser)
    (hfresh : host.Fresh key) : Quiet parser (host.step rounds read parser key) := by
  cases hends with
  | bool =>
      rw [step, hfresh.getenv]
      exact quiet_missing _
  | int =>
      rw [step, hfresh.getenv]
      exact quiet_missing _
  | float =>
      rw [step, hfresh.getenv]
      exact quiet_missing _
  | str =>
      rw [step, hfresh.getenv]
      exact quiet_missing _
  | none =>
      have hnone : host.isTrue [] = false := by
        rw [isTrue, hgraph.upper_nil]
        decide
      rw [step, (hfresh.append _).getenv, Option.getD_none, hnone]
      exact quiet_missing _
  | literal values =>
      rw [step, hfresh.getenv]
      split
      next hmem =>
        intro value hvalue
        cases hvalue
        exact .inr ⟨rfl, .literal (List.contains_iff_mem.mp hmem)⟩
      next => exact quiet_missing _
  | model hparsers =>
      rw [step, hfresh.readObject]
      change Quiet _ ((host.overrideFields read key _ Option.none).bind _)
      rw [hfresh.overrideFields]
      exact quiet_missing _
  | dict =>
      rw [step, hfresh.readObject]
      exact quiet_missing _
  | @list itemParser hitem hgives =>
      rw [step, hfresh.getenv]
      intro value hvalue
      obtain ⟨items, hitems, hvalue⟩ := Parsed.bind_eq_ok hvalue
      have hempty := Fresh.readItems (fun value hvalue => by
        rcases hread _ _ hitem (hfresh.append _) value hvalue with hmissing | ⟨_, hgiven⟩
        · exact hmissing
        · exact absurd hgiven hgives) hitems
      rw [if_pos hempty] at hvalue
      cases hvalue
      exact .inl rfl
  | union hparsers =>
      intro value hvalue
      exact mergeParsed_quiet (fun parser hparser value hvalue => by
        rcases hread _ _ (hparsers parser hparser) hfresh value hvalue with hmissing | hgiven
        · exact .inl hmissing
        · exact .inr ⟨hgiven.1, .union hparser hgiven.2⟩) (.inl rfl) hvalue
  | discriminated hparsers =>
      have hkind : host.getenv (key ++ "_KIND".toList) = Option.none := (hfresh.append _).getenv
      rw [step]
      split
      next => exact quiet_missing _
      next kind _ =>
        intro value hvalue
        obtain ⟨chosen, hchosen, hvalue⟩ := Parsed.bind_eq_ok hvalue
        obtain ⟨found, hfound, hvalue⟩ := Parsed.bind_eq_ok hvalue
        have hchosenEnds := kindParser_itemsEnd hgraph hparsers (Option.some.inj hchosen)
        rcases hread _ _ hchosenEnds hfresh found hfound with rfl | ⟨rfl, _⟩
        · rw [if_pos ⟨rfl, hkind⟩] at hvalue
          cases hvalue
          exact .inl rfl
        · cases hvalue
  | delayed target =>
      rw [step]
      split
      next =>
        intro value hvalue
        cases hvalue
      next parser hparser =>
        obtain ⟨hends, hgives⟩ := hgraph.delayed target parser hparser
        intro value hvalue
        rcases hread _ _ hends hfresh value hvalue with hmissing | ⟨_, hgiven⟩
        · exact .inl hmissing
        · exact absurd hgiven hgives

end Fresh

theorem fromEnv_quiet (hgraph : GraphEnds host) (fuel : Nat) {parser : EnvParser} {key : EnvText}
    (hends : ItemsEnd parser) (hfresh : host.Fresh key) :
    Quiet parser (host.fromEnv fuel parser key) := by
  induction fuel generalizing parser key with
  | zero =>
      intro value hvalue
      cases hvalue
  | succ fuel ih =>
      rw [fromEnv_succ]
      exact step_quiet hgraph (fun parser key => ih) fuel hends hfresh

theorem fromEnvWithin_quiet (hgraph : GraphEnds host) (rounds frames : Nat) {parser : EnvParser}
    {key : EnvText} (hends : ItemsEnd parser) (hfresh : host.Fresh key) :
    Quiet parser (host.fromEnvWithin rounds frames parser key) := by
  induction frames generalizing parser key with
  | zero =>
      intro value hvalue
      cases hvalue
  | succ frames ih =>
      exact step_quiet hgraph (fun parser key => ih) rounds hends hfresh

/-! ## Circles of calls -/

/-- The calls of parsers other than those for the fields of a model. -/
inductive Beside (host : EnvHost Float) : EnvParser → EnvParser → Prop
  | item (itemParser : EnvParser) : Beside host itemParser (.list itemParser)
  | member {parsers : List EnvParser} {parser : EnvParser} (hparser : parser ∈ parsers) :
      Beside host parser (.union parsers)
  | kind {parsers : List (EnvText × EnvParser)} {kind : EnvText} {chosen : EnvText × EnvParser}
      (hchosen : host.kindParser parsers kind = .ok chosen) :
      Beside host chosen.2 (.discriminated parsers)
  | delayed {target : Nat} {parser : EnvParser} (hparser : host.parser target = some parser) :
      Beside host parser (.delayed target)

theorem exists_longest (environ : List (EnvText × EnvText)) :
    ∃ longest, ∀ entry ∈ environ, entry.1.length ≤ longest := by
  induction environ with
  | nil => exact ⟨0, fun _ hentry => nomatch hentry⟩
  | cons first rest ih =>
      obtain ⟨longest, hlongest⟩ := ih
      refine ⟨max first.1.length longest, fun entry hentry => ?_⟩
      rcases List.mem_cons.mp hentry with rfl | hentry
      · exact le_max_left _ _
      · exact (hlongest entry hentry).trans (le_max_right _ _)

/-- From one model to the next there are only so many calls. -/
theorem acc_calledBy_of_fields (hbeside : ∀ parser, Acc (Beside host) parser) {length : Nat}
    (hfields : ∀ parser key, length < key.length → host.hasPossibleKeys key = true →
      Acc (CalledBy host) (parser, key)) (parser : EnvParser) {key : EnvText}
    (hkey : length ≤ key.length) : Acc (CalledBy host) (parser, key) := by
  induction hbeside parser generalizing key with
  | intro parser _ ih =>
      refine ⟨_, fun called hcalled => ?_⟩
      cases hcalled with
      | field hfield hkeys =>
          refine hfields _ _ ?_ hkeys
          rw [fieldKey, List.length_append, List.length_cons]
          omega
      | item itemParser key index =>
          refine ih _ (.item itemParser) ?_
          rw [itemKey, List.length_append]
          omega
      | member hparser => exact ih _ (.member hparser) hkey
      | kind hkind hchosen => exact ih _ (.kind hchosen) hkey
      | delayed hparser => exact ih _ (.delayed hparser) hkey

/-- A model goes on only to a longer name that a variable still has. -/
theorem acc_calledBy (hbeside : ∀ parser, Acc (Beside host) parser) (parser : EnvParser)
    (key : EnvText) : Acc (CalledBy host) (parser, key) := by
  obtain ⟨longest, hlongest⟩ := exists_longest host.environ
  have hlong : ∀ left length, longest ≤ length + left → ∀ parser (key : EnvText),
      length ≤ key.length → Acc (CalledBy host) (parser, key) := by
    intro left
    induction left with
    | zero =>
        intro length hlength parser key hkey
        refine acc_calledBy_of_fields hbeside (fun _ key hlonger hkeys => ?_) parser hkey
        obtain ⟨entry, hentry, hprefix⟩ := List.any_eq_true.mp hkeys
        have hshort := (of_decide_eq_true hprefix).length_le
        have hname := hlongest entry hentry
        omega
    | succ left ih =>
        intro length hlength parser key hkey
        refine acc_calledBy_of_fields hbeside (fun parser key hlonger _ => ?_) parser hkey
        exact ih (length + 1) (by omega) parser key hlonger
  exact hlong longest 0 (by omega) parser key (Nat.zero_le _)

/-! ## The end -/

section Settling

variable {read : Nat → EnvParser → EnvText → Parsed (JsonType Float)}

/-- A parser settles if all that it calls do. -/
theorem step_settles (hquiet : ∀ fuel parser key, ItemsEnd parser → host.Fresh key →
      Quiet parser (read fuel parser key)) {parser : EnvParser} {key : EnvText}
    (hparser : ItemsEnd parser)
    (hread : ∀ called, CalledBy host called (parser, key) →
      Settles fun fuel => read fuel called.1 called.2) :
    Settles fun fuel => host.step fuel (read fuel) parser key := by
  cases hparser with
  | model hparsers =>
      refine (settles_const _).bind fun base => Settles.bind ?_ fun result => settles_const _
      exact overrideFields_settles (fun field hfield hkeys => hread _ (.field hfield hkeys)) base
  | @list itemParser hitem hgives =>
      have hitems : ∀ index, Settles fun fuel => read fuel itemParser (itemKey key index) :=
        fun index => hread _ (.item itemParser key index)
      simp only [step]
      split
      next =>
        obtain ⟨bound, hbound⟩ := exists_fresh host key
        have hmissing : ∀ fuel index, bound ≤ index → ∀ item,
            read fuel itemParser (itemKey key index) = .ok item → item = .missing := by
          intro fuel index hindex item hitemRead
          rcases hquiet _ _ _ hitem (hbound index hindex) item hitemRead with hmissing | hgiven
          · exact hmissing
          · exact absurd hgiven.2 hgives
        obtain ⟨enough, found, hfound⟩ := readItems_settles hitems hmissing 0 []
        refine Settles.bind ?_ fun items => settles_const _
        exact ⟨enough, found, fun fuel hfuel => hfound fuel fuel hfuel hfuel⟩
      next value _ =>
        refine (settles_const _).bind fun items => Settles.bind ?_ fun items => settles_const _
        exact fillItems_settles hitems items 0
  | union hparsers =>
      exact mergeParsed_settles
        (fun parser hparser => hread (parser, key) (.member hparser)) .missing
  | @discriminated parsers hparsers =>
      simp only [step]
      split
      next => exact settles_const _
      next kind hkind =>
        cases hchosen : host.kindParser parsers kind with
        | error error => exact settles_const (.error error)
        | ok chosen =>
            have hcalled : Settles fun fuel => read fuel chosen.2 key :=
              hread _ (.kind hkind hchosen)
            refine hcalled.bind fun found => ?_
            split
            next => exact settles_const _
            next => exact settles_const _
  | delayed target =>
      simp only [step]
      split
      next => exact settles_const _
      next parser hparser => exact hread _ (.delayed hparser)
  | literal values =>
      simp only [step]
      split
      next => split <;> exact settles_const _
      next => exact settles_const _
  | dict => exact (settles_const _).bind fun result => settles_const _
  | bool | int | float | str | none =>
      simp only [step]
      split <;> exact settles_const _

end Settling

/-- However deep calls may be nested, there are enough rounds for all lists. -/
theorem fromEnvWithin_settles (hgraph : GraphEnds host) (frames : Nat) {parser : EnvParser}
    (hparser : ItemsEnd parser) (key : EnvText) :
    Settles fun rounds => host.fromEnvWithin rounds frames parser key := by
  induction frames generalizing parser key with
  | zero => exact settles_const _
  | succ frames ih =>
      exact step_settles (fun rounds parser key => fromEnvWithin_quiet hgraph rounds frames)
        hparser fun called hcalled => ih (ItemsEnd.called hgraph hparser hcalled) called.2

/-- If there are only so many calls after another, then parsing settles. -/
theorem fromEnv_settles_of_acc (hgraph : GraphEnds host) {call : EnvParser × EnvText}
    (hacc : Acc (CalledBy host) call) (hparser : ItemsEnd call.1) :
    Settles fun fuel => host.fromEnv fuel call.1 call.2 := by
  induction hacc with
  | intro call _ ih =>
      obtain ⟨enough, result, hresult⟩ := step_settles
        (fun fuel parser key => fromEnv_quiet hgraph fuel) hparser
        fun called hcalled => ih called hcalled (ItemsEnd.called hgraph hparser hcalled)
      refine ⟨enough + 1, result, fun fuel hfuel => ?_⟩
      obtain ⟨fuel, rfl⟩ := Nat.exists_eq_succ_of_ne_zero (by omega : fuel ≠ 0)
      beta_reduce
      rw [Nat.succ_eq_add_one, fromEnv_succ]
      exact hresult fuel (Nat.le_of_succ_le_succ hfuel)

end EnvHost

end ShuttleFlow
