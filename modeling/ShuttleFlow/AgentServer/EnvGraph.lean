import ShuttleFlow.AgentServer.EnvTermination

/-! # The graph of parsers for the types of a program

Classes may refer to each other in circles. Reading variables ends all the same, if no list has
items that may be `None` without a variable.
-/

namespace ShuttleFlow

variable {Float : Type}

/-- The types that there are parsers for, with a name in place of a class. -/
inductive EnvType
  | bool
  | int
  | float
  | str
  /-- `UUID`, `Path`, `datetime` or `SecretStr`. -/
  | text
  | none
  | annotated (target : EnvType)
  | union (members : List EnvType)
  | list (item : EnvType)
  | dict (keys values : EnvType)
  | literal (values : List (Option EnvText))
  | enum (values : List (Option EnvText))
  | cls (name : Nat)
  | other

/-- A class is a model, or an abstract base with concrete subclasses. -/
inductive EnvClass
  | model (fields : List (EnvText × EnvType))
  | base (subclasses : List (EnvText × Nat))

/-- The classes of a program. A subclass that is not abstract is a model. -/
structure ClassTable where
  find : Nat → Option EnvClass
  concrete : ∀ name subclasses, find name = some (.base subclasses) → ∀ entry ∈ subclasses,
    ∃ fields, find entry.2 = some (.model fields)

namespace EnvType

def isStr : EnvType → Bool
  | .str => true
  | _ => false

def isScalar : EnvType → Bool
  | .str => true
  | .int => true
  | .float => true
  | .bool => true
  | _ => false

mutual

def getEnvParser : EnvType → Except EnvError EnvParser
  | .bool => .ok .bool
  | .int => .ok .int
  | .float => .ok .float
  | .str => .ok .str
  | .text => .ok .str
  | .none => .ok .none
  | .annotated target => getEnvParser target
  | .union members => (getEnvParsers members).map .union
  | .list item => (getEnvParser item).map .list
  | .dict keys values => if keys.isStr && values.isScalar then .ok .dict else .error .assertion
  | .literal values => .ok (.literal values)
  | .enum values => .ok (.literal values)
  | .cls name => .ok (.delayed name)
  | .other => .error .value

def getEnvParsers : List EnvType → Except EnvError (List EnvParser)
  | [] => .ok []
  | member :: rest => do
      let parser ← getEnvParser member
      let parsers ← getEnvParsers rest
      .ok (parser :: parsers)

end

end EnvType

open EnvType (getEnvParser getEnvParsers)

namespace ClassTable

variable (types : ClassTable)

def fieldParsers (fields : List (EnvText × EnvType)) :
    Except EnvError (List (EnvText × EnvParser)) :=
  (getEnvParsers (fields.map Prod.snd)).map (fields.map Prod.fst).zip

/-- The parser for a class, which the delayed one stands for. There is none for a class with a
field that cannot be parsed. -/
def classParser (name : Nat) : Option EnvParser :=
  match types.find name with
  | none => none
  | some (.model fields) => (fieldParsers fields).toOption.map .model
  | some (.base subclasses) =>
      some (.discriminated
        (Entries.build (subclasses.map fun entry => (entry.1, .delayed entry.2))))

/-- Parsing with the parsers for these classes, where modules have these attributes. -/
def parsing (host : EnvHost Float) (getattr : EnvText → EnvText → Except EnvError EnvType) :
    EnvHost Float :=
  { host with
    parser := types.classParser
    importClass := fun moduleName className => (getattr moduleName className).bind getEnvParser }

end ClassTable

/-! ## Lists -/

namespace EnvType

/-- A literal that may be `None`. -/
def IsNoneLiteral (type : EnvType) : Prop :=
  ∃ values, type = .literal values ∧ Option.none ∈ values

/-- There may be `None` for it where there is no variable. -/
inductive TakesNone : EnvType → Prop
  | literal {values : List (Option EnvText)} (hnone : Option.none ∈ values) :
      TakesNone (.literal values)
  | enum {values : List (Option EnvText)} (hnone : Option.none ∈ values) : TakesNone (.enum values)
  | annotated {target : EnvType} (htakes : TakesNone target) : TakesNone (.annotated target)
  | union {members : List EnvType} {member : EnvType} (hmember : member ∈ members)
      (htakes : TakesNone member) : TakesNone (.union members)

/-- No list in a type has items of a bad type. -/
inductive NoItems (bad : EnvType → Prop) : EnvType → Prop
  | bool : NoItems bad .bool
  | int : NoItems bad .int
  | float : NoItems bad .float
  | str : NoItems bad .str
  | text : NoItems bad .text
  | none : NoItems bad .none
  | annotated {target : EnvType} (htarget : NoItems bad target) : NoItems bad (.annotated target)
  | union {members : List EnvType} (hmembers : ∀ member ∈ members, NoItems bad member) :
      NoItems bad (.union members)
  | list {item : EnvType} (hitem : NoItems bad item) (hbad : ¬ bad item) : NoItems bad (.list item)
  | dict (keys values : EnvType) : NoItems bad (.dict keys values)
  | literal (values : List (Option EnvText)) : NoItems bad (.literal values)
  | enum (values : List (Option EnvText)) : NoItems bad (.enum values)
  | cls (name : Nat) : NoItems bad (.cls name)
  | other : NoItems bad .other

end EnvType

open EnvType (IsNoneLiteral TakesNone NoItems)

/-- No list has items of a bad type, in a type, in the classes or in what can be imported. -/
structure ItemTypes (bad : EnvType → Prop) (types : ClassTable)
    (getattr : EnvText → EnvText → Except EnvError EnvType) (target : EnvType) : Prop where
  target : NoItems bad target
  fields : ∀ name fields, types.find name = some (.model fields) → ∀ field ∈ fields,
    NoItems bad field.2
  imported : ∀ moduleName className type, getattr moduleName className = .ok type →
    NoItems bad type

/-- What is imported is a class that is not abstract. -/
def ImportsModels (types : ClassTable) (getattr : EnvText → EnvText → Except EnvError EnvType) :
    Prop :=
  ∀ moduleName className type, getattr moduleName className = .ok type →
    ∃ name fields, type = .cls name ∧ types.find name = some (.model fields)

/-! ## Parsers for types -/

open EnvHost (Gives ItemsEnd GraphEnds Beside CalledBy)

theorem getEnvParsers_mem {members : List EnvType} {parsers : List EnvParser}
    (hparsers : getEnvParsers members = .ok parsers) {parser : EnvParser}
    (hparser : parser ∈ parsers) : ∃ member ∈ members, getEnvParser member = .ok parser := by
  induction members generalizing parsers with
  | nil =>
      cases hparsers
      cases hparser
  | cons member rest ih =>
      rw [getEnvParsers] at hparsers
      cases hfirst : getEnvParser member with
      | error error =>
          rw [hfirst] at hparsers
          cases hparsers
      | ok first =>
          cases hrest : getEnvParsers rest with
          | error error =>
              rw [hfirst, hrest] at hparsers
              cases hparsers
          | ok others =>
              rw [hfirst, hrest] at hparsers
              cases hparsers
              rcases List.mem_cons.mp hparser with rfl | hparser
              · exact ⟨member, .head _, hfirst⟩
              · obtain ⟨found, hfound, hget⟩ := ih hrest hparser
                exact ⟨found, .tail _ hfound, hget⟩

theorem fieldParsers_mem {fields : List (EnvText × EnvType)}
    {parsers : List (EnvText × EnvParser)} (hparsers : ClassTable.fieldParsers fields = .ok parsers)
    {entry : EnvText × EnvParser} (hentry : entry ∈ parsers) :
    ∃ field ∈ fields, getEnvParser field.2 = .ok entry.2 := by
  obtain ⟨found, hfound, rfl⟩ := EnvHost.map_eq_ok hparsers
  obtain ⟨type, htype, hget⟩ := getEnvParsers_mem hfound (List.of_mem_zip hentry).2
  obtain ⟨field, hfield, rfl⟩ := List.mem_map.mp htype
  exact ⟨field, hfield, hget⟩

theorem takesNone_of_gives {type : EnvType} {parser : EnvParser}
    (hparser : getEnvParser type = .ok parser) (hgives : Gives parser) : TakesNone type := by
  match type with
  | .literal values =>
      cases hparser
      cases hgives with
      | literal hnone => exact .literal hnone
  | .enum values =>
      cases hparser
      cases hgives with
      | literal hnone => exact .enum hnone
  | .annotated target =>
      rw [getEnvParser] at hparser
      exact .annotated (takesNone_of_gives hparser hgives)
  | .union members =>
      rw [getEnvParser] at hparser
      obtain ⟨parsers, hparsers, rfl⟩ := EnvHost.map_eq_ok hparser
      cases hgives with
      | union hmember hgives =>
          obtain ⟨member, hmember, hget⟩ := getEnvParsers_mem hparsers hmember
          exact .union hmember (takesNone_of_gives hget hgives)
  | .list item =>
      rw [getEnvParser] at hparser
      obtain ⟨itemParser, _, rfl⟩ := EnvHost.map_eq_ok hparser
      cases hgives
  | .dict keys values =>
      rw [getEnvParser] at hparser
      split at hparser
      next =>
        cases hparser
        cases hgives
      next => cases hparser
  | .bool | .int | .float | .str | .text | .none | .cls _ =>
      cases hparser
      cases hgives
  | .other => cases hparser

theorem itemsEnd_of_getEnvParser {type : EnvType} {parser : EnvParser}
    (hitems : NoItems TakesNone type) (hparser : getEnvParser type = .ok parser) :
    ItemsEnd parser := by
  induction hitems generalizing parser with
  | annotated _ ih =>
      rw [getEnvParser] at hparser
      exact ih hparser
  | union _ ih =>
      rw [getEnvParser] at hparser
      obtain ⟨parsers, hparsers, rfl⟩ := EnvHost.map_eq_ok hparser
      refine .union fun parser hparser => ?_
      obtain ⟨member, hmember, hget⟩ := getEnvParsers_mem hparsers hparser
      exact ih member hmember hget
  | list _ hbad ih =>
      rw [getEnvParser] at hparser
      obtain ⟨itemParser, hitem, rfl⟩ := EnvHost.map_eq_ok hparser
      exact .list (ih hitem) fun hgives => hbad (takesNone_of_gives hitem hgives)
  | dict keys values =>
      rw [getEnvParser] at hparser
      split at hparser
      next =>
        cases hparser
        exact .dict
      next => cases hparser
  | literal values =>
      cases hparser
      exact .literal values
  | enum values =>
      cases hparser
      exact .literal values
  | cls name =>
      cases hparser
      exact .delayed name
  | other => cases hparser
  | bool =>
      cases hparser
      exact .bool
  | int =>
      cases hparser
      exact .int
  | float =>
      cases hparser
      exact .float
  | str =>
      cases hparser
      exact .str
  | text =>
      cases hparser
      exact .str
  | none =>
      cases hparser
      exact .none

/-- The entries of a dictionary are those it is built from. -/
theorem mem_of_mem_build {κ ν : Type} [DecidableEq κ] {entries : List (κ × ν)} {entry : κ × ν}
    (hentry : entry ∈ Entries.build entries) : entry ∈ entries := by
  induction entries using List.reverseRecOn with
  | nil => cases hentry
  | append_singleton rest last ih =>
      rw [Entries.build_snoc] at hentry
      rcases Entries.mem_set hentry with rfl | hentry
      · exact List.mem_append_right _ (List.mem_singleton_self _)
      · exact List.mem_append_left _ (ih hentry)

/-- The parser for a class is one for a model, or one for models of given kinds. -/
theorem classParser_cases {types : ClassTable} {name : Nat} {parser : EnvParser}
    (hparser : types.classParser name = some parser) :
    (∃ fields parsers, types.find name = some (.model fields) ∧
      ClassTable.fieldParsers fields = .ok parsers ∧ parser = .model parsers) ∨
    ∃ parsers, parser = .discriminated parsers ∧ ∀ entry ∈ parsers,
      ∃ target fields, entry.2 = .delayed target ∧ types.find target = some (.model fields) := by
  rw [ClassTable.classParser] at hparser
  split at hparser
  next => cases hparser
  next fields hfind =>
    left
    cases hfields : ClassTable.fieldParsers fields with
    | error error =>
        rw [hfields] at hparser
        cases hparser
    | ok parsers =>
        rw [hfields] at hparser
        cases hparser
        exact ⟨fields, parsers, hfind, hfields, rfl⟩
  next subclasses hfind =>
    right
    cases hparser
    refine ⟨_, rfl, fun entry hentry => ?_⟩
    obtain ⟨subclass, hsubclass, rfl⟩ := List.mem_map.mp (mem_of_mem_build hentry)
    obtain ⟨fields, hmodel⟩ := types.concrete name subclasses hfind subclass hsubclass
    exact ⟨subclass.2, fields, rfl, hmodel⟩

section Parsing

variable {types : ClassTable} {host : EnvHost Float}
  {getattr : EnvText → EnvText → Except EnvError EnvType} {target : EnvType}

theorem graphEnds_parsing (hupper : host.upper [] = [])
    (hitems : ItemTypes TakesNone types getattr target) :
    GraphEnds (types.parsing host getattr) where
  upper_nil := hupper
  delayed := by
    intro name parser hparser
    rcases classParser_cases hparser with ⟨fields, parsers, hfind, hfields, rfl⟩ |
      ⟨parsers, rfl, hparsers⟩
    · refine ⟨.model fun entry hentry => ?_, fun hgives => nomatch hgives⟩
      obtain ⟨field, hfield, hget⟩ := fieldParsers_mem hfields hentry
      exact itemsEnd_of_getEnvParser (hitems.fields name fields hfind field hfield) hget
    · refine ⟨.discriminated fun entry hentry => ?_, fun hgives => nomatch hgives⟩
      obtain ⟨subclass, _, hdelayed, _⟩ := hparsers entry hentry
      rw [hdelayed]
      exact .delayed subclass
  imported := by
    intro moduleName className parser hparser
    change (getattr moduleName className).bind getEnvParser = .ok parser at hparser
    cases hgetattr : getattr moduleName className with
    | error error =>
        rw [hgetattr] at hparser
        cases hparser
    | ok type =>
        rw [hgetattr] at hparser
        exact itemsEnd_of_getEnvParser (hitems.imported _ _ _ hgetattr) hparser

/-- A model calls nothing but parsers for its fields. -/
theorem acc_model (parsers : List (EnvText × EnvParser)) : Acc (Beside host) (.model parsers) :=
  ⟨_, fun _ hbeside => nomatch hbeside⟩

theorem acc_delayed_model {name : Nat} {fields : List (EnvText × EnvType)}
    (hfind : types.find name = some (.model fields)) :
    Acc (Beside (types.parsing host getattr)) (.delayed name) := by
  refine ⟨_, fun called hbeside => ?_⟩
  cases hbeside with
  | delayed hparser =>
      change types.classParser name = some called at hparser
      rw [ClassTable.classParser, hfind] at hparser
      obtain ⟨parsers, _, rfl⟩ := Option.map_eq_some_iff.mp hparser
      exact acc_model parsers

theorem acc_discriminated (himports : ImportsModels types getattr)
    {parsers : List (EnvText × EnvParser)}
    (hparsers : ∀ entry ∈ parsers, Acc (Beside (types.parsing host getattr)) entry.2) :
    Acc (Beside (types.parsing host getattr)) (.discriminated parsers) := by
  refine ⟨_, fun called hbeside => ?_⟩
  cases hbeside with
  | kind hchosen =>
      rcases EnvHost.kindParser_cases hchosen with hentry | ⟨moduleName, className, himport⟩
      · exact hparsers _ hentry
      · change (getattr moduleName className).bind getEnvParser = _ at himport
        cases hgetattr : getattr moduleName className with
        | error error =>
            rw [hgetattr] at himport
            cases himport
        | ok type =>
            obtain ⟨name, fields, rfl, hfind⟩ := himports _ _ _ hgetattr
            rw [hgetattr] at himport
            have hdelayed := Except.ok.inj himport
            rw [← hdelayed]
            exact acc_delayed_model hfind

theorem acc_delayed (himports : ImportsModels types getattr) (name : Nat) :
    Acc (Beside (types.parsing host getattr)) (.delayed name) := by
  refine ⟨_, fun called hbeside => ?_⟩
  cases hbeside with
  | delayed hparser =>
      rcases classParser_cases hparser with ⟨fields, parsers, _, _, rfl⟩ | ⟨parsers, rfl, hparsers⟩
      · exact acc_model parsers
      · refine acc_discriminated himports fun entry hentry => ?_
        obtain ⟨subclass, fields, hdelayed, hfind⟩ := hparsers entry hentry
        rw [hdelayed]
        exact acc_delayed_model hfind

/-- Every circle of calls goes through the field of a model. -/
theorem acc_beside (himports : ImportsModels types getattr) (parser : EnvParser) :
    Acc (Beside (types.parsing host getattr)) parser := by
  match parser with
  | .list itemParser =>
      refine ⟨_, fun called hbeside => ?_⟩
      cases hbeside with
      | item => exact acc_beside himports itemParser
  | .union parsers =>
      refine ⟨_, fun called hbeside => ?_⟩
      cases hbeside with
      | member hparser => exact acc_beside himports called
  | .discriminated parsers =>
      exact acc_discriminated himports fun entry hentry => acc_beside himports entry.2
  | .delayed name => exact acc_delayed himports name
  | .model parsers => exact acc_model parsers
  | .bool | .int | .float | .str | .none | .literal _ | .dict =>
      exact ⟨_, fun _ hbeside => nomatch hbeside⟩
termination_by sizeOf parser
decreasing_by
  · simp
  · have hlt := List.sizeOf_lt_of_mem hparser
    simp
    omega
  · have hlt := List.sizeOf_lt_of_mem hentry
    cases entry
    simp at hlt ⊢
    omega

/-- Parsing ends, within any limit of nested calls. Without a limit it ends if only models are
imported. -/
theorem getEnvParser_fromEnv_ends (hupper : host.upper [] = [])
    (hitems : ItemTypes TakesNone types getattr target) {parser : EnvParser}
    (hparser : getEnvParser target = .ok parser) (key : EnvText) :
    (∀ frames, ∃ rounds,
      (types.parsing host getattr).fromEnvWithin rounds frames parser key ≠ none) ∧
    (ImportsModels types getattr →
      ∃ fuel, (types.parsing host getattr).fromEnv fuel parser key ≠ none) := by
  have hgraph := graphEnds_parsing hupper hitems
  have hends := itemsEnd_of_getEnvParser hitems.target hparser
  constructor
  · intro frames
    exact (EnvHost.fromEnvWithin_settles hgraph frames hends key).exists_ne_none
  · intro himports
    have hbeside : ∀ parser, Acc (Beside (types.parsing host getattr)) parser :=
      acc_beside himports
    have hacc := EnvHost.acc_calledBy hbeside parser key
    exact (EnvHost.fromEnv_settles_of_acc hgraph hacc hends).exists_ne_none

end Parsing

/-- A tree has a label and trees below it. -/
def treeClasses : ClassTable where
  find
    | 0 => some (.base [("Leaf".toList, 1), ("Fork".toList, 2)])
    | 1 => some (.model [("label".toList, .union [.str, .none])])
    | 2 => some (.model [("next".toList, .cls 2), ("trees".toList, .list (.cls 0))])
    | _ => none
  concrete := by
    intro name subclasses hfind entry hentry
    match name with
    | 0 =>
        cases hfind
        rcases List.mem_cons.mp hentry with rfl | hentry
        · exact ⟨_, rfl⟩
        · obtain rfl := List.mem_singleton.mp hentry
          exact ⟨_, rfl⟩
    | 1 => cases hfind
    | 2 => cases hfind
    | _ + 3 => cases hfind

/-- Whatever is imported is a fork. -/
def treeModules : EnvText → EnvText → Except EnvError EnvType :=
  fun _ _ => .ok (.cls 2)

/-- A fork with a leaf, another fork and a tree of no kind. -/
def treeHost : EnvHost (Nat × Fin 10) where
  environ := [("A_KIND".toList, "Fork".toList), ("A_TREES_0_KIND".toList, "Leaf".toList),
    ("A_TREES_1_KIND".toList, "trees.Other".toList), ("A_TREES_2_LABEL".toList, "b".toList)]
  parser _ := none
  upper := List.map Char.toUpper
  int _ := .error .value
  float _ := .error .value
  format := .tenths
  importClass _ _ := .error .importing

theorem itemTypes_trees : ItemTypes TakesNone treeClasses treeModules (.cls 0) where
  target := .cls 0
  fields := by
    intro name fields hfind field hfield
    match name with
    | 0 => cases hfind
    | 1 =>
        cases hfind
        obtain rfl := List.mem_singleton.mp hfield
        refine .union fun member hmember => ?_
        rcases List.mem_cons.mp hmember with rfl | hmember
        · exact .str
        · obtain rfl := List.mem_singleton.mp hmember
          exact .none
    | 2 =>
        cases hfind
        rcases List.mem_cons.mp hfield with rfl | hfield
        · exact .cls 2
        · obtain rfl := List.mem_singleton.mp hfield
          exact .list (.cls 0) fun htakes => nomatch htakes
    | _ + 3 => cases hfind
  imported := by
    intro moduleName className type himport
    cases himport
    exact .cls 2

theorem trees_end :
    (∀ frames, ∃ rounds, (treeClasses.parsing treeHost treeModules).fromEnvWithin rounds frames
      (.delayed 0) "A".toList ≠ none) ∧
    ∃ fuel, (treeClasses.parsing treeHost treeModules).fromEnv fuel (.delayed 0) "A".toList ≠
      none := by
  have hupper : treeHost.upper [] = [] := rfl
  have hends := getEnvParser_fromEnv_ends hupper itemTypes_trees rfl "A".toList
  exact ⟨hends.1, hends.2 fun _ _ type himport => by
    cases himport
    exact ⟨2, _, rfl, rfl⟩⟩

/-! ## Lists that never end -/

section Endless

variable {read : EnvText → Parsed (JsonType Float)}

/-- There is always one more item. -/
theorem readItems_eq_none (hread : ∀ key, read key = .ok .none ∨ read key = none) (key : EnvText)
    (rounds index : Nat) (result : List (JsonType Float)) :
    EnvHost.readItems read key rounds index result = none := by
  induction rounds generalizing index result with
  | zero => rfl
  | succ rounds ih =>
      rw [EnvHost.readItems]
      rcases hread (EnvHost.itemKey key index) with hitem | hitem
      · rw [hitem]
        exact ih (index + 1) (result ++ [.none])
      · rw [hitem]
        rfl

end Endless

/-- Nothing can be imported. -/
def noModules : EnvText → EnvText → Except EnvError EnvType :=
  fun _ _ => .error .importing

def noClasses : ClassTable where
  find _ := none
  concrete _ _ hfind := nomatch hfind

def emptyHost : EnvHost (Nat × Fin 10) :=
  { treeHost with environ := [] }

/-- Parsing where there are no variables and no classes. -/
def emptyParsing : EnvHost (Nat × Fin 10) :=
  noClasses.parsing emptyHost noModules

/-- A text or nothing, or else a number. -/
def noneUnion : EnvType := .union [.literal [some "a".toList, none], .int]

/-- An enumeration where one of the values is `None`. -/
def noneEnum : EnvType := .enum [some "a".toList, none]

/-- A list never ends if its items are `None` without any variables. -/
theorem list_eq_none {itemParser : EnvParser}
    (hwithin : ∀ rounds frames key,
      emptyParsing.fromEnvWithin rounds (frames + 2) itemParser key = .ok .none)
    (hfuel : ∀ fuel key, emptyParsing.fromEnv fuel itemParser key = .ok .none ∨
      emptyParsing.fromEnv fuel itemParser key = none) :
    (∀ rounds frames key,
      emptyParsing.fromEnvWithin rounds (frames + 3) (.list itemParser) key = none) ∧
    ∀ fuel key, emptyParsing.fromEnv fuel (.list itemParser) key = none := by
  constructor
  · intro rounds frames key
    change Parsed.bind (EnvHost.readItems _ key rounds 0 []) _ = none
    rw [readItems_eq_none (fun key => .inl (hwithin rounds frames key))]
    rfl
  · intro fuel key
    match fuel with
    | 0 => rfl
    | fuel + 1 =>
        change Parsed.bind (EnvHost.readItems _ key fuel 0 []) _ = none
        rw [readItems_eq_none (hfuel fuel)]
        rfl

/-- Items of a type are no literals with `None`, and still a list of them has no end. -/
def EndlessItems (item : EnvType) : Prop :=
  ItemTypes IsNoneLiteral noClasses noModules (.list item) ∧
    ∃ parser, getEnvParser (.list item) = .ok parser ∧
      (∀ rounds frames key, emptyParsing.fromEnvWithin rounds (frames + 3) parser key = none) ∧
      ∀ fuel key, emptyParsing.fromEnv fuel parser key = none

theorem itemTypes_noClasses {item : EnvType} (hitem : NoItems IsNoneLiteral item)
    (hliteral : ¬ IsNoneLiteral item) :
    ItemTypes IsNoneLiteral noClasses noModules (.list item) where
  target := .list hitem hliteral
  fields _ _ hfind := nomatch hfind
  imported _ _ _ himport := nomatch himport

theorem not_ends_noneItems : EndlessItems noneUnion ∧ EndlessItems noneEnum := by
  constructor
  · refine ⟨itemTypes_noClasses (.union fun member hmember => ?_) ?_, _, rfl, ?_⟩
    · rcases List.mem_cons.mp hmember with rfl | hmember
      · exact .literal _
      · obtain rfl := List.mem_singleton.mp hmember
        exact .int
    · intro hliteral
      obtain ⟨values, hliteral, _⟩ := hliteral
      cases hliteral
    · refine list_eq_none (fun rounds frames key => rfl) fun fuel key => ?_
      match fuel with
      | 0 => exact .inr rfl
      | 1 => exact .inr rfl
      | _ + 2 => exact .inl rfl
  · refine ⟨itemTypes_noClasses (.enum _) ?_, _, rfl, ?_⟩
    · intro hliteral
      obtain ⟨values, hliteral, _⟩ := hliteral
      cases hliteral
    · refine list_eq_none (fun rounds frames key => rfl) fun fuel key => ?_
      match fuel with
      | 0 => exact .inr rfl
      | _ + 1 => exact .inl rfl

end ShuttleFlow
