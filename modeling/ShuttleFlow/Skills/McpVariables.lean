import Mathlib.Data.List.TakeWhile
import ShuttleFlow.Library.Entries
import ShuttleFlow.Library.Patterns

/-! # Variables in the configuration of MCP servers

Texts may hold placeholders `${VAR}` and `${VAR:-default}`. Texts are lists of characters.
-/

namespace ShuttleFlow

/-- The parts of a match. -/
structure Placeholder where
  varName : List Char
  defaultValue : Option (List Char)
  deriving DecidableEq

namespace Placeholder

/-- `[a-zA-Z_]` -/
def startsName (c : Char) : Bool :=
  ('a' ≤ c && c ≤ 'z') || ('A' ≤ c && c ≤ 'Z') || c = '_'

/-- `[a-zA-Z0-9_]` -/
def continuesName (c : Char) : Bool :=
  startsName c || ('0' ≤ c && c ≤ '9')

/-- What follows the name. -/
def ending : Option (List Char) → List Char
  | none => ['}']
  | some value => ':' :: '-' :: value ++ ['}']

/-- The whole match. -/
def text (placeholder : Placeholder) : List Char :=
  '$' :: '{' :: placeholder.varName ++ ending placeholder.defaultValue

def findEnd (varName : List Char) : List Char → Option Placeholder
  | '}' :: _ => some { varName := varName, defaultValue := none }
  | ':' :: '-' :: rest =>
      -- The default goes up to the first closing brace.
      if '}' ∈ rest then
        some { varName := varName, defaultValue := some (rest.takeWhile (· ≠ '}')) }
      else none
  | _ => none

/-- `\$\x7b([a-zA-Z_][a-zA-Z0-9_]*)(?::-([^\x7d]*))?\x7d` at the beginning of a text. -/
def find : List Char → Option Placeholder
  | '$' :: '{' :: first :: rest =>
      if startsName first then
        findEnd (first :: rest.takeWhile continuesName) (rest.dropWhile continuesName)
      else none
  | _ => none

/-- What a match consists of. -/
structure WellFormed (placeholder : Placeholder) : Prop where
  varName : ∃ first rest, placeholder.varName = first :: rest ∧ startsName first ∧
    ∀ c ∈ rest, continuesName c
  defaultValue : ∀ value, placeholder.defaultValue = some value → '}' ∉ value

variable {varName rest : List Char} {placeholder : Placeholder}

theorem eq_takeWhile_append {c : Char} {text : List Char} (hmem : c ∈ text) :
    ∃ rest, text = text.takeWhile (· ≠ c) ++ c :: rest := by
  induction text with
  | nil => cases hmem
  | cons first text ih =>
      by_cases hfirst : first = c
      · subst hfirst
        exact ⟨text, by simp⟩
      · obtain ⟨rest, hrest⟩ := ih ((List.mem_cons.mp hmem).resolve_left fun h => hfirst h.symm)
        refine ⟨rest, ?_⟩
        rw [List.takeWhile_cons_of_pos (by simpa using hfirst), List.cons_append, ← hrest]

theorem findEnd_sound {text : List Char} (hfind : findEnd varName text = some placeholder) :
    placeholder.varName = varName ∧
      (∀ value, placeholder.defaultValue = some value → '}' ∉ value) ∧
      ∃ rest, text = ending placeholder.defaultValue ++ rest := by
  revert hfind
  fun_cases findEnd varName text <;> intro hfind <;> cases hfind
  case case1 rest => exact ⟨rfl, nofun, rest, rfl⟩
  case case2 rest hmem =>
    refine ⟨rfl, fun value hvalue hbrace => ?_, ?_⟩
    · cases hvalue
      have hother := List.mem_takeWhile_imp hbrace
      exact of_decide_eq_true hother rfl
    · obtain ⟨tail, htail⟩ := eq_takeWhile_append hmem
      refine ⟨tail, ?_⟩
      change ':' :: '-' :: rest = ':' :: '-' :: (_ ++ ['}']) ++ tail
      rw [List.cons_append, List.cons_append, List.append_assoc, List.singleton_append, ← htail]

theorem findEnd_default (hclosed : '}' ∈ rest) : findEnd varName (':' :: '-' :: rest) =
    some { varName := varName, defaultValue := some (rest.takeWhile (· ≠ '}')) } :=
  if_pos hclosed

theorem find_of_startsName {first : Char} (hfirst : startsName first) :
    find ('$' :: '{' :: first :: rest) =
      findEnd (first :: rest.takeWhile continuesName) (rest.dropWhile continuesName) :=
  if_pos hfirst

theorem findEnd_ending {defaultValue : Option (List Char)}
    (hvalue : ∀ value, defaultValue = some value → '}' ∉ value) :
    findEnd varName (ending defaultValue ++ rest) = some ⟨varName, defaultValue⟩ := by
  cases defaultValue with
  | none => rfl
  | some value =>
      have hclosed : '}' ∈ value ++ '}' :: rest := by simp
      have htake : (value ++ '}' :: rest).takeWhile (· ≠ '}') = value := by
        have hvalue' : ∀ c ∈ value, decide (c ≠ '}') = true := fun c hc =>
          decide_eq_true fun heq : c = '}' => hvalue value rfl (heq ▸ hc)
        rw [List.takeWhile_append_of_pos hvalue']
        simp
      rw [ending, List.cons_append, List.cons_append, List.cons_append, List.cons_append,
        List.append_assoc, List.singleton_append, findEnd_default hclosed, htake]

theorem find_sound {text : List Char} (hfind : find text = some placeholder) :
    placeholder.WellFormed ∧ ∃ rest, text = placeholder.text ++ rest := by
  revert hfind
  fun_cases find text <;> intro hfind
  case case1 first rest hfirst =>
    obtain ⟨hname, hvalue, tail, htail⟩ := findEnd_sound hfind
    refine ⟨⟨⟨first, _, hname, hfirst, fun c hc => List.mem_takeWhile_imp hc⟩, hvalue⟩, tail, ?_⟩
    rw [Placeholder.text, hname, List.append_assoc, ← htail]
    simp only [List.cons_append, List.takeWhile_append_dropWhile]
  all_goals cases hfind

theorem not_continuesName_ending (defaultValue : Option (List Char)) :
    ∃ first rest, ending defaultValue = first :: rest ∧ continuesName first = false := by
  cases defaultValue with
  | none => exact ⟨'}', [], rfl, by decide⟩
  | some value => exact ⟨':', _, rfl, by decide⟩

theorem find_text (hwell : placeholder.WellFormed) (rest : List Char) :
    find (placeholder.text ++ rest) = some placeholder := by
  obtain ⟨⟨first, more, hname, hfirst, hmore⟩, hvalue⟩ := hwell
  obtain ⟨c, others, hending, hc⟩ := not_continuesName_ending placeholder.defaultValue
  have hstop : (ending placeholder.defaultValue ++ rest).takeWhile continuesName = [] := by
    rw [hending, List.cons_append, List.takeWhile_cons_of_neg (Bool.eq_false_iff.mp hc)]
  have hstop' : (ending placeholder.defaultValue ++ rest).dropWhile continuesName =
      ending placeholder.defaultValue ++ rest := by
    rw [hending, List.cons_append, List.dropWhile_cons_of_neg (Bool.eq_false_iff.mp hc)]
  rw [Placeholder.text, hname, List.append_assoc]
  simp only [List.cons_append]
  rw [find_of_startsName hfirst, List.takeWhile_append_of_pos hmore, hstop,
    List.dropWhile_append_of_pos hmore, hstop', List.append_nil, findEnd_ending hvalue, ← hname]

def pattern : Pattern Char Placeholder where
  find := find
  covers := text
  covers_ne_nil _ := nofun
  covers_initial hfind := by
    obtain ⟨-, rest, hrest⟩ := find_sound hfind
    exact ⟨rest, hrest.symm⟩

end Placeholder

/-- A value of a configuration. Numbers, booleans and null are scalars. -/
inductive McpValue (Scalar : Type)
  | text (content : List Char)
  | list (items : List (McpValue Scalar))
  | dict (entries : List (List Char × McpValue Scalar))
  | scalar (value : Scalar)

namespace McpValue

variable {Scalar : Type}

def isDict : McpValue Scalar → Bool
  | .dict _ => true
  | _ => false

mutual

/-- `expand_value`, for what is done to each text. -/
def expand (expandText : List Char → List Char) : McpValue Scalar → McpValue Scalar
  | .text content => .text (expandText content)
  | .list items => .list (expandItems expandText items)
  | .dict entries => .dict (Entries.build (expandEntries expandText entries))
  | .scalar value => .scalar value

def expandItems (expandText : List Char → List Char) :
    List (McpValue Scalar) → List (McpValue Scalar)
  | [] => []
  | item :: rest => item.expand expandText :: expandItems expandText rest

def expandEntries (expandText : List Char → List Char) :
    List (List Char × McpValue Scalar) → List (List Char × McpValue Scalar)
  | [] => []
  | entry :: rest => expandEntry expandText entry :: expandEntries expandText rest

def expandEntry (expandText : List Char → List Char) :
    List Char × McpValue Scalar → List Char × McpValue Scalar
  | (key, value) => (expandText key, value.expand expandText)

end

end McpValue

/-- A dictionary of variables, the environment, or a callback that looks up secrets. -/
abbrev SecretLookup := List Char → Option (List Char)

/-- `replace_var`. -/
def replaceVar (provided : SecretLookup) (getSecret : Option SecretLookup)
    (environ : SecretLookup) (expandDefaults : Bool) (placeholder : Placeholder) : List Char :=
  match provided placeholder.varName with
  | some value => value
  | none =>
      match getSecret.bind (· placeholder.varName) with
      | some secretValue => secretValue
      | none =>
          match environ placeholder.varName with
          | some value => value
          | none =>
              -- The placeholder stays for a later expansion.
              if expandDefaults then placeholder.defaultValue.getD placeholder.text
              else placeholder.text

/-- A configuration that is not a dictionary is an error. -/
def expandMcpVariables {Scalar : Type} (config : McpValue Scalar) (provided : SecretLookup)
    (getSecret : Option SecretLookup) (environ : SecretLookup) (expandDefaults : Bool) :
    Option (McpValue Scalar) :=
  let expandedConfig := config.expand
    (Placeholder.pattern.sub (replaceVar provided getSecret environ expandDefaults))
  if expandedConfig.isDict then some expandedConfig else none

end ShuttleFlow
