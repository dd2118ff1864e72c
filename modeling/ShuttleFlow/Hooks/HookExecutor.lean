import ShuttleFlow.Library.JsonText
import ShuttleFlow.Library.PythonText

/-! # Hooks that run commands

A command gets an event, and answers with an exit code and with JSON on its standard output. The
answer is not trusted: whatever goes wrong when it is read makes the hook fail without blocking.
-/

namespace ShuttleFlow

open PythonText (trim)

/-- What comes of a text that is read as JSON. A number may be too long, and lists too deep. -/
inductive LoadedJson (Float : Type)
  | value (value : JsonValue Float)
  | decodeError
  | error (message : String)

/-- What Python does with texts and values of JSON. -/
structure PythonJson (Float : Type) where
  loads : List Char → LoadedJson Float
  isZero : Float → Bool
  str : JsonValue Float → List Char
  /-- Spaces are no JSON. -/
  loads_blank : ∀ text, trim text = [] → loads text = .decodeError

variable {Float : Type}

namespace JsonValue

/-- The name of the type in the messages of errors. -/
def typeName : JsonValue Float → String
  | .null => "NoneType"
  | .bool _ => "bool"
  | .int _ => "int"
  | .float _ => "float"
  | .str _ => "str"
  | .arr _ => "list"
  | .obj _ => "dict"

/-- `bool(value)`. -/
def isTruthy (json : PythonJson Float) : JsonValue Float → Bool
  | .null => false
  | .bool value => value
  | .int value => decide (value ≠ 0)
  | .float value => !json.isZero value
  | .str value => !value.isEmpty
  | .arr items => !items.isEmpty
  | .obj entries => !entries.isEmpty

end JsonValue

namespace Hooks

inductive HookDecision
  | allow | deny
  deriving DecidableEq

structure HookDefinition where
  command : List Char
  timeout : Int := 60

structure HookResult where
  success : Bool := true
  blocked : Bool := false
  exitCode : Int := 0
  stdout : List Char := []
  stderr : List Char := []
  decision : Option HookDecision := none
  reason : Option (List Char) := none
  additionalContext : Option (List Char) := none
  error : Option String := none
  deriving DecidableEq

/-- What a process leaves when it ends. -/
structure ProcessOutcome where
  returncode : Int
  stdout : List Char
  stderr : List Char

/-- Why a process does not end with an outcome. -/
inductive ProcessError
  | timeoutExpired
  | fileNotFound (message : String)
  | failed (message : String)

def HookResult.shouldContinue (result : HookResult) : Bool :=
  if result.blocked then false else decide (result.decision ≠ some .deny)

namespace HookExecutor

abbrev Entries (Float : Type) : Type := List (List Char × JsonValue Float)

/-- `str.lower`, as far as it matters for ASCII words. -/
def lower (text : List Char) : List Char :=
  text.map Char.toLower

def applyDecision (output : Entries Float) (result : HookResult) : Except String HookResult :=
  match output.lookup "decision".toList with
  | none => pure result
  | some (.str decision) =>
      if lower decision = "allow".toList then pure { result with decision := some .allow }
      else if lower decision = "deny".toList then
        pure { result with decision := some .deny, blocked := true }
      else pure result
  | some value => throw ("'" ++ value.typeName ++ "' object has no attribute 'lower'")

def applyTexts (json : PythonJson Float) (output : Entries Float) (result : HookResult) :
    HookResult :=
  { result with
    reason := ((output.lookup "reason".toList).map json.str).or result.reason
    additionalContext :=
      ((output.lookup "additionalContext".toList).map json.str).or result.additionalContext }

def applyContinue (json : PythonJson Float) (output : Entries Float) (result : HookResult) :
    HookResult :=
  match output.lookup "continue".toList with
  | none => result
  | some value => if value.isTruthy json then result else { result with blocked := true }

/-- The fields of an object on the standard output amend the result. -/
def applyOutput (json : PythonJson Float) (output : Entries Float) (result : HookResult) :
    Except String HookResult :=
  (applyDecision output result).map fun result =>
    applyContinue json output (applyTexts json output result)

def amend (json : PythonJson Float) (result : HookResult) : Except String HookResult :=
  if trim result.stdout = [] then pure result
  else
    match json.loads result.stdout with
    | .value (.obj output) => applyOutput json output result
    | .value _ => pure result
    | .decodeError => pure result
    | .error message => throw message

def ofOutcome (outcome : ProcessOutcome) : HookResult where
  success := outcome.returncode = 0
  blocked := outcome.returncode = 2
  exitCode := outcome.returncode
  stdout := outcome.stdout
  stderr := outcome.stderr

def failure (message : String) : HookResult where
  success := false
  exitCode := -1
  error := some message

/-- The result of one hook that is waited for. -/
def execute (json : PythonJson Float) (hook : HookDefinition) :
    Except ProcessError ProcessOutcome → HookResult
  | .ok outcome =>
      match amend json (ofOutcome outcome) with
      | .ok result => result
      | .error message => failure ("Hook execution failed: " ++ message)
  | .error .timeoutExpired =>
      failure ("Hook timed out after " ++ toString hook.timeout ++ " seconds")
  | .error (.fileNotFound message) => failure ("Hook command not found: " ++ message)
  | .error (.failed message) => failure ("Hook execution failed: " ++ message)

/-- Hooks run in order, perhaps up to the first one that blocks. -/
def executeAll (json : PythonJson Float) (stopOnBlock : Bool) :
    List (HookDefinition × Except ProcessError ProcessOutcome) → List HookResult
  | [] => []
  | (hook, ended) :: rest =>
      let result := execute json hook ended
      if stopOnBlock && result.blocked then [result]
      else result :: executeAll json stopOnBlock rest

/-! ## What a hook decides -/

section Decisions

variable {json : PythonJson Float} {output : Entries Float} {result amended : HookResult}

@[simp] theorem shouldContinue_failure (message : String) :
    (failure message).shouldContinue = true := rfl

@[simp] theorem blocked_failure (message : String) : (failure message).blocked = false := rfl

@[simp] theorem decision_applyTexts : (applyTexts json output result).decision = result.decision :=
  rfl

@[simp] theorem blocked_applyTexts : (applyTexts json output result).blocked = result.blocked :=
  rfl

@[simp] theorem decision_applyContinue :
    (applyContinue json output result).decision = result.decision := by
  unfold applyContinue
  split
  next => rfl
  next => split <;> rfl

/-- There is a value under `continue` that counts as false. -/
def Stops (json : PythonJson Float) (output : Entries Float) : Prop :=
  ∃ value, output.lookup "continue".toList = some value ∧ value.isTruthy json = false

theorem blocked_applyContinue_iff :
    (applyContinue json output result).blocked = true ↔
      result.blocked = true ∨ Stops json output := by
  unfold applyContinue
  split
  next hnone =>
    refine (or_iff_left ?_).symm
    rintro ⟨value, hvalue, -⟩
    cases hnone.symm.trans hvalue
  next value hsome =>
    split
    next htruthy =>
      refine (or_iff_left ?_).symm
      rintro ⟨other, hother, hfalsy⟩
      cases hsome.symm.trans hother
      rw [htruthy] at hfalsy
      cases hfalsy
    next hfalsy => exact iff_of_true rfl (.inr ⟨value, hsome, by simpa using hfalsy⟩)

/-- The decision, without regard to the case of its letters, is to deny. -/
def Denies (output : Entries Float) : Prop :=
  ∃ decision, output.lookup "decision".toList = some (.str decision) ∧
    lower decision = "deny".toList

/-- The decision is a text, if there is one. -/
def Decided (output : Entries Float) : Prop :=
  ∀ value, output.lookup "decision".toList = some value → ∃ decision, value = .str decision

/-- A decision that is no text is an error. Otherwise exactly a denial blocks. -/
theorem applyDecision_cases (hresult : result.decision = none) :
    (¬Decided output ∧ ∃ message, applyDecision output result = .error message) ∨
      Decided output ∧ ∃ decided, applyDecision output result = .ok decided ∧
        (decided.blocked = true ↔ result.blocked = true ∨ Denies output) ∧
        (decided.decision = some .deny ↔ Denies output) := by
  have hdenies : ∀ decision, output.lookup "decision".toList = some (.str decision) →
      (Denies output ↔ lower decision = "deny".toList) := by
    intro decision hdecision
    constructor
    · rintro ⟨other, hother, hdeny⟩
      cases hdecision.symm.trans hother
      exact hdeny
    · exact fun hdeny => ⟨decision, hdecision, hdeny⟩
  unfold applyDecision
  split
  next hnone =>
    have hnot : ¬Denies output := by
      rintro ⟨decision, hdecision, -⟩
      cases hnone.symm.trans hdecision
    refine .inr ⟨fun value hvalue => (by cases hnone.symm.trans hvalue), result, rfl, ?_, ?_⟩
    · exact (or_iff_left hnot).symm
    · simp [hresult, hnot]
  next decision hdecision =>
    have hdecided : Decided output := by
      intro value hvalue
      cases hdecision.symm.trans hvalue
      exact ⟨decision, rfl⟩
    refine .inr ⟨hdecided, ?_⟩
    rw [hdenies decision hdecision]
    split
    next hallow => exact ⟨_, rfl, by simp [hallow], by simp [hallow]⟩
    next =>
      split
      next hdeny => exact ⟨_, rfl, by simp [hdeny], by simp [hdeny]⟩
      next hdeny =>
        refine ⟨_, rfl, (or_iff_left hdeny).symm, iff_of_false ?_ hdeny⟩
        rw [hresult]
        exact fun hdeny => by cases hdeny
  next value htext hvalue =>
    refine .inl ⟨fun hdecided => ?_, _, rfl⟩
    obtain ⟨decision, rfl⟩ := hdecided value hvalue
    exact htext decision rfl

end Decisions

end HookExecutor

end Hooks

end ShuttleFlow
