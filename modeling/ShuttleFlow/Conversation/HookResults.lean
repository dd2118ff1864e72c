import ShuttleFlow.Library.PythonText

/-! # Results of hooks

What hooks answer, and what follows from all their answers together: whether the
operation continues, for what reason it does not, and what they add to it.
-/

namespace ShuttleFlow

inductive HookDecision
  | allow | deny
  deriving DecidableEq, Repr

/-- What one hook answers. -/
structure HookResult where
  blocked : Bool := false
  stderr : String := ""
  decision : Option HookDecision := none
  reason : Option String := none
  additionalContext : Option String := none
  deriving DecidableEq, Repr

namespace HookResult

/-- Whether the operation should continue after this hook. -/
def shouldContinue (result : HookResult) : Bool :=
  if result.blocked then false
  else if result.decision = some .deny then false
  else true

/-- An optional text that is there and not empty. -/
def text? (text : Option String) : Option String :=
  text.filter (· ≠ "")

/-- The reason of the first result that is marked as blocked. -/
def getBlockingReason : List HookResult → Option String
  | [] => none
  | result :: rest =>
      if result.blocked then
        match text? result.reason with
        | some reason => some reason
        | none =>
            if result.stderr ≠ "" then some (PythonText.strip result.stderr)
            else some "Blocked by hook"
      else getBlockingReason rest

/-- The reason that is recorded, if some hook does not let the operation continue. -/
def blockReason (results : List HookResult) : Option String :=
  if results.all shouldContinue then none
  else some ((text? (getBlockingReason results)).getD "Blocked by hook")

/-- The contexts the hooks add, on lines of their own. -/
def joinedContext (results : List HookResult) : Option String :=
  match results.filterMap fun result => text? result.additionalContext with
  | [] => none
  | parts => some ("\n".intercalate parts)

theorem blockReason_isSome {results : List HookResult}
    (hblocks : ∃ result ∈ results, result.shouldContinue = false) :
    (blockReason results).isSome := by
  obtain ⟨result, hmem, hresult⟩ := hblocks
  have hnot : results.all shouldContinue = false :=
    List.all_eq_false.mpr ⟨result, hmem, by simp [hresult]⟩
  simp [blockReason, hnot]

theorem joinedContext_eq_none_iff {results : List HookResult} :
    joinedContext results = none ↔
      ∀ result ∈ results, text? result.additionalContext = none := by
  rw [← List.filterMap_eq_nil_iff]
  unfold joinedContext
  split
  next hnil => simp [hnil]
  next hcons => simpa using hcons

end HookResult

/-- Whether the agent may stop, and the feedback if it may not. -/
def HookResult.runStop (results : List HookResult) : Bool × Option String :=
  if results.all shouldContinue then (true, none)
  else
    match joinedContext results with
    | some feedback => (false, some feedback)
    | none => (false, text? (getBlockingReason results))

end ShuttleFlow
