import ShuttleFlow.Agent.Step
import ShuttleFlow.Conversation.HookResults
import ShuttleFlow.Conversation.SecretRegistry

/-! # The settings that keep a conversation safe

When the user is asked for confirmation, what hooks block, and which secrets are masked.
-/

namespace ShuttleFlow

namespace SecurityRisk

/-- The order of the concrete risks. -/
def order : SecurityRisk → Option Nat
  | unknown => none
  | low => some 1
  | medium => some 2
  | high => some 3

/-- Unknown risks cannot be compared. -/
def isRiskier (risk other : SecurityRisk) (reflexive : Bool := true) : Option Bool :=
  match risk.order, other.order with
  | some first, some second => some (second < first || (reflexive && risk = other))
  | _, _ => none

theorem isRiskier_isSome {risk other : SecurityRisk} (hrisk : risk ≠ .unknown)
    (hother : other ≠ .unknown) (reflexive : Bool) :
    (risk.isRiskier other reflexive).isSome := by
  cases risk with
  | unknown => exact absurd rfl hrisk
  | low | medium | high =>
      cases other with
      | unknown => exact absurd rfl hother
      | low | medium | high => rfl

end SecurityRisk

/-- A threshold is a concrete risk. Further policies may be defined outside. -/
inductive ConfirmationPolicy
  | alwaysConfirm
  | neverConfirm
  | confirmRisky (threshold : SecurityRisk) (valid : threshold ≠ .unknown) (confirmUnknown : Bool)
  | other (shouldConfirm : SecurityRisk → Bool)

def ConfirmationPolicy.shouldConfirm : ConfirmationPolicy → SecurityRisk → Bool
  | alwaysConfirm, _ => true
  | neverConfirm, _ => false
  | confirmRisky threshold valid confirmUnknown, risk =>
      if hrisk : risk = .unknown then confirmUnknown
      else (risk.isRiskier threshold).get (SecurityRisk.isRiskier_isSome hrisk valid true)
  | other shouldConfirm, risk => shouldConfirm risk

/-- What an analyzer finds; it may fail. -/
structure SecurityAnalyzer where
  securityRisk : ActionEvent → Option SecurityRisk

/-- An action that cannot be analyzed has a high risk. -/
def SecurityAnalyzer.analyzePendingActions (analyzer : SecurityAnalyzer)
    (pendingActions : List ActionEvent) : List (ActionEvent × SecurityRisk) :=
  pendingActions.map fun action => (action, (analyzer.securityRisk action).getD .high)

/-! ## Hooks -/

inductive HookType
  | command | prompt
  deriving DecidableEq, Repr

structure HookDefinition where
  type : HookType := .command
  command : String
  prompt : Option String := none
  timeout : Int := 60
  async : Bool := false
  deriving DecidableEq, Repr

structure HookMatcher where
  matcher : String := "*"
  hooks : List HookDefinition := []
  deriving DecidableEq, Repr

namespace HookMatcher

def regexMetacharacters : List Char := "|.*+?[]()^$\\".toList

/-- `fullmatch` is `re.fullmatch`; it gives nothing for an invalid expression. -/
def matchesTool (fullmatch : String → String → Option Bool) (toolName : Option String)
    (matcher : HookMatcher) : Bool :=
  let pattern := matcher.matcher
  if pattern = "*" ∨ pattern = "" then true
  else
    match toolName with
    | none => false
    | some toolName =>
        if pattern.toList.head? = some '/' ∧ pattern.toList.getLast? = some '/' ∧
            2 < pattern.length then
          (fullmatch (String.ofList (pattern.toList.drop 1).dropLast) toolName).getD false
        else if pattern.toList.any (· ∈ regexMetacharacters) then
          (fullmatch pattern toolName).getD (pattern = toolName)
        else pattern = toolName

end HookMatcher

structure HookConfig where
  preToolUse : List HookMatcher := []
  postToolUse : List HookMatcher := []
  userPromptSubmit : List HookMatcher := []
  sessionStart : List HookMatcher := []
  sessionEnd : List HookMatcher := []
  stop : List HookMatcher := []
  deriving DecidableEq, Repr

namespace HookConfig

def isEmpty (config : HookConfig) : Bool :=
  config.preToolUse.isEmpty && config.postToolUse.isEmpty && config.userPromptSubmit.isEmpty &&
    config.sessionStart.isEmpty && config.sessionEnd.isEmpty && config.stop.isEmpty

/-- All matchers of all configurations, unless there are none. -/
def merge (configs : List HookConfig) : Option HookConfig :=
  let merged : HookConfig :=
    { preToolUse := configs.flatMap preToolUse
      postToolUse := configs.flatMap postToolUse
      userPromptSubmit := configs.flatMap userPromptSubmit
      sessionStart := configs.flatMap sessionStart
      sessionEnd := configs.flatMap sessionEnd
      stop := configs.flatMap stop }
  if merged.isEmpty then none else some merged

theorem merge_eq_none_iff {configs : List HookConfig} :
    merge configs = none ↔ ∀ config ∈ configs, config.isEmpty := by
  simp only [merge, isEmpty, ite_eq_left_iff, reduceCtorEq, imp_false, Decidable.not_not,
    Bool.and_eq_true, List.isEmpty_iff, List.flatMap_eq_nil_iff, ← forall_and]

/-- The hooks of the matchers for a tool. -/
def hooksFor (fullmatch : String → String → Option Bool) (matchers : List HookMatcher)
    (toolName : Option String) : List HookDefinition :=
  (matchers.filter fun matcher => matcher.matchesTool fullmatch toolName).flatMap HookMatcher.hooks

end HookConfig

/-- What runs the hooks: their results for an action, an observation or a message. -/
structure HookExecutor where
  fullmatch : String → String → Option Bool
  preToolUse : List HookDefinition → ActionEvent → List HookResult
  postToolUse : List HookDefinition → ObservationEvent → List HookResult
  userPromptSubmit : List HookDefinition → MessageEvent → List HookResult

namespace HookExecutor

variable (executor : HookExecutor) (config : HookConfig)

def runPreToolUse (action : ActionEvent) : List HookResult :=
  match HookConfig.hooksFor executor.fullmatch config.preToolUse (some action.toolName) with
  | [] => []
  | hooks => executor.preToolUse hooks action

def runPostToolUse (observation : ObservationEvent) : List HookResult :=
  match HookConfig.hooksFor executor.fullmatch config.postToolUse
      (some observation.toolName) with
  | [] => []
  | hooks => executor.postToolUse hooks observation

def runUserPromptSubmit (message : MessageEvent) : List HookResult :=
  match HookConfig.hooksFor executor.fullmatch config.userPromptSubmit none with
  | [] => []
  | hooks => executor.userPromptSubmit hooks message

/-- The hooks of a configuration. -/
def manager : HookManager where
  runPreToolUse action :=
    let results := executor.runPreToolUse config action
    { executed := results.length, blockingReason := HookResult.blockReason results }
  runPostToolUse observation := (executor.runPostToolUse config observation).length
  runUserPromptSubmit message :=
    let results := executor.runUserPromptSubmit config message
    { executed := results.length, blockingReason := HookResult.blockReason results }
  additionalContext message :=
    HookResult.joinedContext (executor.runUserPromptSubmit config message)

end HookExecutor

/-! ## The settings of a conversation -/

structure SafetySettings (Source : Type) where
  confirmationPolicy : ConfirmationPolicy := .neverConfirm
  securityAnalyzer : Option SecurityAnalyzer := none
  secretRegistry : SecretRegistry Source := .empty
  /-- The hooks in effect, for observability. -/
  hookConfig : Option HookConfig := none

namespace SafetySettings

variable {Source : Type}

/-- The risks of the actions, and whether the policy asks for one of them. -/
def shouldConfirm (settings : SafetySettings Source) (actionEvents : List ActionEvent) : Bool :=
  let risks := settings.securityAnalyzer.elim (actionEvents.map fun _ => SecurityRisk.unknown)
    fun analyzer => (analyzer.analyzePendingActions actionEvents).map Prod.snd
  risks.any settings.confirmationPolicy.shouldConfirm

end SafetySettings

end ShuttleFlow
