import ShuttleFlow.Conversation.Runs
import ShuttleFlow.Conversation.SafetySettings

/-! # The security gate

Before the actions of a response are executed, an analyzer rates them and a policy decides
whether the user is asked. An ensemble combines several analyzers. Risks of an analyzer that
fails count as high; risks of an ensemble may be withheld when one of its analyzers knows
nothing.
-/

namespace ShuttleFlow

/-- Comparing an unknown risk fails. -/
def SecurityRisk.gt (risk other : SecurityRisk) : Option Bool :=
  match risk.order, other.order with
  | some first, some second => some (second < first)
  | _, _ => none

/-- `max`, which keeps the first of equal risks. -/
def SecurityRisk.max : SecurityRisk → List SecurityRisk → Option SecurityRisk
  | best, [] => some best
  | best, risk :: risks =>
      (risk.gt best).bind fun greater => SecurityRisk.max (if greater then risk else best) risks

structure EnsembleSecurityAnalyzer where
  analyzers : List SecurityAnalyzer
  analyzers_ne_nil : analyzers ≠ []
  propagateUnknown : Bool := false

namespace EnsembleSecurityAnalyzer

/-- An analyzer that fails contributes a high risk. -/
def results (ensemble : EnsembleSecurityAnalyzer) (action : ActionEvent) : List SecurityRisk :=
  ensemble.analyzers.map fun analyzer => (analyzer.securityRisk action).getD .high

def securityRisk (ensemble : EnsembleSecurityAnalyzer) (action : ActionEvent) :
    Option SecurityRisk :=
  let results := ensemble.results action
  if ensemble.propagateUnknown && results.contains .unknown then some .unknown
  else
    match results.filter (· ≠ .unknown) with
    | [] => some .unknown
    | first :: rest => SecurityRisk.max first rest

end EnsembleSecurityAnalyzer

/-- What is registered with a conversation. -/
inductive RegisteredAnalyzer
  | single (analyzer : SecurityAnalyzer)
  | ensemble (fused : EnsembleSecurityAnalyzer)

/-- A concrete risk at or above the threshold, or a failure. -/
def SecurityAnalyzer.Alarms (threshold : SecurityRisk) (action : ActionEvent)
    (analyzer : SecurityAnalyzer) : Prop :=
  analyzer.securityRisk action = none ∨
    ∃ risk, analyzer.securityRisk action = some risk ∧ risk.isRiskier threshold = some true

namespace RegisteredAnalyzer

def analyzer : RegisteredAnalyzer → SecurityAnalyzer
  | single analyzer => analyzer
  | ensemble fused => ⟨fused.securityRisk⟩

def children : RegisteredAnalyzer → List SecurityAnalyzer
  | single analyzer => [analyzer]
  | ensemble fused => fused.analyzers

def propagatesUnknown : RegisteredAnalyzer → Bool
  | single _ => false
  | ensemble fused => fused.propagateUnknown

/-- The analyzer withholds what its children find, and the policy does not ask for it. -/
def Withholds (registered : RegisteredAnalyzer) (confirmUnknown : Bool) (action : ActionEvent) :
    Prop :=
  registered.propagatesUnknown = true ∧ confirmUnknown = false ∧
    ∃ child ∈ registered.children, child.securityRisk action = some .unknown

end RegisteredAnalyzer

/-! ## Comparing risks -/

namespace SecurityRisk

variable {risk other best threshold : SecurityRisk} {risks : List SecurityRisk}

theorem isRiskier_refl (hrisk : risk ≠ .unknown) : risk.isRiskier risk = some true := by
  cases risk with
  | unknown => exact absurd rfl hrisk
  | low | medium | high => rfl

theorem isRiskier_trans (hfirst : risk.isRiskier other = some true)
    (hsecond : other.isRiskier threshold = some true) :
    risk.isRiskier threshold = some true := by
  revert hfirst hsecond
  cases risk <;> cases other <;> cases threshold <;> decide

theorem ne_unknown_of_isRiskier (hrisk : risk.isRiskier threshold = some true) :
    risk ≠ .unknown := by
  rintro rfl
  cases hrisk

/-- Concrete risks can be compared. -/
theorem gt_cases (hrisk : risk ≠ .unknown) (hbest : best ≠ .unknown) :
    (risk.gt best = some true ∧ risk.isRiskier best = some true) ∨
      (risk.gt best = some false ∧ best.isRiskier risk = some true) := by
  revert hrisk hbest
  cases risk <;> cases best <;> decide

/-- The greatest of concrete risks is as risky as each of them. -/
theorem max_spec (hconcrete : ∀ risk ∈ best :: risks, risk ≠ .unknown) :
    ∃ greatest, SecurityRisk.max best risks = some greatest ∧
      ∀ risk ∈ best :: risks, greatest.isRiskier risk = some true := by
  induction risks generalizing best with
  | nil =>
      refine ⟨best, rfl, fun risk hmem => ?_⟩
      rw [List.mem_singleton.mp hmem]
      exact isRiskier_refl (hconcrete best List.mem_cons_self)
  | cons next risks ih =>
      have hbest := hconcrete best List.mem_cons_self
      have hnext := hconcrete next (List.mem_cons_of_mem _ List.mem_cons_self)
      have hrest : ∀ risk ∈ risks, risk ≠ .unknown := fun risk hmem =>
        hconcrete risk (List.mem_cons_of_mem _ (List.mem_cons_of_mem _ hmem))
      rcases gt_cases hnext hbest with ⟨hgt, hless⟩ | ⟨hgt, hless⟩
      · obtain ⟨greatest, hmax, hall⟩ := ih (List.forall_mem_cons.mpr ⟨hnext, hrest⟩)
        refine ⟨greatest, by rw [SecurityRisk.max, hgt, ← hmax]; rfl, ?_⟩
        exact List.forall_mem_cons.mpr
          ⟨isRiskier_trans (hall next List.mem_cons_self) hless, hall⟩
      · obtain ⟨greatest, hmax, hall⟩ := ih (List.forall_mem_cons.mpr ⟨hbest, hrest⟩)
        obtain ⟨hfirst, hlater⟩ := List.forall_mem_cons.mp hall
        refine ⟨greatest, by rw [SecurityRisk.max, hgt, ← hmax]; rfl, ?_⟩
        exact List.forall_mem_cons.mpr
          ⟨hfirst, List.forall_mem_cons.mpr ⟨isRiskier_trans hfirst hless, hlater⟩⟩

end SecurityRisk

/-! ## What the gate lets pass -/

/-- A child that alarms counts with a risk that is high enough. -/
theorem SecurityAnalyzer.Alarms.getD {threshold : SecurityRisk} {action : ActionEvent}
    {analyzer : SecurityAnalyzer} (halarms : analyzer.Alarms threshold action)
    (hthreshold : threshold ≠ .unknown) :
    ((analyzer.securityRisk action).getD .high).isRiskier threshold = some true := by
  rcases halarms with hfails | ⟨risk, hrisk, hriskier⟩
  · rw [hfails, Option.getD_none]
    cases threshold with
    | unknown => exact absurd rfl hthreshold
    | low | medium | high => rfl
  · rw [hrisk, Option.getD_some]
    exact hriskier

/-- An ensemble with a child that alarms finds a risk that is high enough, or withholds it. -/
theorem EnsembleSecurityAnalyzer.securityRisk_of_alarms {ensemble : EnsembleSecurityAnalyzer}
    {threshold : SecurityRisk} {action : ActionEvent} {child : SecurityAnalyzer}
    (hthreshold : threshold ≠ .unknown) (hchild : child ∈ ensemble.analyzers)
    (halarms : child.Alarms threshold action) :
    (ensemble.propagateUnknown = true ∧ ensemble.securityRisk action = some .unknown ∧
      ∃ other ∈ ensemble.analyzers, other.securityRisk action = some .unknown) ∨
    ∃ risk, ensemble.securityRisk action = some risk ∧ risk.isRiskier threshold = some true := by
  have hriskier := halarms.getD hthreshold
  have hmem : (child.securityRisk action).getD .high ∈ ensemble.results action :=
    List.mem_map_of_mem hchild
  unfold securityRisk
  dsimp only
  split
  next hunknown =>
    rw [Bool.and_eq_true, List.contains_iff_mem] at hunknown
    obtain ⟨other, hother, hresult⟩ := List.mem_map.mp hunknown.2
    refine .inl ⟨hunknown.1, rfl, other, hother, ?_⟩
    cases hrisk : other.securityRisk action with
    | none =>
        rw [hrisk] at hresult
        cases hresult
    | some risk =>
        rw [hrisk, Option.getD_some] at hresult
        rw [hresult]
  next =>
    right
    have hconcrete : (child.securityRisk action).getD .high ∈
        (ensemble.results action).filter (· ≠ .unknown) :=
      List.mem_filter.mpr ⟨hmem, decide_eq_true (SecurityRisk.ne_unknown_of_isRiskier hriskier)⟩
    split
    next hnil =>
      rw [hnil] at hconcrete
      cases hconcrete
    next first rest hcons =>
      rw [hcons] at hconcrete
      obtain ⟨greatest, hmax, hall⟩ := @SecurityRisk.max_spec first rest fun risk hrisk => by
        rw [← hcons] at hrisk
        exact of_decide_eq_true (List.mem_filter.mp hrisk).2
      exact ⟨greatest, hmax, SecurityRisk.isRiskier_trans (hall _ hconcrete) hriskier⟩

section

variable {registered : RegisteredAnalyzer} {threshold : SecurityRisk} {confirmUnknown : Bool}
  {valid : threshold ≠ .unknown} {action : ActionEvent} {child : SecurityAnalyzer}

/-- The policy asks for the action, unless the analyzer withholds its risk. -/
theorem RegisteredAnalyzer.shouldConfirm_of_alarms (hchild : child ∈ registered.children)
    (halarms : child.Alarms threshold action)
    (hshows : ¬registered.Withholds confirmUnknown action) :
    (ConfirmationPolicy.confirmRisky threshold valid confirmUnknown).shouldConfirm
      ((registered.analyzer.securityRisk action).getD .high) = true := by
  have hconfirm : ∀ risk : SecurityRisk, risk.isRiskier threshold = some true →
      (ConfirmationPolicy.confirmRisky threshold valid confirmUnknown).shouldConfirm risk =
        true := by
    intro risk hrisk
    rw [ConfirmationPolicy.shouldConfirm, dif_neg (SecurityRisk.ne_unknown_of_isRiskier hrisk),
      Option.get_of_eq_some _ hrisk]
  cases registered with
  | single analyzer =>
      rw [children, List.mem_singleton] at hchild
      subst hchild
      exact hconfirm _ (halarms.getD valid)
  | ensemble fused =>
      rcases EnsembleSecurityAnalyzer.securityRisk_of_alarms valid hchild halarms with
        ⟨hpropagates, hunknown, hother⟩ | ⟨risk, hrisk, hriskier⟩
      · -- the policy has to ask for unknown risks
        have hasks : confirmUnknown = true := by
          by_contra hsilent
          exact hshows ⟨hpropagates, Bool.eq_false_of_not_eq_true hsilent, hother⟩
        simp only [analyzer, hunknown, Option.getD_some]
        rw [ConfirmationPolicy.shouldConfirm, dif_pos rfl, hasks]
      · simp only [analyzer, hrisk, Option.getD_some]
        exact hconfirm risk hriskier

end

/-! ## Whole batches -/

namespace Agent

variable {Source : Type} (ids : IdSource) (env : Environment)

/-- A single call of the finish or the think tool is never asked for. -/
def Exempt (actionEvents : List ActionEvent) : Prop :=
  ∃ single action, actionEvents = [single] ∧ single.action = some action ∧
    (action.kind = .finish ∨ action.kind = .think)

/-- The validated actions of a response. -/
def batch (state : ConversationState) (response : LLMResponse) : List ActionEvent :=
  (emitToolCalls ids env response.id state (Message.header response.message)
    response.message.calls).1

/-- The conversation waits for confirmation, whatever the tools would do: the response is
logged, and no tool is run. -/
def Holds (state : ConversationState) (response : LLMResponse) : Prop :=
  ∀ runTool, handleResponse ids { env with runTool } state response =
    { (emitToolCalls ids env response.id state (Message.header response.message)
        response.message.calls).2 with
      executionStatus := .waitingForConfirmation }

/-- The environment of an agent whose conversation has these settings. -/
def gated (settings : SafetySettings Source) (env : Environment) : Environment :=
  { env with shouldConfirm := settings.shouldConfirm }

variable {ids env} {state : ConversationState} {response : LLMResponse}

theorem emitToolCalls_runTool (runTool : ActionEvent → ToolOutcome) (llmResponseId : EventID)
    (state : ConversationState) (header : Header) (toolCalls : List MessageToolCall) :
    emitToolCalls ids { env with runTool } llmResponseId state header toolCalls =
      emitToolCalls ids env llmResponseId state header toolCalls := by
  induction toolCalls generalizing state header with
  | nil => rfl
  | cons toolCall toolCalls ih =>
      simp only [emitToolCalls, ih]
      rfl

theorem requiresUserConfirmation_eq {actionEvents : List ActionEvent}
    (hexempt : ¬Exempt actionEvents) (hne : actionEvents ≠ []) :
    requiresUserConfirmation env actionEvents = env.shouldConfirm actionEvents := by
  unfold requiresUserConfirmation
  split
  next => exact absurd rfl hne
  next single =>
    cases haction : single.action with
    | none => rfl
    | some action =>
        have hkind : ¬(action.kind = .finish ∨ action.kind = .think) := fun hkind =>
          hexempt ⟨single, action, rfl, haction, hkind⟩
        simp only [hkind, decide_false, Bool.not_false, Bool.true_and]
  next => rfl

/-- A response is held when the policy asks for its actions. -/
theorem holds_of_shouldConfirm (hexempt : ¬Exempt (batch ids env state response))
    (hne : batch ids env state response ≠ [])
    (hconfirm : env.shouldConfirm (batch ids env state response) = true) :
    Holds ids env state response := by
  intro runTool
  have hcalls : response.message.calls ≠ [] := fun hnil => hne (by rw [batch, hnil]; rfl)
  have hrequires : requiresUserConfirmation { env with runTool } (batch ids env state response) =
      true := (requiresUserConfirmation_eq hexempt hne).trans hconfirm
  rw [batch] at hrequires
  rw [handleResponse, classifyResponse_toolCalls.mpr hcalls]
  simp only [handleToolCalls, emitToolCalls_runTool, hrequires, if_true]

/-- Whoever finds a high risk, or fails, stops the whole batch, unless unknown risks are
preferred and not asked for. -/
theorem holds_of_alarms (settings : SafetySettings Source) (registered : RegisteredAnalyzer)
    (threshold : SecurityRisk) (valid : threshold ≠ .unknown) (confirmUnknown : Bool)
    (hanalyzer : settings.securityAnalyzer = some registered.analyzer)
    (hpolicy : settings.confirmationPolicy = .confirmRisky threshold valid confirmUnknown)
    (state : ConversationState) (response : LLMResponse)
    (hexempt : ¬Exempt (batch ids (gated settings env) state response))
    (halarms : ∃ action ∈ batch ids (gated settings env) state response,
      (∃ child ∈ registered.children, child.Alarms threshold action) ∧
        ¬registered.Withholds confirmUnknown action) :
    Holds ids (gated settings env) state response := by
  obtain ⟨action, haction, ⟨child, hchild, halarms⟩, hshows⟩ := halarms
  refine holds_of_shouldConfirm hexempt (List.ne_nil_of_mem haction) ?_
  simp only [gated, SafetySettings.shouldConfirm, hanalyzer, hpolicy, Option.elim_some,
    SecurityAnalyzer.analyzePendingActions, List.map_map, List.any_map, List.any_eq_true]
  exact ⟨action, haction, registered.shouldConfirm_of_alarms hchild halarms hshows⟩

/-- One of two analyzers finds a high risk, and the other knows nothing. -/
def halfBlind (propagateUnknown : Bool) : RegisteredAnalyzer :=
  .ensemble
    { analyzers := [⟨fun _ => some .high⟩, ⟨fun _ => some .unknown⟩]
      analyzers_ne_nil := List.cons_ne_nil _ _
      propagateUnknown }

/-- Only high risks are asked for. -/
def confirmHigh (propagateUnknown : Bool) : SafetySettings Unit where
  confirmationPolicy := .confirmRisky .high (by decide) false
  securityAnalyzer := some (halfBlind propagateUnknown).analyzer

def oneCall : LLMResponse := Sample.response "r" [Sample.toolCall "a" "tool"]

theorem batch_oneCall (propagateUnknown : Bool) : ∃ action,
    batch Sample.ids (gated (confirmHigh propagateUnknown) (Sample.environment (.response oneCall)))
      Sample.started oneCall = [action] ∧ action.action = some ⟨.other, ""⟩ :=
  ⟨_, rfl, rfl⟩

theorem holds_of_alarms_oneCall :
    Holds Sample.ids (gated (confirmHigh false) (Sample.environment (.response oneCall)))
      Sample.started oneCall := by
  obtain ⟨action, hbatch, hkind⟩ := batch_oneCall false
  refine holds_of_alarms (confirmHigh false) (halfBlind false) .high (by decide) false rfl rfl
    Sample.started oneCall ?_ ⟨action, ?_, ?_, ?_⟩
  · rintro ⟨single, call, hsingle, hcall, hexempt⟩
    rw [hbatch, List.singleton_inj] at hsingle
    subst hsingle
    rw [hkind, Option.some.injEq] at hcall
    subst hcall
    revert hexempt
    decide
  · rw [hbatch]
    exact List.mem_cons_self
  · exact ⟨_, List.mem_cons_self, .inr ⟨.high, rfl, rfl⟩⟩
  · rintro ⟨hpropagates, -⟩
    cases hpropagates

/-- A high risk is withheld, and the tool runs. -/
theorem not_holds_of_withheld :
    ∃ action ∈ batch Sample.ids
        (gated (confirmHigh true) (Sample.environment (.response oneCall))) Sample.started oneCall,
      action.action = some ⟨.other, ""⟩ ∧
      (∃ child ∈ (halfBlind true).children, child.Alarms .high action) ∧
      (handleResponse Sample.ids
        (gated (confirmHigh true) (Sample.environment (.response oneCall))) Sample.started
          oneCall).executionStatus ≠ .waitingForConfirmation ∧
      ¬Holds Sample.ids (gated (confirmHigh true) (Sample.environment (.response oneCall)))
        Sample.started oneCall := by
  obtain ⟨action, hbatch, hkind⟩ := batch_oneCall true
  have hstatus : (handleResponse Sample.ids
      (gated (confirmHigh true) (Sample.environment (.response oneCall))) Sample.started
        oneCall).executionStatus ≠ .waitingForConfirmation := by
    decide
  refine ⟨action, by rw [hbatch]; exact List.mem_cons_self, hkind,
    ⟨_, List.mem_cons_self, .inr ⟨.high, rfl, rfl⟩⟩, hstatus, fun hholds => hstatus ?_⟩
  exact congrArg ConversationState.executionStatus (hholds fun _ => .observation ⟨[]⟩)

end Agent

end ShuttleFlow
