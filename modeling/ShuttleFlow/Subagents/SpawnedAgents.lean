import ShuttleFlow.Subagents.SubagentRuns

/-! # Spawning agents to delegate to

The agents of a request are made and registered one after the other. Everything that is called
for one of them may raise.
-/

namespace ShuttleFlow

/-- Conversations are numbered as they are registered. -/
structure SpawnedAgent (Conversation : Type) where
  number : Nat
  conversation : Conversation
  deriving DecidableEq

/-- The executor, without its confirmation handler. -/
structure DelegateExecutor (Conversation : Type) where
  hasParent : Bool := true
  subAgents : Dict String (SpawnedAgent Conversation) := .empty
  maxChildren : Int := 5
  registered : Nat := 0
  numbered : ∀ agent ∈ subAgents.values, agent.number < registered

structure SpawnAction where
  ids : Option (List String) := none
  agentTypes : Option (List String) := none

/-- What is called for the agent at a position of the request. -/
structure SpawnHost (Factory Agent Visualizer Conversation : Type) where
  factories : Dict String Factory
  /-- The LLM is copied and handed to the factory, and streaming is turned off. -/
  workerAgent : Nat → Factory → Except String Agent
  createSubVisualizer : Nat → String → Except String (Option Visualizer)
  /-- The directory below that of the parent is made when the parent persists. -/
  subagentsPersistenceDir : Nat → Except String (Option String)
  localConversation : Nat → Factory → Agent → Option Visualizer → Option String →
    Except String Conversation
  setConfirmationPolicy : Nat → Factory → Conversation → Except String Conversation

namespace SpawnHost

variable {Factory Agent Visualizer Conversation : Type}
variable (host : SpawnHost Factory Agent Visualizer Conversation)

/-- Names of before, and those in their place. -/
def deprecatedNames : List (String × String) :=
  [("default", "general-purpose"), ("default cli mode", "general-purpose"),
    ("explore", "code-explorer"), ("bash", "bash-runner")]

def factoryName (name : String) : String :=
  (deprecatedNames.lookup name).getD (if name = "" then "general-purpose" else name)

def availableList : String :=
  if host.factories.keys = [] then "none registered"
  else ", ".intercalate (host.factories.keys.mergeSort (· ≤ ·))

def getAgentFactory (name : String) : Except String Factory :=
  match host.factories.get? (factoryName name) with
  | some factory => .ok factory
  | none =>
      .error ("Unknown agent '" ++ name ++ "'. Available types: " ++ host.availableList ++
        ". Use register_agent() to add custom agent types.")

/-- A conversation for one agent, before it is registered. -/
def subConversation (position : Nat) (agentId agentType : String) :
    Except String Conversation := do
  let factory ← host.getAgentFactory agentType
  let workerAgent ← host.workerAgent position factory
  let subVisualizer ← host.createSubVisualizer position agentId
  let persistenceDir ← host.subagentsPersistenceDir position
  let conversation ←
    host.localConversation position factory workerAgent subVisualizer persistenceDir
  host.setConfirmationPolicy position factory conversation

end SpawnHost

namespace DelegateExecutor

variable {Factory Agent Visualizer Conversation : Type}

def formatAgentLabel (agentId agentType : String) : String :=
  agentId ++ if agentType = "default" then " (default)" else " (" ++ agentType ++ ")"

def resolveAgentType (action : SpawnAction) (index : Nat) : String :=
  match (action.agentTypes.getD [])[index]? with
  | none => "default"
  | some agentType =>
      if PythonText.strip agentType = "" then "default" else PythonText.strip agentType

/-- An id that is in use already gets the new conversation. -/
def register (executor : DelegateExecutor Conversation) (agentId : String)
    (conversation : Conversation) : DelegateExecutor Conversation where
  hasParent := executor.hasParent
  subAgents := executor.subAgents.set agentId ⟨executor.registered, conversation⟩
  maxChildren := executor.maxChildren
  registered := executor.registered + 1
  numbered agent hagent := by
    rcases Dict.mem_values_set hagent with rfl | hold
    · exact Nat.lt_succ_self _
    · exact Nat.lt_succ_of_lt (executor.numbered agent hold)

/-- The agents from a position on. The first error ends the loop. -/
def spawnFrom (host : SpawnHost Factory Agent Visualizer Conversation)
    (executor : DelegateExecutor Conversation) :
    Nat → List (String × String) → DelegateExecutor Conversation × Option String
  | _, [] => (executor, none)
  | position, (agentId, agentType) :: rest =>
      match host.subConversation position agentId agentType with
      | .error error => (executor, some error)
      | .ok conversation =>
          spawnFrom host (executor.register agentId conversation) (position + 1) rest

/-- What is wrong with a request as such. -/
def refusal (executor : DelegateExecutor Conversation) (action : SpawnAction) : Option String :=
  let ids := action.ids.getD []
  let agentTypes := action.agentTypes.getD []
  if ids = [] then some "At least one ID is required for spawn action"
  else if agentTypes.length > ids.length then
    some ("agent_types length (" ++ toString agentTypes.length ++ ") cannot exceed ids length (" ++
      toString ids.length ++ ")")
  else if (executor.subAgents.keys.length + ids.length : Int) > executor.maxChildren then
    some ("Cannot spawn " ++ toString ids.length ++ " agents. Already have " ++
      toString executor.subAgents.keys.length ++ " agents, maximum is " ++
      toString executor.maxChildren)
  else none

/-- The ids of a request, each with the type of its agent. -/
def requested (action : SpawnAction) : List (String × String) :=
  (action.ids.getD []).zipIdx.map fun item => (item.1, resolveAgentType action item.2)

def parentMissing : String :=
  "Parent conversation not set. This should be set automatically on the first call to the " ++
    "executor."

/-- What is reported when the loop is over. -/
def spawnReport (action : SpawnAction) : Option String → SubagentObservation
  | some error => { text := "failed to spawn agents: " ++ error, isError := true }
  | none =>
      let details := (requested action).map fun agent => formatAgentLabel agent.1 agent.2
      { text := "Successfully spawned " ++ toString (action.ids.getD []).length ++
          " sub-agents: " ++ ", ".intercalate details }

def spawnAgents (host : SpawnHost Factory Agent Visualizer Conversation)
    (executor : DelegateExecutor Conversation) (action : SpawnAction) :
    SubagentObservation × DelegateExecutor Conversation :=
  match executor.refusal action with
  | some text => ({ text, isError := true }, executor)
  | none =>
      if executor.hasParent then
        let spawned := spawnFrom host executor 0 (requested action)
        (spawnReport action spawned.2, spawned.1)
      else (spawnReport action (some parentMissing), executor)

/-! ## All or nothing -/

/-- What spawning should do: an error changes nothing, and a success adds the requested agents to
those there were. -/
structure AllOrNothing (before after : DelegateExecutor Conversation) (ids : List String)
    (observation : SubagentObservation) : Prop where
  error : observation.isError = true → after.subAgents = before.subAgents
  gained : observation.isError = false →
    ∀ agentId, agentId ∈ after.subAgents.keys ↔ agentId ∈ before.subAgents.keys ∨ agentId ∈ ids
  kept : observation.isError = false → ∀ agentId agent,
    before.subAgents.get? agentId = some agent → after.subAgents.get? agentId = some agent
  bounded : observation.isError = false →
    (after.subAgents.keys.length : Int) ≤ before.maxChildren

/-- The agent at a position cannot be made. -/
def FailsAt (host : SpawnHost Factory Agent Visualizer Conversation) (action : SpawnAction)
    (position : Nat) : Prop :=
  ∃ agent error, (requested action)[position]? = some agent ∧
    host.subConversation position agent.1 agent.2 = .error error

/-- The request is refused, or nothing can be made at all, or everything can be and under ids
that are not in use. -/
def SpawnsSafely (host : SpawnHost Factory Agent Visualizer Conversation)
    (executor : DelegateExecutor Conversation) (action : SpawnAction) : Prop :=
  (executor.refusal action).isSome ∨ executor.hasParent = false ∨ FailsAt host action 0 ∨
    (∀ position, ¬FailsAt host action position) ∧
      ∀ agentId ∈ action.ids.getD [], agentId ∉ executor.subAgents.keys

/-! ## What a loop registers -/

/-- The executor after conversations have been registered under these ids. -/
structure Extends (before after : DelegateExecutor Conversation) (ids : List String) : Prop where
  other : ∀ agentId ∉ ids, after.subAgents.get? agentId = before.subAgents.get? agentId
  new : ∀ agentId ∈ ids, ∃ agent, after.subAgents.get? agentId = some agent ∧
    before.registered ≤ agent.number
  size : after.subAgents.keys.length ≤ before.subAgents.keys.length + ids.length

theorem Extends.refl (executor : DelegateExecutor Conversation) : Extends executor executor [] where
  other _ _ := rfl
  new _ hid := absurd hid List.not_mem_nil
  size := Nat.le_refl _

theorem length_keys_set_le (dict : Dict String (SpawnedAgent Conversation)) (agentId : String)
    (agent : SpawnedAgent Conversation) :
    (dict.set agentId agent).keys.length ≤ dict.keys.length + 1 := by
  by_cases hmem : agentId ∈ dict.keys
  · rw [Dict.keys_set_of_mem hmem]
    exact Nat.le_succ _
  · rw [Dict.keys_set_of_notMem hmem, List.length_append]
    exact Nat.le_refl _

theorem Extends.of_register {before after : DelegateExecutor Conversation} {agentId : String}
    {conversation : Conversation} {ids : List String}
    (hrest : Extends (before.register agentId conversation) after ids) :
    Extends before after (agentId :: ids) where
  other other hother := by
    rw [List.mem_cons, not_or] at hother
    rw [hrest.other other hother.2, register, Dict.get?_set, if_neg hother.1]
  new other hother := by
    by_cases hlater : other ∈ ids
    · obtain ⟨agent, hagent, hnumber⟩ := hrest.new other hlater
      exact ⟨agent, hagent, Nat.le_of_succ_le hnumber⟩
    · obtain rfl := (List.mem_cons.mp hother).resolve_right hlater
      refine ⟨⟨before.registered, conversation⟩, ?_, Nat.le_refl _⟩
      rw [hrest.other other hlater, register, Dict.get?_set, if_pos rfl]
  size := by
    have hset := length_keys_set_le before.subAgents agentId ⟨before.registered, conversation⟩
    have hsize : after.subAgents.keys.length ≤
        (before.subAgents.set agentId ⟨before.registered, conversation⟩).keys.length +
          ids.length := hrest.size
    rw [List.length_cons]
    omega

/-- The loop registers the agents in front of the first one that cannot be made. -/
theorem spawnFrom_spec (host : SpawnHost Factory Agent Visualizer Conversation)
    (executor : DelegateExecutor Conversation) (position : Nat) (agents : List (String × String)) :
    ∃ count, Extends executor (spawnFrom host executor position agents).1
        ((agents.take count).map Prod.fst) ∧
      (∀ index < count, ∀ agent, agents[index]? = some agent →
        ∃ conversation, host.subConversation (position + index) agent.1 agent.2 =
          .ok conversation) ∧
      ((spawnFrom host executor position agents).2 = none ∧ count = agents.length ∨
        ∃ agent error, (spawnFrom host executor position agents).2 = some error ∧
          agents[count]? = some agent ∧
          host.subConversation (position + count) agent.1 agent.2 = .error error) := by
  induction agents generalizing executor position with
  | nil => exact ⟨0, .refl executor, fun _ hindex => absurd hindex (Nat.not_lt_zero _),
      .inl ⟨rfl, rfl⟩⟩
  | cons agent rest ih =>
      obtain ⟨agentId, agentType⟩ := agent
      cases hmade : host.subConversation position agentId agentType with
      | error error =>
          have hstop : spawnFrom host executor position ((agentId, agentType) :: rest) =
              (executor, some error) := by
            rw [spawnFrom, hmade]
          rw [hstop]
          exact ⟨0, .refl executor, fun _ hindex => absurd hindex (Nat.not_lt_zero _),
            .inr ⟨(agentId, agentType), error, rfl, rfl, hmade⟩⟩
      | ok conversation =>
          have hnext : spawnFrom host executor position ((agentId, agentType) :: rest) =
              spawnFrom host (executor.register agentId conversation) (position + 1) rest := by
            rw [spawnFrom, hmade]
          rw [hnext]
          obtain ⟨count, hextends, hmake, hend⟩ :=
            ih (executor.register agentId conversation) (position + 1)
          refine ⟨count + 1, hextends.of_register, ?_, ?_⟩
          · intro index hindex agent hagent
            cases index with
            | zero =>
                rw [List.getElem?_cons_zero, Option.some.injEq] at hagent
                subst hagent
                exact ⟨conversation, hmade⟩
            | succ index =>
                rw [List.getElem?_cons_succ] at hagent
                rw [← Nat.add_assoc, Nat.add_right_comm]
                exact hmake index (Nat.lt_of_succ_lt_succ hindex) agent hagent
          · rcases hend with ⟨hnone, hcount⟩ | ⟨agent, error, herror, hagent, hfails⟩
            · exact .inl ⟨hnone, by rw [hcount, List.length_cons]⟩
            · refine .inr ⟨agent, error, herror, hagent, ?_⟩
              rw [← Nat.add_assoc, Nat.add_right_comm]
              exact hfails

theorem map_fst_requested (action : SpawnAction) :
    (requested action).map Prod.fst = action.ids.getD [] := by
  rw [requested, List.map_map]
  exact List.zipIdx_map_fst 0 _

/-- A new conversation is none of those that are registered already. -/
theorem Extends.get?_ne {before after : DelegateExecutor Conversation} {ids : List String}
    (hextends : Extends before after ids) {agentId : String} (hid : agentId ∈ ids) :
    after.subAgents.get? agentId ≠ before.subAgents.get? agentId := by
  intro hsame
  obtain ⟨agent, hagent, hnumber⟩ := hextends.new agentId hid
  rw [hagent] at hsame
  have hold : agent ∈ before.subAgents.values := Dict.mem_values_iff.mpr ⟨agentId, hsame.symm⟩
  exact Nat.not_lt.mpr hnumber (before.numbered agent hold)

theorem Extends.mem_keys_iff {before after : DelegateExecutor Conversation} {ids : List String}
    (hextends : Extends before after ids) (agentId : String) :
    agentId ∈ after.subAgents.keys ↔ agentId ∈ before.subAgents.keys ∨ agentId ∈ ids := by
  rw [← Dict.isSome_get?_iff, ← Dict.isSome_get?_iff]
  by_cases hid : agentId ∈ ids
  · obtain ⟨agent, hagent, -⟩ := hextends.new agentId hid
    simp [hagent, hid]
  · simp [hextends.other agentId hid, hid]

/-! ## Requests as a whole -/

theorem refused {host : SpawnHost Factory Agent Visualizer Conversation}
    {executor : DelegateExecutor Conversation} {action : SpawnAction} {text : String}
    (hrefused : executor.refusal action = some text) :
    spawnAgents host executor action = ({ text, isError := true }, executor) := by
  rw [spawnAgents, hrefused]

/-- The number of agents is checked against the length of the request. -/
theorem size_of_not_refused {executor : DelegateExecutor Conversation} {action : SpawnAction}
    (haccepted : executor.refusal action = none) :
    (executor.subAgents.keys.length + (action.ids.getD []).length : Int) ≤
      executor.maxChildren := by
  unfold refusal at haccepted
  simp only at haccepted
  split at haccepted
  next => cases haccepted
  next =>
    split at haccepted
    next => cases haccepted
    next =>
      split at haccepted
      next => cases haccepted
      next hroom => exact Int.not_lt.mp hroom

theorem AllOrNothing.of_error {executor : DelegateExecutor Conversation} {ids : List String}
    {observation : SubagentObservation} (herror : observation.isError = true) :
    AllOrNothing executor executor ids observation where
  error _ := rfl
  gained hsuccess := by rw [herror] at hsuccess; cases hsuccess
  kept hsuccess := by rw [herror] at hsuccess; cases hsuccess
  bounded hsuccess := by rw [herror] at hsuccess; cases hsuccess

theorem spawnAgents_of_accepted (host : SpawnHost Factory Agent Visualizer Conversation)
    {executor : DelegateExecutor Conversation} {action : SpawnAction}
    (haccepted : executor.refusal action = none) (hparent : executor.hasParent = true) :
    spawnAgents host executor action =
      (spawnReport action (spawnFrom host executor 0 (requested action)).2,
        (spawnFrom host executor 0 (requested action)).1) := by
  rw [spawnAgents, haccepted]
  simp only [if_pos hparent]

/-- A request for agents that can all be made. -/
theorem spawnAgents_of_made {host : SpawnHost Factory Agent Visualizer Conversation}
    {executor : DelegateExecutor Conversation} {action : SpawnAction}
    (haccepted : executor.refusal action = none) (hparent : executor.hasParent = true)
    (hmade : ∀ position, ¬FailsAt host action position) :
    (spawnAgents host executor action).1.isError = false ∧
      Extends executor (spawnAgents host executor action).2 (action.ids.getD []) := by
  rw [spawnAgents_of_accepted host haccepted hparent]
  obtain ⟨count, hextends, -, hend⟩ := spawnFrom_spec host executor 0 (requested action)
  rcases hend with ⟨hnone, hcount⟩ | ⟨agent, error, -, hagent, hfails⟩
  · rw [hcount, List.take_length, map_fst_requested] at hextends
    rw [hnone]
    exact ⟨rfl, hextends⟩
  · rw [Nat.zero_add] at hfails
    exact absurd ⟨agent, error, hagent, hfails⟩ (hmade count)

/-- A request with an agent that cannot be made: those in front of the first one stay
registered. -/
theorem spawnAgents_of_fails {host : SpawnHost Factory Agent Visualizer Conversation}
    {executor : DelegateExecutor Conversation} {action : SpawnAction}
    (haccepted : executor.refusal action = none) (hparent : executor.hasParent = true)
    {position : Nat} (hfails : FailsAt host action position) :
    ∃ count ≤ position, (spawnAgents host executor action).1.isError = true ∧
      FailsAt host action count ∧
      Extends executor (spawnAgents host executor action).2 ((action.ids.getD []).take count) := by
  rw [spawnAgents_of_accepted host haccepted hparent]
  obtain ⟨count, hextends, hmake, hend⟩ := spawnFrom_spec host executor 0 (requested action)
  rw [List.map_take, map_fst_requested] at hextends
  obtain ⟨agent, error, hagent, herror⟩ := hfails
  have hstops : count ≤ position := by
    apply Nat.le_of_not_lt
    intro hlt
    obtain ⟨conversation, hconversation⟩ := hmake position hlt agent hagent
    rw [Nat.zero_add, herror] at hconversation
    cases hconversation
  rcases hend with ⟨-, hcount⟩ | ⟨agent, error, hsome, hagent, hstop⟩
  · rw [hcount] at hstops
    exact absurd (List.getElem?_eq_some_iff.mp hagent).1 (Nat.not_lt.mpr hstops)
  · rw [Nat.zero_add] at hstop
    rw [hsome]
    exact ⟨count, hstops, rfl, ⟨agent, error, hagent, hstop⟩, hextends⟩

/-- Nothing is registered in front of the first agent. -/
theorem spawnAgents_of_fails_first {host : SpawnHost Factory Agent Visualizer Conversation}
    {executor : DelegateExecutor Conversation} {action : SpawnAction}
    (haccepted : executor.refusal action = none) (hparent : executor.hasParent = true)
    (hfails : FailsAt host action 0) : (spawnAgents host executor action).2 = executor := by
  obtain ⟨agent, error, hagent, herror⟩ := hfails
  rw [spawnAgents_of_accepted host haccepted hparent]
  cases hagents : requested action with
  | nil =>
      rw [hagents] at hagent
      cases hagent
  | cons first rest =>
      rw [hagents, List.getElem?_cons_zero, Option.some.injEq] at hagent
      subst hagent
      rw [spawnFrom, herror]

theorem allOrNothing_of_safely {host : SpawnHost Factory Agent Visualizer Conversation}
    {executor : DelegateExecutor Conversation} {action : SpawnAction}
    (hsafely : SpawnsSafely host executor action) :
    AllOrNothing executor (spawnAgents host executor action).2 (action.ids.getD [])
      (spawnAgents host executor action).1 := by
  cases haccepted : executor.refusal action with
  | some text =>
      rw [refused haccepted]
      exact .of_error rfl
  | none =>
      cases hparent : executor.hasParent with
      | false =>
          have hstop : spawnAgents host executor action =
              (spawnReport action (some parentMissing), executor) := by
            rw [spawnAgents, haccepted]
            simp [hparent]
          rw [hstop]
          exact .of_error rfl
      | true =>
          rcases hsafely with hrefused | hmissing | hfirst | ⟨hmade, hnew⟩
          · rw [haccepted] at hrefused
            cases hrefused
          · rw [hparent] at hmissing
            cases hmissing
          · obtain ⟨count, -, herror, -, -⟩ := spawnAgents_of_fails haccepted hparent hfirst
            rw [spawnAgents_of_fails_first haccepted hparent hfirst]
            exact .of_error herror
          · obtain ⟨hsuccess, hextends⟩ := spawnAgents_of_made haccepted hparent hmade
            refine ⟨fun herror => ?_, fun _ => hextends.mem_keys_iff, fun _ => ?_, fun _ => ?_⟩
            · rw [hsuccess] at herror
              cases herror
            · intro agentId agent hagent
              have hid : agentId ∉ action.ids.getD [] := fun hid =>
                hnew agentId hid (Dict.isSome_get?_iff.mp (by rw [hagent]; rfl))
              rw [hextends.other agentId hid]
              exact hagent
            · have hsize := hextends.size
              have hroom := size_of_not_refused haccepted
              omega

/-- There is an agent in front of one that is not the first. -/
theorem exists_mem_take {host : SpawnHost Factory Agent Visualizer Conversation}
    {action : SpawnAction} {count : Nat} (hfails : FailsAt host action (count + 1)) :
    ∃ agentId, agentId ∈ (action.ids.getD []).take (count + 1) := by
  obtain ⟨agent, error, hagent, -⟩ := hfails
  have hsome : (requested action).map Prod.fst ≠ [] := by
    intro hnil
    rw [List.map_eq_nil_iff.mp hnil] at hagent
    cases hagent
  rw [map_fst_requested] at hsome
  apply List.exists_mem_of_ne_nil
  intro htake
  exact (List.take_eq_nil_iff.mp htake).elim (Nat.succ_ne_zero count) hsome

/-- Spawning is all or nothing, and keeps the agents there are, exactly when the request is
refused, fails at its first agent, or goes through under ids that are not in use. -/
theorem allOrNothing_iff (host : SpawnHost Factory Agent Visualizer Conversation)
    (executor : DelegateExecutor Conversation) (action : SpawnAction) :
    AllOrNothing executor (spawnAgents host executor action).2 (action.ids.getD [])
        (spawnAgents host executor action).1 ↔
      SpawnsSafely host executor action := by
  constructor
  · intro hall
    by_contra hunsafe
    simp only [SpawnsSafely, not_or, not_and, Option.not_isSome_iff_eq_none] at hunsafe
    obtain ⟨haccepted, hparent, hfirst, hrest⟩ := hunsafe
    rw [Bool.not_eq_false] at hparent
    by_cases hfails : ∃ position, FailsAt host action position
    · obtain ⟨position, hposition⟩ := hfails
      obtain ⟨count, -, herror, hcount, hextends⟩ :=
        spawnAgents_of_fails haccepted hparent hposition
      cases count with
      | zero => exact hfirst hcount
      | succ count =>
          obtain ⟨agentId, hid⟩ := exists_mem_take hcount
          exact hextends.get?_ne hid (congrArg (fun dict => dict.get? agentId) (hall.error herror))
    · have hmade : ∀ position, ¬FailsAt host action position := fun position hposition =>
        hfails ⟨position, hposition⟩
      obtain ⟨hsuccess, hextends⟩ := spawnAgents_of_made haccepted hparent hmade
      refine hrest hmade fun agentId hid hold => ?_
      obtain ⟨agent, hagent⟩ := Option.isSome_iff_exists.mp (Dict.isSome_get?_iff.mpr hold)
      apply hextends.get?_ne hid
      rw [hagent, hall.kept hsuccess agentId agent hagent]
  · exact allOrNothing_of_safely

/-- One type of agent is registered, and everything that is called succeeds. -/
def generalPurposeOnly : SpawnHost Unit Unit Unit Unit where
  factories := Dict.empty.set "general-purpose" ()
  workerAgent _ _ := .ok ()
  createSubVisualizer _ _ := .ok none
  subagentsPersistenceDir _ := .ok none
  localConversation _ _ _ _ _ := .ok ()
  setConfirmationPolicy _ _ _ := .ok ()

def noAgents : DelegateExecutor Unit where
  numbered _ hagent := absurd hagent List.not_mem_nil

/-- Two agents, the second one of a type that is not registered. -/
def withUnknownType : SpawnAction where
  ids := some ["lodging", "activities"]
  agentTypes := some ["", "researcher"]

/-- The first agent stays when the second one cannot be made. An agent is lost when its id is
asked for once more. -/
theorem not_allOrNothing_withUnknownType :
    ¬AllOrNothing noAgents (spawnAgents generalPurposeOnly noAgents withUnknownType).2
        (withUnknownType.ids.getD []) (spawnAgents generalPurposeOnly noAgents withUnknownType).1 ∧
      ¬AllOrNothing (noAgents.register "lodging" ())
        (spawnAgents generalPurposeOnly (noAgents.register "lodging" ())
          { ids := some ["lodging"] }).2 ["lodging"]
        (spawnAgents generalPurposeOnly (noAgents.register "lodging" ())
          { ids := some ["lodging"] }).1 := by
  constructor
  · intro hall
    have hsame := hall.error (by decide +kernel)
    have hregistered : "lodging" ∈
        (spawnAgents generalPurposeOnly noAgents withUnknownType).2.subAgents.keys := by
      decide +kernel
    rw [hsame] at hregistered
    cases hregistered
  · intro hall
    have hkept := hall.kept (by decide +kernel) "lodging" ⟨0, ()⟩ (by decide +kernel)
    have hnumber := congrArg (Option.map SpawnedAgent.number) hkept
    revert hnumber
    decide +kernel

end DelegateExecutor

end ShuttleFlow
