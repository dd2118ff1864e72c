import ShuttleFlow.Conversation.AppendOnly
import ShuttleFlow.Conversation.Runs
import ShuttleFlow.Subagents.SubagentRuns

/-! # Whether a result belongs to its prompt

Only an exception is an error for the parent. Otherwise the result is the last thing that the
sub-agent has said, whether it was asked for it now or before.
-/

namespace ShuttleFlow

/-- The runs of the loop in worlds whose agents only add to the log. -/
def ConversationRuns.ofLoop (ids : IdSource) (settings : RunSettings) (world : Nat → RunWorld)
    (hagent : ∀ count iteration state,
      Appends state ((world count).agentStep iteration state)) (fuel : Nat) :
    ConversationRuns where
  run count state :=
    (LocalConversation.runLoop ids settings (world count) fuel state).map fun exit =>
      { state := exit.state }
  appends count state ended hrun := by
    obtain ⟨exit, hloop, rfl⟩ := Option.map_eq_some_iff.mp hrun
    exact LocalConversation.runLoop_appends (hagent count) hloop

namespace PromptedSubagent

variable {finishMessage : Action → String} {subagent : PromptedSubagent} {fuel : Nat}
  {ended : RunEnd}

/-- The events since the prompt. -/
def emitted (subagent : PromptedSubagent) (ended : RunEnd) : List Event :=
  ended.state.events.drop subagent.sent.events.length

/-- One run adds to the log, and so does the rejection of pending actions. -/
theorem runPass_appends {state : ConversationState} (hstate : Appends subagent.sent state)
    (count : Nat) :
    (subagent.runPass count state).Keeps (fun next => Appends subagent.sent next)
      fun exit => ∀ ended, exit = some ended → Appends subagent.sent ended.state := by
  unfold runPass
  cases hrun : subagent.runs.run count state with
  | none => exact nofun
  | some ended =>
      have hran : Appends subagent.sent ended.state :=
        hstate.trans (subagent.runs.appends count state ended hrun)
      dsimp only
      by_cases hover : ended.raised.isSome ∨ ended.state.executionStatus ≠ .waitingForConfirmation
      · rw [if_pos hover]
        rintro _ ⟨⟩
        exact hran
      · rw [if_neg hover]
        cases hpending : ConversationState.getUnmatchedActions ended.state.events with
        | nil =>
            rintro _ ⟨⟩
            exact hran
        | cons action rest =>
            dsimp only
            cases subagent.confirm count (action :: rest) with
            | error error =>
                rintro _ ⟨⟩
                exact hran
            | ok approved =>
                cases approved with
                | true => exact hran
                | false =>
                    exact hran.trans (LocalConversation.rejectPendingActions_appends ..)

theorem ends_appends (hends : subagent.ends fuel = some ended) :
    Appends subagent.sent ended.state := by
  unfold ends at hends
  split at hends
  next =>
    cases hends
    exact .refl _
  next =>
    unfold runUntilFinished at hends
    rw [Option.join_eq_some_iff] at hends
    exact runPasses_sound (fun count state hstate => runPass_appends hstate count) (.refl _) hends
      ended rfl

/-- The log is what it was when the prompt was sent, and what has been emitted since. -/
theorem sent_append_emitted (hends : subagent.ends fuel = some ended) :
    subagent.sent.events ++ subagent.emitted ended = ended.state.events := by
  obtain ⟨emitted, hevents⟩ := ends_appends hends
  unfold PromptedSubagent.emitted
  rw [← hevents, List.drop_left]

/-- The sub-agent has finished, and said something since the prompt that is not an invalid call of
the finish tool, nor empty. Otherwise it has said what is reported then. -/
def Replies (finishMessage : Action → String) (subagent : PromptedSubagent) (placeholder : String)
    (ended : RunEnd) : Prop :=
  ended.state.executionStatus = .finished ∧
    ∃ reply, lastReply finishMessage (subagent.emitted ended) = some reply ∧
      ((∃ text, reply = some text ∧ text ≠ "") ∨
        Says finishMessage (subagent.emitted ended) placeholder)

/-- The text of a report whose response may be empty. -/
def orPlaceholder (placeholder response : String) : String :=
  if response = "" then placeholder else response

/-- What is reported has been said since the prompt just in case there is a reply. -/
theorem says_orPlaceholder_iff (hends : subagent.ends fuel = some ended) (placeholder : String) :
    Says finishMessage (subagent.emitted ended)
        (orPlaceholder placeholder (getAgentFinalResponse finishMessage ended.state.events)) ↔
      ∃ reply, lastReply finishMessage (subagent.emitted ended) = some reply ∧
        ((∃ text, reply = some text ∧ text ≠ "") ∨
          Says finishMessage (subagent.emitted ended) placeholder) := by
  have hresponse : ∀ reply, lastReply finishMessage (subagent.emitted ended) = some reply →
      getAgentFinalResponse finishMessage ended.state.events = reply.getD "" := by
    intro reply hlast
    unfold getAgentFinalResponse
    rw [← sent_append_emitted hends, lastReply_append, hlast, Option.some_or]
    cases reply <;> rfl
  constructor
  · intro hsaid
    obtain ⟨reply, hlast⟩ := Option.isSome_iff_exists.mp hsaid.isSome_lastReply
    rw [hresponse reply hlast] at hsaid
    refine ⟨reply, hlast, ?_⟩
    cases reply with
    | none => exact .inr hsaid
    | some text =>
        by_cases hempty : text = ""
        · subst hempty
          exact .inr hsaid
        · exact .inl ⟨text, rfl, hempty⟩
  · rintro ⟨reply, hlast, hreply⟩
    rw [hresponse reply hlast]
    by_cases hempty : reply.getD "" = ""
    · rw [orPlaceholder, if_pos hempty]
      rcases hreply with ⟨text, rfl, hne⟩ | hsaid
      · exact absurd hempty hne
      · exact hsaid
    · rw [orPlaceholder, if_neg hempty]
      apply says_of_lastReply
      rw [hlast]
      cases reply with
      | none => exact absurd rfl hempty
      | some text => rfl

/-- The statuses of runs that did not get to an end. -/
def unfinished : List ConversationExecutionStatus := [.error, .stuck, .paused]

/-- A completed task has the result that its prompt got. -/
structure TaskBelongs (finishMessage : Action → String) (subagent : PromptedSubagent)
    (ended : RunEnd) (task : SubagentTask) : Prop where
  completed : task.status = .completed → ended.state.executionStatus = .finished ∧
    ∃ result, task.result = some result ∧ Says finishMessage (subagent.emitted ended) result
  failed : ended.state.executionStatus ∈ unfinished → task.status = .error

/-- What is reported of a delegation is a result that its prompt got, or an error. -/
structure ReportBelongs (finishMessage : Action → String) (subagent : PromptedSubagent)
    (ended : RunEnd) (report : Except String String) : Prop where
  completed : ∀ result, report = .ok result → ended.state.executionStatus = .finished ∧
    Says finishMessage (subagent.emitted ended) result
  failed : ended.state.executionStatus ∈ unfinished → ∃ error, report = .error error

theorem taskBelongs_iff (hends : subagent.ends fuel = some ended) {task reported : SubagentTask}
    (hreported : subagent.runTask finishMessage fuel task = some reported) :
    TaskBelongs finishMessage subagent ended reported ↔
      ended.raised.isSome ∨ Replies finishMessage subagent "" ended := by
  unfold runTask at hreported
  rw [hends, Option.map_some, Option.some_inj] at hreported
  cases hraised : ended.raised with
  | some error =>
      rw [hraised] at hreported
      subst hreported
      exact iff_of_true ⟨nofun, fun _ => rfl⟩ (.inl rfl)
  | none =>
      rw [hraised] at hreported
      subst hreported
      have hsaid := @says_orPlaceholder_iff finishMessage subagent fuel ended hends ""
      have hempty : orPlaceholder "" (getAgentFinalResponse finishMessage ended.state.events) =
          getAgentFinalResponse finishMessage ended.state.events := by
        unfold orPlaceholder
        split
        next hnone => exact hnone.symm
        next => rfl
      rw [hempty] at hsaid
      constructor
      · intro hbelongs
        obtain ⟨hfinished, result, hresult, htext⟩ := hbelongs.completed rfl
        cases hresult
        exact .inr ⟨hfinished, hsaid.mp htext⟩
      · intro hreplies
        obtain ⟨hfinished, hreply⟩ := hreplies.resolve_left Bool.false_ne_true
        refine ⟨fun _ => ⟨hfinished, _, rfl, hsaid.mpr hreply⟩, ?_⟩
        rw [hfinished]
        intro hmem
        exact absurd hmem (by decide)

theorem reportBelongs_iff (hends : subagent.ends fuel = some ended) {agentId : String}
    {report : Except String String}
    (hreport : subagent.runDelegated finishMessage fuel agentId = some report) :
    ReportBelongs finishMessage subagent ended report ↔
      ended.raised.isSome ∨ Replies finishMessage subagent noResponse ended := by
  unfold runDelegated at hreport
  rw [hends, Option.map_some, Option.some_inj] at hreport
  cases hraised : ended.raised with
  | some error =>
      rw [hraised] at hreport
      subst hreport
      exact iff_of_true ⟨nofun, fun _ => ⟨_, rfl⟩⟩ (.inl rfl)
  | none =>
      rw [hraised] at hreport
      subst hreport
      have hsaid := @says_orPlaceholder_iff finishMessage subagent fuel ended hends noResponse
      constructor
      · intro hbelongs
        obtain ⟨hfinished, htext⟩ := hbelongs.completed _ rfl
        exact .inr ⟨hfinished, hsaid.mp htext⟩
      · intro hreplies
        obtain ⟨hfinished, hreply⟩ := hreplies.resolve_left Bool.false_ne_true
        refine ⟨?_, ?_⟩
        · rintro result ⟨⟩
          exact ⟨hfinished, hsaid.mpr hreply⟩
        · rw [hfinished]
          intro hmem
          exact absurd hmem (by decide)

end PromptedSubagent

open PromptedSubagent

/-- Each report of a delegation is the one of its agent. -/
theorem DelegateExecutor.exists_of_mem_reports {finishMessage : Action → String} {fuel : Nat}
    {spawned : List String} {tasks : Dict String PromptedSubagent}
    {observation : SubagentObservation} {reports : List (String × Except String String)}
    (hdelegated : delegateTasks finishMessage fuel spawned tasks = some (observation, reports))
    {agentId : String} {report : Except String String} (hreport : (agentId, report) ∈ reports) :
    ∃ subagent, tasks.get? agentId = some subagent ∧
      subagent.runDelegated finishMessage fuel agentId = some report := by
  have hentries : ∀ (entries : List (String × PromptedSubagent))
      (reports : List (String × Except String String)),
      entries.mapM (runTask finishMessage fuel) = some reports → (agentId, report) ∈ reports →
      ∃ entry ∈ entries, runTask finishMessage fuel entry = some (agentId, report) := by
    intro entries
    induction entries with
    | nil =>
        intro reports hmap hmem
        cases hmap
        cases hmem
    | cons entry rest ih =>
        intro reports hmap hmem
        rw [List.mapM_cons] at hmap
        obtain ⟨first, hfirst, hmap⟩ := Option.bind_eq_some_iff.mp hmap
        obtain ⟨later, hlater, hmap⟩ := Option.bind_eq_some_iff.mp hmap
        cases hmap
        rcases List.mem_cons.mp hmem with rfl | hmem
        · exact ⟨entry, List.mem_cons_self, hfirst⟩
        · obtain ⟨found, hfound, hrun⟩ := ih later hlater hmem
          exact ⟨found, List.mem_cons_of_mem _ hfound, hrun⟩
  unfold delegateTasks at hdelegated
  split at hdelegated
  next =>
    cases hdelegated
    cases hreport
  next =>
    split at hdelegated
    next =>
      cases hdelegated
      cases hreport
    next =>
      obtain ⟨found, hmap, heq⟩ := Option.map_eq_some_iff.mp hdelegated
      cases heq
      obtain ⟨⟨id, subagent⟩, hmem, hrun⟩ := hentries _ _ hmap hreport
      obtain ⟨result, hresult, heq⟩ := Option.map_eq_some_iff.mp hrun
      cases heq
      exact ⟨subagent, Dict.get?_of_mem_entries hmem, hresult⟩

/-- For each prompt that a sub-agent is given, by either tool: what the parent is told belongs to
the prompt just in case something is raised or the sub-agent finishes with a reply. -/
theorem results_belong_iff (finishMessage : Action → String) (fuel : Nat) :
    (∀ subagent ended task reported, ends subagent fuel = some ended →
      subagent.runTask finishMessage fuel task = some reported →
      (TaskBelongs finishMessage subagent ended reported ↔
        ended.raised.isSome ∨ Replies finishMessage subagent "" ended)) ∧
    ∀ spawned tasks observation reports,
      DelegateExecutor.delegateTasks finishMessage fuel spawned tasks =
        some (observation, reports) →
      ∀ agentId report, (agentId, report) ∈ reports →
        ∃ subagent ended, tasks.get? agentId = some subagent ∧ subagent.ends fuel = some ended ∧
          (ReportBelongs finishMessage subagent ended report ↔
            ended.raised.isSome ∨ Replies finishMessage subagent noResponse ended) := by
  constructor
  · intro subagent ended task reported hends hreported
    exact taskBelongs_iff hends hreported
  · intro spawned tasks observation reports hdelegated agentId report hreport
    obtain ⟨subagent, hget, hrun⟩ :=
      DelegateExecutor.exists_of_mem_reports hdelegated hreport
    obtain ⟨ended, hends, -⟩ := Option.map_eq_some_iff.mp hrun
    exact ⟨subagent, ended, hget, hends, reportBelongs_iff hends hrun⟩

namespace Sample

def answer (text : String) : Event :=
  .convertible (.message
    { id := text, source := .agent, llmMessage := { role := .assistant, content := [.text text] } })

/-- A sub-agent that has been asked before, and may make one step. -/
def capital (agentStep : ConversationState → ConversationState)
    (hagent : ∀ state, Appends state (agentStep state)) : PromptedSubagent where
  ids
  prompt := { role := .user, content := [.text "Capital of Peru?"] }
  runs := .ofLoop ids ⟨1, Nat.one_pos, none⟩
    (fun _ => ⟨fun _ => agentStep, fun _ => [], fun _ => []⟩) (fun _ _ => hagent) 3
  state := { events := [answer "Paris"], executionStatus := .finished }

/-- The sub-agent answers. -/
def answering : PromptedSubagent :=
  capital (fun state => { state.defaultCallback (answer "Lima") with executionStatus := .finished })
    fun state => ConversationState.defaultCallback_appends state (answer "Lima")

/-- The sub-agent gets nowhere. -/
def idling : PromptedSubagent := capital (fun state => state) Appends.refl

end Sample

open Sample in
/-- The sub-agent answers in its one step, to a task as well as to a delegation. -/
theorem results_belong_iff_answering :
    (∃ ended reported, answering.ends 1 = some ended ∧ reported.result = some "Lima" ∧
      TaskBelongs Action.dump answering ended reported) ∧
    ∃ ended, answering.ends 1 = some ended ∧
      ReportBelongs Action.dump answering ended (.ok "Lima") := by
  have hstatus : (answering.ends 1).map (fun ended => ended.state.executionStatus) =
      some .finished := by decide +kernel
  have hreply : (answering.ends 1).map (fun ended =>
      lastReply Action.dump (answering.emitted ended)) = some (some (some "Lima")) := by
    decide +kernel
  have hresult : (answering.runTask Action.dump 1 ⟨"task_00000001", .running, none, none⟩).map
      (fun reported => reported.result) = some (some "Lima") := by decide +kernel
  have hreports : (DelegateExecutor.delegateTasks Action.dump 1 ["geographer"]
      (Dict.empty.set "geographer" answering)).map Prod.snd =
        some [("geographer", .ok "Lima")] := by decide +kernel
  obtain ⟨ended, hends, hstatus⟩ := Option.map_eq_some_iff.mp hstatus
  rw [hends, Option.map_some, Option.some_inj] at hreply
  have hreplies : ∀ placeholder, Replies Action.dump answering placeholder ended := fun _ =>
    ⟨hstatus, some "Lima", hreply, .inl ⟨"Lima", rfl, by decide⟩⟩
  constructor
  · obtain ⟨reported, hreported, hresult⟩ := Option.map_eq_some_iff.mp hresult
    refine ⟨ended, reported, hends, hresult, ?_⟩
    apply ((results_belong_iff Action.dump 1).1 answering ended _ reported hends hreported).mpr
    exact .inr (hreplies "")
  · obtain ⟨⟨observation, reports⟩, hdelegated, hreports⟩ := Option.map_eq_some_iff.mp hreports
    have hmem : ("geographer", Except.ok "Lima") ∈ reports := by
      rw [show reports = _ from hreports]
      exact List.mem_cons_self
    obtain ⟨subagent, last, hget, hlast, hbelongs⟩ := (results_belong_iff Action.dump 1).2 _ _
      observation reports hdelegated "geographer" (.ok "Lima") hmem
    have hsame : subagent = answering := by
      rw [Dict.get?_set, if_pos rfl] at hget
      exact (Option.some.inj hget).symm
    subst hsame
    rw [hends] at hlast
    cases hlast
    exact ⟨ended, hends, hbelongs.mpr (.inr (hreplies noResponse))⟩

open Sample in
/-- The sub-agent is at its limit, and the task is completed with the answer to another prompt. -/
theorem not_results_belong_of_idling : ¬ ∀ ended task reported, idling.ends 1 = some ended →
    idling.runTask Action.dump 1 task = some reported →
    TaskBelongs Action.dump idling ended reported := by
  have hstatus : (idling.ends 1).map (fun ended => ended.state.executionStatus) = some .error := by
    decide +kernel
  have hcompleted : (idling.runTask Action.dump 1 ⟨"task_00000001", .running, none, none⟩).map
      (fun reported => (reported.status, reported.result)) = some (.completed, some "Paris") := by
    decide +kernel
  obtain ⟨ended, hends, hstatus⟩ := Option.map_eq_some_iff.mp hstatus
  obtain ⟨reported, hreported, hcompleted⟩ := Option.map_eq_some_iff.mp hcompleted
  intro hbelongs
  have hfailed := (hbelongs ended _ reported hends hreported).failed (by rw [hstatus]; decide)
  cases (Prod.mk.inj hcompleted).1.symm.trans hfailed

end ShuttleFlow
