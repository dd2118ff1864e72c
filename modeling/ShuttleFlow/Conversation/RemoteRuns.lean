import ShuttleFlow.Conversation.RemoteRun
import ShuttleFlow.Library.Transitions

/-! # One remote run after another

The server accepts a run first and sets its status later. What it sets reaches the client
over the WebSocket in order, but arbitrarily late; a poll reads the status of the moment.
-/

namespace ShuttleFlow

open TransitionSystem

/-- A status with the number of the run that set it or ended with it. -/
structure RunStatus where
  run : Nat
  status : ConversationExecutionStatus
  deriving DecidableEq, Repr

inductive ServerPhase
  | idle
  /-- A run task has been created and has not set the status yet. -/
  | accepted
  | running
  deriving DecidableEq, Repr

structure RunServer where
  phase : ServerPhase := .idle
  /-- How many runs have been accepted. -/
  runs : Nat := 0
  current : RunStatus
  deriving DecidableEq, Repr

/-- A call of `run`, by what it does next. A call waits for the run it was accepted for, if it
was not told that there is a run already. -/
inductive ClientPhase
  | outside
  | posting
  | getting (run : Option Nat) (consecutiveTerminalPolls : Nat)
  | polling (run : Option Nat) (consecutiveTerminalPolls : Nat)
  /-- The run is complete, because of a status of some run. -/
  | refreshing (run : Option Nat) (cause : Nat) (byPolls : Bool)
  deriving DecidableEq, Repr

structure RemoteRuns where
  server : RunServer
  /-- What has been sent and not delivered. -/
  channel : List RunStatus := []
  terminalStatusQueue : List RunStatus := []
  client : ClientPhase := .outside
  deriving DecidableEq, Repr

inductive RunsStep
  /-- The run task sets its first status. -/
  | enterLoop
  | setStatus (status : ConversationExecutionStatus)
  | leaveLoop
  /-- The agent cannot be initialised. -/
  | leaveUnready
  /-- Another client, or a message, starts a run. -/
  | acceptOther
  | deliver
  | call
  | post (blocking : Bool)
  | postFails
  | timeOut
  | get
  /-- Nothing has come for the poll interval. -/
  | getNothing
  | poll
  | pollFails (failure : RequestFailure)
  | refresh (reconciled : Bool)
  | refreshFails

/-- A call has ended, because of a status of some run if it is known. -/
structure CallEnd where
  run : Option Nat
  cause : Option Nat
  ending : WaitEnding
  deriving DecidableEq, Repr

/-- What a run task sets first. -/
def ConversationExecutionStatus.started :
    ConversationExecutionStatus → ConversationExecutionStatus
  | idle | paused | error | stuck => running
  | running => running
  | waitingForConfirmation => waitingForConfirmation
  | finished => finished
  | deleting => deleting

/-- The run that the call waits for. -/
def ClientPhase.waitsFor : ClientPhase → Option Nat
  | outside | posting => none
  | getting run _ | polling run _ | refreshing run _ _ => run

namespace RemoteRuns

open RemoteConversation

/-- Only a change is sent. -/
def publish (state : RemoteRuns) (status : ConversationExecutionStatus) : RemoteRuns :=
  let update : RunStatus := ⟨state.server.runs, status⟩
  { state with
    server := { state.server with current := update }
    channel :=
      if status = state.server.current.status then state.channel else state.channel ++ [update] }

/-- `run` is refused while another run goes on. -/
def refuses (server : RunServer) : Bool :=
  server.phase ≠ .idle || server.current.status = .running

def accept (state : RemoteRuns) : RemoteRuns :=
  { state with
    server := { state.server with phase := .accepted, runs := state.server.runs + 1 } }

/-- A status of an earlier call is dropped. -/
def drain (state : RemoteRuns) : RemoteRuns :=
  { state with terminalStatusQueue := [] }

def moveTo (state : RemoteRuns) (client : ClientPhase) : RemoteRuns × List CallEnd :=
  ({ state with client }, [])

def endCall (state : RemoteRuns) (run cause : Option Nat) (ending : WaitEnding) :
    RemoteRuns × List CallEnd :=
  ({ state with client := .outside }, [⟨run, cause, ending⟩])

/-- The first status in the queue. -/
def take (state : RemoteRuns) (run : Option Nat) (notified : RunStatus) :
    RemoteRuns × List CallEnd :=
  match handleConversationStatus (.known notified.status) with
  | .error error => state.endCall run (some notified.run) (.raised error)
  | .ok _ => state.moveTo (.refreshing run notified.run false)

/-- A poll that was answered. -/
def count (state : RemoteRuns) (run : Option Nat) (polls : Nat) : RemoteRuns × List CallEnd :=
  let polled := state.server.current
  match handleConversationStatus (.known polled.status) with
  | .error error => state.endCall run (some polled.run) (.raised error)
  | .ok _ =>
      if polled.status.isTerminal then
        if terminalPollThreshold ≤ polls + 1 then
          state.moveTo (.refreshing run polled.run true)
        else state.moveTo (.getting run (polls + 1))
      else state.moveTo (.getting run 0)

/-- The final status, after polls only. -/
def finish (state : RemoteRuns) (run : Option Nat) (cause : Nat) (reconciled : Bool) :
    RemoteRuns × List CallEnd :=
  let final := state.server.current
  match handleConversationStatus (.known final.status) with
  | .error error => state.endCall run (some final.run) (.raised error)
  | .ok _ =>
      if reconciled then state.endCall run (some cause) .returned
      else state.endCall run none .escaped

def step (state : RemoteRuns) : RunsStep → Option (RemoteRuns × List CallEnd)
  | .enterLoop =>
      if state.server.phase = .accepted then
        let state := { state with server := { state.server with phase := .running } }
        let status := state.server.current.status
        some (if status.started = status then state else state.publish status.started, [])
      else none
  | .setStatus status =>
      -- only a run sets a terminal status; anybody may pause, or send a message
      if state.server.phase = .running ∨ status.isTerminal = false then
        some (state.publish status, [])
      else none
  | .leaveLoop =>
      if state.server.phase = .running then
        some ({ state with
          server := { state.server with
            phase := .idle
            current := ⟨state.server.runs, state.server.current.status⟩ } }, [])
      else none
  | .leaveUnready =>
      if state.server.phase = .accepted then
        some ({ state with server := { state.server with phase := .idle } }, [])
      else none
  | .acceptOther => if refuses state.server then none else some (state.accept, [])
  | .deliver =>
      match state.channel with
      | [] => none
      | status :: rest =>
          let queue :=
            if status.status.isTerminal then state.terminalStatusQueue ++ [status]
            else state.terminalStatusQueue
          some ({ state with channel := rest, terminalStatusQueue := queue }, [])
  | .call =>
      match state.client with
      | .outside => some (state.drain.moveTo .posting)
      | _ => none
  | .post blocking =>
      match state.client with
      | .posting =>
          let refused := refuses state.server
          let run := if refused then none else some (state.server.runs + 1)
          let state := if refused then state else state.accept
          some (state.moveTo (if blocking then .getting run 0 else .outside))
      | _ => none
  | .postFails =>
      match state.client with
      | .posting => some (state.endCall none none (.raised .other))
      | _ => none
  | .timeOut =>
      match state.client with
      | .getting run _ => some (state.endCall run none (.raised .timedOut))
      | _ => none
  | .get =>
      match state.client, state.terminalStatusQueue with
      | .getting run _, notified :: rest =>
          some ({ state with terminalStatusQueue := rest }.take run notified)
      | _, _ => none
  | .getNothing =>
      match state.client, state.terminalStatusQueue with
      | .getting run polls, [] => some (state.moveTo (.polling run polls))
      | _, _ => none
  | .poll =>
      match state.client with
      | .polling run polls => some (state.count run polls)
      | _ => none
  | .pollFails failure =>
      match state.client, handlePollException failure with
      | .polling run _, none => some (state.moveTo (.getting run 0))
      | .polling run _, some error => some (state.endCall run none (.raised error))
      | _, _ => none
  | .refresh reconciled =>
      match state.client with
      | .refreshing run cause byPolls =>
          if byPolls then some (state.finish run cause reconciled)
          else some (state.endCall run (some cause) .returned)
      | _ => none
  | .refreshFails =>
      match state.client with
      | .refreshing run _ _ => some (state.endCall run none .escaped)
      | _ => none

def system : TransitionSystem RemoteRuns RunsStep CallEnd where
  step := step

/-- The client has connected to a conversation whose earlier runs are over. -/
def connected (status : ConversationExecutionStatus) : RemoteRuns where
  server := { current := ⟨0, status⟩ }

/-! ## When no call ends early -/

/-- The call ends because of a status that was there before the run was accepted. -/
def EndsEarly (call : CallEnd) : Prop :=
  ∃ run ∈ call.run, ∃ cause ∈ call.cause, cause < run

/-- A poll that reads this status does not end the call. -/
def passes (status : ConversationExecutionStatus) (polls : Nat) : Bool :=
  !status.isTerminal || (status = .finished && polls + 1 < terminalPollThreshold)

/-- No notification of an earlier run is left when a run is accepted, or comes while its call
waits; and no poll finds a failure that an earlier run has left, or for the third time that it
finished. -/
def timely (state : RemoteRuns) : RunsStep → Bool
  | .post blocking => !blocking || refuses state.server || state.terminalStatusQueue.isEmpty
  | .deliver =>
      state.channel.head?.all fun status =>
        !status.status.isTerminal || state.client.waitsFor.all (· ≤ status.run)
  | .poll =>
      match state.client with
      | .polling (some run) polls =>
          run ≤ state.server.current.run || passes state.server.current.status polls
      | _ => true
  | _ => true

/-- What the waiting call knows is from its own run or a later one. -/
structure UpToDate (state : RemoteRuns) : Prop where
  accepted : ∀ run ∈ state.client.waitsFor, run ≤ state.server.runs
  queue : ∀ run ∈ state.client.waitsFor, ∀ status ∈ state.terminalStatusQueue, run ≤ status.run
  cause : ∀ run cause byPolls, state.client = .refreshing (some run) cause byPolls →
    run ≤ cause ∧ (byPolls → run ≤ state.server.current.run)

variable {state next : RemoteRuns} {seen trace : List CallEnd}
  {status : ConversationExecutionStatus}

/-- The server moves, and the client does not. -/
theorem UpToDate.ofServer {server : RunServer} {channel : List RunStatus}
    (huptodate : UpToDate state) (hruns : state.server.runs ≤ server.runs)
    (hcurrent : server.current = state.server.current ∨ server.current.run = server.runs) :
    UpToDate { state with server, channel } := by
  refine ⟨fun run hrun => (huptodate.accepted run hrun).trans hruns, huptodate.queue, ?_⟩
  intro run cause byPolls hclient
  obtain ⟨hcause, hpolls⟩ := huptodate.cause run cause byPolls hclient
  refine ⟨hcause, fun hbyPolls => ?_⟩
  rcases hcurrent with hcurrent | hcurrent
  · rw [hcurrent]
    exact hpolls hbyPolls
  · rw [hcurrent]
    have hrun : run ∈ state.client.waitsFor := by rw [hclient]; rfl
    exact (huptodate.accepted run hrun).trans hruns

theorem UpToDate.publish (huptodate : UpToDate state) : UpToDate (state.publish status) :=
  huptodate.ofServer le_rfl (.inr rfl)

/-- A call that does not wait for a run knows nothing. -/
theorem UpToDate.ofIdle (hclient : state.client.waitsFor = none) : UpToDate state := by
  refine ⟨?_, ?_, ?_⟩
  · intro run hrun
    rw [hclient] at hrun
    cases hrun
  · intro run hrun
    rw [hclient] at hrun
    cases hrun
  · intro run cause byPolls hrefreshing
    rw [hrefreshing] at hclient
    cases hclient

/-- The call goes on with what it knows. -/
theorem UpToDate.moveTo {client : ClientPhase} (huptodate : UpToDate state)
    (hwaits : client.waitsFor = state.client.waitsFor)
    (hcause : ∀ run cause byPolls, client = .refreshing (some run) cause byPolls →
      run ≤ cause ∧ (byPolls → run ≤ state.server.current.run)) :
    UpToDate (state.moveTo client).1 := by
  refine ⟨?_, ?_, hcause⟩
  · intro run hrun
    exact huptodate.accepted run (hwaits ▸ hrun)
  · intro run hrun
    exact huptodate.queue run (hwaits ▸ hrun)

theorem UpToDate.endCall (run cause : Option Nat) (ending : WaitEnding) :
    UpToDate (state.endCall run cause ending).1 :=
  .ofIdle rfl

theorem not_endsEarly_of_run {cause : Option Nat} {ending : WaitEnding} :
    ¬EndsEarly ⟨none, cause, ending⟩ := by
  rintro ⟨run, hrun, -⟩
  cases hrun

theorem not_endsEarly_of_cause {run : Option Nat} {ending : WaitEnding} :
    ¬EndsEarly ⟨run, none, ending⟩ := by
  rintro ⟨-, -, cause, hcause, -⟩
  cases hcause

theorem not_endsEarly_of_le {run : Option Nat} {cause : Nat} {ending : WaitEnding}
    (hle : ∀ waited ∈ run, waited ≤ cause) : ¬EndsEarly ⟨run, some cause, ending⟩ := by
  rintro ⟨waited, hwaited, last, hlast, hlt⟩
  cases hlast
  exact absurd (hle waited hwaited) (not_le.mpr hlt)

/-- What is to hold after a step. -/
def Preserved (result : RemoteRuns × List CallEnd) : Prop :=
  UpToDate result.1 ∧ ∀ call ∈ result.2, ¬EndsEarly call

theorem Preserved.quiet (huptodate : UpToDate state) : Preserved (state, []) :=
  ⟨huptodate, by simp⟩

theorem Preserved.moveTo {client : ClientPhase} (huptodate : UpToDate state)
    (hwaits : client.waitsFor = state.client.waitsFor)
    (hcause : ∀ run cause byPolls, client = .refreshing (some run) cause byPolls →
      run ≤ cause ∧ (byPolls → run ≤ state.server.current.run)) :
    Preserved (state.moveTo client) :=
  .quiet (huptodate.moveTo hwaits hcause)

theorem Preserved.endCall {run cause : Option Nat} {ending : WaitEnding}
    (hcall : ¬EndsEarly ⟨run, cause, ending⟩) : Preserved (state.endCall run cause ending) :=
  ⟨.endCall run cause ending, by simpa [RemoteRuns.endCall] using hcall⟩

theorem Preserved.take {run : Option Nat} {notified : RunStatus} (huptodate : UpToDate state)
    (hwaits : state.client.waitsFor = run) (hnotified : ∀ waited ∈ run, waited ≤ notified.run) :
    Preserved (state.take run notified) := by
  unfold RemoteRuns.take
  split
  · exact .endCall (not_endsEarly_of_le hnotified)
  · refine .moveTo huptodate hwaits.symm ?_
    intro waited cause byPolls hclient
    cases hclient
    exact ⟨hnotified waited rfl, nofun⟩

theorem Preserved.count {run : Option Nat} {polls : Nat} (huptodate : UpToDate state)
    (hwaits : state.client.waitsFor = run)
    (hpoll : ∀ waited ∈ run, waited ≤ state.server.current.run ∨
      passes state.server.current.status polls) : Preserved (state.count run polls) := by
  unfold RemoteRuns.count
  simp only
  split
  next error hhandled =>
    refine .endCall (not_endsEarly_of_le fun waited hwaited => ?_)
    refine (hpoll waited hwaited).resolve_right fun hpasses => ?_
    cases hstatus : state.server.current.status <;>
      simp_all [handleConversationStatus, passes, ConversationExecutionStatus.isTerminal]
  next hhandled =>
    split
    next hterminal =>
      split
      next hlast =>
        refine .moveTo huptodate hwaits.symm ?_
        intro waited cause byPolls hclient
        cases hclient
        have hfresh : waited ≤ state.server.current.run := by
          refine (hpoll waited rfl).resolve_right fun hpasses => ?_
          simp only [passes, hterminal, Bool.not_true, Bool.false_or, Bool.and_eq_true,
            decide_eq_true_eq] at hpasses
          exact absurd hlast (not_le.mpr hpasses.2)
        exact ⟨hfresh, fun _ => hfresh⟩
      next =>
        refine .moveTo huptodate hwaits.symm ?_
        intro waited cause byPolls hclient
        cases hclient
    next =>
      refine .moveTo huptodate hwaits.symm ?_
      intro waited cause byPolls hclient
      cases hclient

theorem Preserved.finish {run : Option Nat} {cause : Nat} {reconciled : Bool}
    (hrun : ∀ waited ∈ run, waited ≤ cause ∧ waited ≤ state.server.current.run) :
    Preserved (state.finish run cause reconciled) := by
  unfold RemoteRuns.finish
  simp only
  split
  · exact .endCall (not_endsEarly_of_le fun waited hwaited => (hrun waited hwaited).2)
  · split
    · exact .endCall (not_endsEarly_of_le fun waited hwaited => (hrun waited hwaited).1)
    · exact .endCall not_endsEarly_of_cause

/-- The run that has been accepted is the newest. -/
theorem UpToDate.post {run : Option Nat} {client : ClientPhase}
    (hqueue : state.terminalStatusQueue = []) (hclient : client = .getting run 0)
    (hrun : ∀ waited ∈ run, waited ≤ state.server.runs) : UpToDate { state with client } := by
  subst hclient
  refine ⟨hrun, ?_, nofun⟩
  intro waited _ status hstatus
  rw [hqueue] at hstatus
  cases hstatus

theorem UpToDate.deliver {delivered : RunStatus} {rest : List RunStatus}
    (huptodate : UpToDate state)
    (htimely : delivered.status.isTerminal → ∀ run ∈ state.client.waitsFor, run ≤ delivered.run) :
    UpToDate { state with
      channel := rest
      terminalStatusQueue :=
        if delivered.status.isTerminal then state.terminalStatusQueue ++ [delivered]
        else state.terminalStatusQueue } := by
  refine ⟨huptodate.accepted, ?_, huptodate.cause⟩
  intro run hrun status hstatus
  simp only at hstatus
  split at hstatus
  next hterminal =>
    rcases List.mem_append.mp hstatus with hold | hnew
    · exact huptodate.queue run hrun status hold
    · rw [List.mem_singleton.mp hnew]
      exact htimely hterminal run hrun
  next => exact huptodate.queue run hrun status hstatus

theorem preserved_step {label : RunsStep} (huptodate : UpToDate state)
    (htimely : timely state label = true) {result : RemoteRuns × List CallEnd}
    (hstep : step state label = some result) : Preserved result := by
  cases label with
  | enterLoop =>
      simp only [step, Option.ite_none_right_eq_some] at hstep
      obtain ⟨-, hstep⟩ := hstep
      cases hstep
      have hrunning : UpToDate { state with server := { state.server with phase := .running } } :=
        huptodate.ofServer le_rfl (.inl rfl)
      split
      · exact .quiet hrunning
      · exact .quiet hrunning.publish
  | setStatus status =>
      simp only [step, Option.ite_none_right_eq_some] at hstep
      obtain ⟨-, hstep⟩ := hstep
      cases hstep
      exact .quiet huptodate.publish
  | leaveLoop =>
      simp only [step, Option.ite_none_right_eq_some] at hstep
      obtain ⟨-, hstep⟩ := hstep
      cases hstep
      exact .quiet (huptodate.ofServer le_rfl (.inr rfl))
  | leaveUnready =>
      simp only [step, Option.ite_none_right_eq_some] at hstep
      obtain ⟨-, hstep⟩ := hstep
      cases hstep
      exact .quiet (huptodate.ofServer le_rfl (.inl rfl))
  | acceptOther =>
      simp only [step, Option.ite_none_left_eq_some] at hstep
      obtain ⟨-, hstep⟩ := hstep
      cases hstep
      exact .quiet (huptodate.ofServer (Nat.le_succ _) (.inl rfl))
  | deliver =>
      simp only [step] at hstep
      split at hstep
      · cases hstep
      next delivered rest hchannel =>
        cases hstep
        refine .quiet (huptodate.deliver fun hterminal run hrun => ?_)
        have hrun : state.client.waitsFor = some run := hrun
        simpa [timely, hchannel, hterminal, hrun] using htimely
  | call =>
      simp only [step] at hstep
      split at hstep
      · cases hstep
        exact .quiet (.ofIdle rfl)
      · cases hstep
  | post blocking =>
      simp only [step] at hstep
      split at hstep
      · cases hstep
        cases blocking with
        | false => exact .quiet (.ofIdle rfl)
        | true =>
            split
            next => exact .quiet (.ofIdle rfl)
            next haccepted =>
              have hqueue : state.terminalStatusQueue = [] := by
                simpa [timely, haccepted] using htimely
              refine .quiet (.post hqueue rfl fun run hrun => ?_)
              cases hrun
              exact le_rfl
      · cases hstep
  | postFails =>
      simp only [step] at hstep
      split at hstep
      · cases hstep
        exact .endCall not_endsEarly_of_run
      · cases hstep
  | timeOut =>
      simp only [step] at hstep
      split at hstep
      · cases hstep
        exact .endCall not_endsEarly_of_cause
      · cases hstep
  | get =>
      simp only [step] at hstep
      split at hstep
      next run polls notified rest hclient hqueue =>
        cases hstep
        have hwaits : state.client.waitsFor = run := by rw [hclient]; rfl
        have hrest : UpToDate { state with terminalStatusQueue := rest } := by
          refine ⟨huptodate.accepted, fun run hrun status hstatus => ?_, huptodate.cause⟩
          refine huptodate.queue run hrun status ?_
          rw [hqueue]
          exact List.mem_cons_of_mem _ hstatus
        refine .take hrest hwaits fun waited hwaited => ?_
        refine huptodate.queue waited (hwaits ▸ hwaited) notified ?_
        rw [hqueue]
        exact List.mem_cons_self
      · cases hstep
  | getNothing =>
      simp only [step] at hstep
      split at hstep
      next run polls hclient hqueue =>
        cases hstep
        exact .moveTo huptodate (by rw [hclient]; rfl) nofun
      · cases hstep
  | poll =>
      simp only [step] at hstep
      split at hstep
      next run polls hclient =>
        cases hstep
        refine .count huptodate (by rw [hclient]; rfl) fun waited hwaited => ?_
        cases hwaited
        simpa [timely, hclient] using htimely
      · cases hstep
  | pollFails failure =>
      simp only [step] at hstep
      split at hstep
      next run polls hclient hfailure =>
        cases hstep
        exact .moveTo huptodate (by rw [hclient]; rfl) nofun
      next run polls error hclient hfailure =>
        cases hstep
        exact .endCall not_endsEarly_of_cause
      · cases hstep
  | refresh reconciled =>
      simp only [step] at hstep
      split at hstep
      next run cause byPolls hclient =>
        have hcause (waited : Nat) (hwaited : waited ∈ run) :
            waited ≤ cause ∧ (byPolls → waited ≤ state.server.current.run) := by
          cases hwaited
          exact huptodate.cause waited cause byPolls hclient
        split at hstep
        next hbyPolls =>
          cases hstep
          exact .finish fun waited hwaited =>
            ⟨(hcause waited hwaited).1, (hcause waited hwaited).2 hbyPolls⟩
        next =>
          cases hstep
          exact .endCall (not_endsEarly_of_le fun waited hwaited => (hcause waited hwaited).1)
      · cases hstep
  | refreshFails =>
      simp only [step] at hstep
      split at hstep
      · cases hstep
        exact .endCall not_endsEarly_of_cause
      · cases hstep

/-- In a timely run no call ends because of what an earlier run has left. -/
theorem not_endsEarly_of_timely {status : ConversationExecutionStatus} {trace : List CallEnd}
    {state : RemoteRuns} (hruns : (system.restrict timely).Runs (connected status) trace state)
    {call : CallEnd} (hcall : call ∈ trace) : ¬EndsEarly call := by
  have hinvariant : UpToDate state ∧ ∀ call ∈ trace, ¬EndsEarly call := by
    refine hruns.invariant_restrict (fun trace state =>
      UpToDate state ∧ ∀ call ∈ trace, ¬EndsEarly call) ⟨.ofIdle rfl, nofun⟩ ?_
    intro trace state label next seen hbefore hallowed hnext
    obtain ⟨huptodate, hcalls⟩ := preserved_step hbefore.1 hallowed hnext
    refine ⟨huptodate, fun call hcall => ?_⟩
    rcases List.mem_append.mp hcall with hold | hnew
    · exact hbefore.2 call hold
    · exact hcalls call hnew
  exact hinvariant.2 call hcall

/-- A call whose run has gone on for a while before its notification comes. -/
theorem not_endsEarly_of_timely_finished :
    ¬EndsEarly ⟨some 1, some 1, .returned⟩ := by
  obtain ⟨state, hruns⟩ : ∃ state, (system.restrict timely).Runs (connected .error)
      [⟨some 1, some 1, .returned⟩] state :=
    Runs.exists_of_run [.call, .post true, .enterLoop, .getNothing, .poll, .setStatus .finished,
      .leaveLoop, .deliver, .deliver, .get, .refresh true] rfl
  exact not_endsEarly_of_timely hruns List.mem_cons_self

/-- The first run is over for the client after three polls. Its notification comes when the
second has been accepted, and ends that call before the server has begun. -/
theorem endsEarly_notified :
    ∃ trace state, system.Runs (connected .idle) trace state ∧ ∃ call ∈ trace, EndsEarly call := by
  obtain ⟨state, hruns⟩ : ∃ state, system.Runs (connected .idle)
      [⟨some 1, some 1, .returned⟩, ⟨some 2, some 1, .returned⟩] state :=
    Runs.exists_of_run [.call, .post true, .enterLoop, .setStatus .finished, .leaveLoop,
      .getNothing, .poll, .getNothing, .poll, .getNothing, .poll, .refresh true,
      .call, .post true, .deliver, .deliver, .get, .refresh true] rfl
  exact ⟨_, state, hruns, _, List.mem_cons_of_mem _ List.mem_cons_self,
    2, rfl, 1, rfl, Nat.one_lt_two⟩

end RemoteRuns

end ShuttleFlow
