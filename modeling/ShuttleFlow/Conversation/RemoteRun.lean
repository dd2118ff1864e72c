import Mathlib.Algebra.Order.Ring.Unbundled.Rat
import ShuttleFlow.Conversation.RunLoop

/-! # Waiting for a remote run

The client is told over the WebSocket that a run has ended, or finds it by asking the server.
Each pass of the loop waits for a notification first, and asks if there is none.
-/

namespace ShuttleFlow

/-- The agent is no longer processing. -/
def ConversationExecutionStatus.isTerminal : ConversationExecutionStatus → Bool
  | finished | error | stuck => true
  | idle | running | paused | waitingForConfirmation | deleting => false

inductive RequestFailure
  | httpStatus (code : Nat)
  | requestError
  | other
  deriving DecidableEq, Repr

/-- The status in a response. An empty one counts as missing. -/
inductive StatusField
  | missing
  | known (status : ConversationExecutionStatus)
  | unknown (text : String)
  deriving DecidableEq, Repr

/-- Why a run failed for the client. -/
inductive RunError
  | timedOut | failed | stuck | notFound
  | pollingFailed (code : Nat)
  | other
  deriving DecidableEq, Repr

inductive WaitEnding
  | returned
  /-- An error of the run. -/
  | raised (error : RunError)
  /-- An exception of another kind. -/
  | escaped
  deriving DecidableEq, Repr

/-- What a pass of the loop meets. -/
structure WaitTurn where
  /-- The time since the start of the loop. -/
  elapsed : ℚ
  /-- The statuses that were delivered over the WebSocket since the pass before. -/
  deliveries : List ConversationExecutionStatus := []
  poll : Except RequestFailure StatusField
  refresh : Except RequestFailure StatusField
  reconcile : Except RequestFailure Unit := .ok ()

structure WaitState where
  terminalStatusQueue : List ConversationExecutionStatus := []
  consecutiveTerminalPolls : Nat := 0

namespace RemoteConversation

def terminalPollThreshold : Nat := 3

/-- Only terminal statuses are queued. -/
def runCompleteCallback (queue deliveries : List ConversationExecutionStatus) :
    List ConversationExecutionStatus :=
  queue ++ deliveries.filter ConversationExecutionStatus.isTerminal

/-- Whether the run is complete; a failed run raises. -/
def handleConversationStatus : StatusField → Except RunError Bool
  | .known .running => .ok false
  | .known .error => .error .failed
  | .known .stuck => .error .stuck
  | .known _ | .missing | .unknown _ => .ok true

/-- Nothing is raised for what may succeed later. -/
def handlePollException : RequestFailure → Option RunError
  | .httpStatus code =>
      if code = 404 then some .notFound
      else if 400 ≤ code ∧ code < 500 ∧ code ≠ 429 then some (.pollingFailed code)
      else none
  | .requestError => none
  | .other => some .other

/-- The server notified the client. -/
def completeByNotification (turn : WaitTurn) (status : ConversationExecutionStatus) :
    WaitEnding :=
  match handleConversationStatus (.known status), turn.refresh with
  | .error error, _ => .raised error
  | .ok _, .error _ => .escaped
  | .ok _, .ok _ => .returned

/-- The server was asked often enough. -/
def completeByPolls (turn : WaitTurn) : WaitEnding :=
  match turn.refresh with
  | .error _ => .escaped
  | .ok final =>
      match handleConversationStatus final, turn.reconcile with
      | .error error, _ => .raised error
      | .ok _, .error _ => .escaped
      | .ok _, .ok _ => .returned

/-- A status that is not terminal starts the count anew. -/
def countPoll (turn : WaitTurn) (state : WaitState) : StatusField → Pass WaitEnding WaitState
  | .missing => .goOn { state with consecutiveTerminalPolls := 0 }
  | .unknown _ => .leave .escaped
  | .known status =>
      if status.isTerminal then
        if terminalPollThreshold ≤ state.consecutiveTerminalPolls + 1 then
          .leave (completeByPolls turn)
        else
          .goOn { state with consecutiveTerminalPolls := state.consecutiveTerminalPolls + 1 }
      else .goOn { state with consecutiveTerminalPolls := 0 }

def pollPass (turn : WaitTurn) (state : WaitState) : Pass WaitEnding WaitState :=
  match turn.poll with
  | .error failure =>
      match handlePollException failure with
      | some error => .leave (.raised error)
      | none => .goOn { state with consecutiveTerminalPolls := 0 }
  | .ok status =>
      match handleConversationStatus status with
      | .error error => .leave (.raised error)
      | .ok _ => countPoll turn state status

def waitPass (timeout : ℚ) (turns : Nat → WaitTurn) (turn : Nat) (state : WaitState) :
    Pass WaitEnding WaitState :=
  if timeout < (turns turn).elapsed then .leave (.raised .timedOut)
  else
    match runCompleteCallback state.terminalStatusQueue (turns turn).deliveries with
    | status :: _ => .leave (completeByNotification (turns turn) status)
    | [] => pollPass (turns turn) { state with terminalStatusQueue := [] }

def waitForRunCompletion (timeout : ℚ) (turns : Nat → WaitTurn) (fuel : Nat) :
    Option WaitEnding :=
  runPasses (waitPass timeout turns) fuel 0 {}

/-! ## When the wait mirrors the run -/

/-- The wait ends as the run did. -/
def Mirrors : ConversationExecutionStatus → WaitEnding → Prop
  | .finished, ending | .paused, ending | .waitingForConfirmation, ending => ending = .returned
  | .error, ending | .stuck, ending => ∃ error, ending = .raised error ∧ error ≠ .timedOut
  | .idle, _ | .running, _ | .deleting, _ => False

/-- The first terminal status that is delivered in some passes. -/
def firstNotification (turns : Nat → WaitTurn) : Nat → Nat → Option ConversationExecutionStatus
  | _, 0 => none
  | turn, count + 1 =>
      ((turns turn).deliveries.find? ConversationExecutionStatus.isTerminal).or
        (firstNotification turns (turn + 1) count)

/-- Every request is answered, with one status. -/
structure Settled (status : ConversationExecutionStatus) (turn : WaitTurn) : Prop where
  poll : turn.poll = .ok (.known status)
  refresh : turn.refresh = .ok (.known status)
  reconcile : turn.reconcile = .ok ()

/-- How many polls in a row have just reported that the run finished. -/
def finishedPolls (turns : Nat → WaitTurn) : Nat → Nat
  | 0 => 0
  | turn + 1 =>
      if (turns turn).poll = .ok (.known .finished) then finishedPolls turns turn + 1 else 0

/-- What the WebSocket has to deliver from a pass on. A run that failed is not reported as
finished at once; one that finished is not reported as failed before the server has been
asked three times in a row; and in time, one that is paused or waiting is reported as
finished. -/
def Announced (timeout : ℚ) (turns : Nat → WaitTurn) (turn : Nat) :
    ConversationExecutionStatus → Prop
  | .error | .stuck => firstNotification turns turn 1 ≠ some .finished
  | .finished =>
      firstNotification turns turn (terminalPollThreshold - finishedPolls turns turn) ∈
        [none, some .finished]
  | .idle | .running | .paused | .waitingForConfirmation | .deleting =>
      ∃ count, (∀ offset < count, (turns (turn + offset)).elapsed ≤ timeout) ∧
        firstNotification turns turn count = some .finished

/-- The outcome that a status stands for. -/
def endingOf : ConversationExecutionStatus → WaitEnding
  | .error => .raised .failed
  | .stuck => .raised .stuck
  | .idle | .running | .paused | .waitingForConfirmation | .finished | .deleting => .returned

variable {timeout : ℚ} {turns : Nat → WaitTurn} {turn : Nat} {state : WaitState}
  {status : ConversationExecutionStatus}

/-! ## One pass -/

theorem runCompleteCallback_head? (deliveries : List ConversationExecutionStatus) :
    (runCompleteCallback [] deliveries).head? =
      deliveries.find? ConversationExecutionStatus.isTerminal := by
  rw [runCompleteCallback, List.nil_append, List.head?_filter]

theorem waitPass_of_notified (hqueue : state.terminalStatusQueue = [])
    (hintime : (turns turn).elapsed ≤ timeout)
    (hfound : (turns turn).deliveries.find? ConversationExecutionStatus.isTerminal =
      some status) :
    waitPass timeout turns turn state = .leave (completeByNotification (turns turn) status) := by
  rw [← runCompleteCallback_head?] at hfound
  rw [waitPass, if_neg (not_lt.mpr hintime), hqueue]
  cases hwaiting : runCompleteCallback [] (turns turn).deliveries with
  | nil =>
      rw [hwaiting] at hfound
      cases hfound
  | cons first rest =>
      rw [hwaiting, List.head?_cons, Option.some.injEq] at hfound
      rw [hfound]

theorem waitPass_of_quiet (hqueue : state.terminalStatusQueue = [])
    (hintime : (turns turn).elapsed ≤ timeout)
    (hquiet : (turns turn).deliveries.find? ConversationExecutionStatus.isTerminal = none) :
    waitPass timeout turns turn state = pollPass (turns turn) state := by
  rw [← runCompleteCallback_head?, List.head?_eq_none_iff] at hquiet
  obtain ⟨queue, polls⟩ := state
  cases hqueue
  rw [waitPass, if_neg (not_lt.mpr hintime), hquiet]

theorem completeByNotification_of_settled (hsettled : Settled status (turns turn))
    (notified : ConversationExecutionStatus) :
    completeByNotification (turns turn) notified = endingOf notified := by
  unfold completeByNotification
  rw [hsettled.refresh]
  cases notified <;> rfl

/-- While the loop goes on, nothing waits in the queue and the polls are counted. -/
structure Between (turns : Nat → WaitTurn) (turn : Nat) (state : WaitState) : Prop where
  queue : state.terminalStatusQueue = []
  count : state.consecutiveTerminalPolls = finishedPolls turns turn
  below : state.consecutiveTerminalPolls < terminalPollThreshold

theorem between_reset (hpoll : (turns turn).poll ≠ .ok (.known .finished))
    (hbetween : Between turns turn state) :
    Between turns (turn + 1) { state with consecutiveTerminalPolls := 0 } :=
  ⟨hbetween.queue, by rw [finishedPolls, if_neg hpoll], Nat.zero_lt_succ 2⟩

theorem pollPass_goOn {next : WaitState} (hbetween : Between turns turn state)
    (hpass : pollPass (turns turn) state = .goOn next) : Between turns (turn + 1) next := by
  unfold pollPass at hpass
  cases hpoll : (turns turn).poll with
  | error failure =>
      simp only [hpoll] at hpass
      split at hpass
      · cases hpass
      · cases hpass
        exact between_reset (by simp [hpoll]) hbetween
  | ok field =>
      simp only [hpoll] at hpass
      cases field with
      | missing =>
          cases hpass
          exact between_reset (by simp [hpoll]) hbetween
      | unknown text => cases hpass
      | known polled =>
          cases polled with
          | finished =>
              simp only [handleConversationStatus, countPoll,
                ConversationExecutionStatus.isTerminal, if_true] at hpass
              split at hpass
              · cases hpass
              · next hbelow =>
                cases hpass
                exact ⟨hbetween.queue, by simp [finishedPolls, hpoll, hbetween.count],
                  not_le.mp hbelow⟩
          | error | stuck => cases hpass
          | idle | running | paused | waitingForConfirmation | deleting =>
              cases hpass
              exact between_reset (by simp [hpoll]) hbetween

theorem waitPass_goOn {next : WaitState} (hbetween : Between turns turn state)
    (hpass : waitPass timeout turns turn state = .goOn next) :
    Between turns (turn + 1) next := by
  by_cases hintime : (turns turn).elapsed ≤ timeout
  · cases hfound : (turns turn).deliveries.find? ConversationExecutionStatus.isTerminal with
    | none =>
        rw [waitPass_of_quiet hbetween.queue hintime hfound] at hpass
        exact pollPass_goOn hbetween hpass
    | some notified =>
        rw [waitPass_of_notified hbetween.queue hintime hfound] at hpass
        cases hpass
  · rw [waitPass, if_pos (not_le.mp hintime)] at hpass
    cases hpass

theorem between_afterPasses {count : Nat} {next : WaitState} (hbetween : Between turns turn state)
    (hafter : afterPasses (waitPass timeout turns) count turn state = some next) :
    Between turns (turn + count) next := by
  induction count generalizing turn state with
  | zero =>
      cases hafter
      exact hbetween
  | succ count ih =>
      cases hpass : waitPass timeout turns turn state with
      | leave ending =>
          simp only [afterPasses, hpass] at hafter
          cases hafter
      | goOn middle =>
          simp only [afterPasses, hpass] at hafter
          rw [← Nat.succ_add_eq_add_succ]
          exact ih (waitPass_goOn hbetween hpass) hafter

/-! ## Passes whose requests are settled -/

theorem firstNotification_succ (count : Nat) :
    firstNotification turns turn (count + 1) =
      ((turns turn).deliveries.find? ConversationExecutionStatus.isTerminal).or
        (firstNotification turns (turn + 1) count) := rfl

theorem runPasses_of_notified {notified : ConversationExecutionStatus} {count : Nat}
    (hqueue : state.terminalStatusQueue = []) (hintime : (turns turn).elapsed ≤ timeout)
    (hfound : (turns turn).deliveries.find? ConversationExecutionStatus.isTerminal =
      some notified)
    (hsettled : Settled status (turns turn)) :
    runPasses (waitPass timeout turns) (count + 1) turn state = some (endingOf notified) := by
  rw [runPasses, waitPass_of_notified hqueue hintime hfound]
  exact congrArg some (completeByNotification_of_settled hsettled notified)

/-- The server still says that the run failed. -/
theorem runPasses_of_failed (hstatus : status = .error ∨ status = .stuck)
    (hqueue : state.terminalStatusQueue = []) (hintime : (turns turn).elapsed ≤ timeout)
    (hsettled : Settled status (turns turn)) :
    runPasses (waitPass timeout turns) 1 turn state =
      some (endingOf ((firstNotification turns turn 1).getD status)) := by
  rw [firstNotification_succ, firstNotification, Option.or_none]
  cases hfound : (turns turn).deliveries.find? ConversationExecutionStatus.isTerminal with
  | some notified => exact runPasses_of_notified hqueue hintime hfound hsettled
  | none =>
      rw [runPasses, waitPass_of_quiet hqueue hintime hfound, pollPass, hsettled.poll]
      rcases hstatus with rfl | rfl <;> rfl

/-- Another poll is missing. -/
theorem waitPass_of_finished (hqueue : state.terminalStatusQueue = [])
    (hmore : state.consecutiveTerminalPolls + 1 < terminalPollThreshold)
    (hintime : (turns turn).elapsed ≤ timeout)
    (hquiet : (turns turn).deliveries.find? ConversationExecutionStatus.isTerminal = none)
    (hsettled : Settled .finished (turns turn)) :
    waitPass timeout turns turn state =
      .goOn { state with consecutiveTerminalPolls := state.consecutiveTerminalPolls + 1 } := by
  rw [waitPass_of_quiet hqueue hintime hquiet, pollPass, hsettled.poll]
  simp only [handleConversationStatus, countPoll, ConversationExecutionStatus.isTerminal,
    if_true, if_neg (not_le.mpr hmore)]

theorem waitPass_of_lastPoll (hqueue : state.terminalStatusQueue = [])
    (hlast : terminalPollThreshold ≤ state.consecutiveTerminalPolls + 1)
    (hintime : (turns turn).elapsed ≤ timeout)
    (hquiet : (turns turn).deliveries.find? ConversationExecutionStatus.isTerminal = none)
    (hsettled : Settled .finished (turns turn)) :
    waitPass timeout turns turn state = .leave .returned := by
  rw [waitPass_of_quiet hqueue hintime hquiet, pollPass, hsettled.poll]
  simp only [handleConversationStatus, countPoll, ConversationExecutionStatus.isTerminal,
    if_true, if_pos hlast]
  rw [completeByPolls, hsettled.refresh, hsettled.reconcile]
  rfl

/-- The polls that are missing are made, unless a notification comes first. -/
theorem runPasses_of_finished {count : Nat} (hqueue : state.terminalStatusQueue = [])
    (hcount : state.consecutiveTerminalPolls + (count + 1) = terminalPollThreshold)
    (hintime : ∀ offset ≤ count, (turns (turn + offset)).elapsed ≤ timeout)
    (hsettled : ∀ later ≥ turn, Settled .finished (turns later)) :
    runPasses (waitPass timeout turns) (count + 1) turn state =
      some (endingOf ((firstNotification turns turn (count + 1)).getD .finished)) := by
  induction count generalizing turn state with
  | zero =>
      have hnow : (turns turn).elapsed ≤ timeout := hintime 0 le_rfl
      rw [firstNotification_succ]
      cases hfound : (turns turn).deliveries.find? ConversationExecutionStatus.isTerminal with
      | some notified => exact runPasses_of_notified hqueue hnow hfound (hsettled turn le_rfl)
      | none =>
          rw [runPasses, waitPass_of_lastPoll hqueue hcount.ge hnow hfound
            (hsettled turn le_rfl)]
          rfl
  | succ count ih =>
      have hnow : (turns turn).elapsed ≤ timeout := hintime 0 (Nat.zero_le _)
      rw [firstNotification_succ]
      cases hfound : (turns turn).deliveries.find? ConversationExecutionStatus.isTerminal with
      | some notified => exact runPasses_of_notified hqueue hnow hfound (hsettled turn le_rfl)
      | none =>
          rw [runPasses, waitPass_of_finished hqueue (by omega) hnow hfound
            (hsettled turn le_rfl), Option.none_or]
          refine ih hqueue ?_ ?_ fun later hlater => hsettled later (Nat.le_of_succ_le hlater)
          · rw [← hcount, Nat.add_assoc, Nat.add_comm 1]
          · intro offset hoffset
            rw [Nat.succ_add_eq_add_succ]
            exact hintime _ (Nat.succ_le_succ hoffset)

/-- Nothing that a poll reports of a run that is paused or waiting ends the loop. -/
theorem waitPass_of_paused (hstatus : status = .paused ∨ status = .waitingForConfirmation)
    (hqueue : state.terminalStatusQueue = []) (hintime : (turns turn).elapsed ≤ timeout)
    (hquiet : (turns turn).deliveries.find? ConversationExecutionStatus.isTerminal = none)
    (hsettled : Settled status (turns turn)) :
    waitPass timeout turns turn state =
      .goOn { state with consecutiveTerminalPolls := 0 } := by
  rw [waitPass_of_quiet hqueue hintime hquiet, pollPass, hsettled.poll]
  rcases hstatus with rfl | rfl <;> rfl

theorem runPasses_of_paused {count : Nat}
    (hstatus : status = .paused ∨ status = .waitingForConfirmation)
    (hqueue : state.terminalStatusQueue = [])
    (hintime : ∀ offset < count, (turns (turn + offset)).elapsed ≤ timeout)
    (hsettled : ∀ later ≥ turn, Settled status (turns later)) :
    runPasses (waitPass timeout turns) count turn state =
      (firstNotification turns turn count).map endingOf := by
  induction count generalizing turn state with
  | zero => rfl
  | succ count ih =>
      have hnow : (turns turn).elapsed ≤ timeout := hintime 0 (Nat.zero_lt_succ _)
      rw [firstNotification_succ]
      cases hfound : (turns turn).deliveries.find? ConversationExecutionStatus.isTerminal with
      | some notified => exact runPasses_of_notified hqueue hnow hfound (hsettled turn le_rfl)
      | none =>
          rw [runPasses, waitPass_of_paused hstatus hqueue hnow hfound (hsettled turn le_rfl),
            Option.none_or]
          refine ih hqueue ?_ fun later hlater => hsettled later (Nat.le_of_succ_le hlater)
          intro offset hoffset
          rw [Nat.succ_add_eq_add_succ]
          exact hintime _ (Nat.succ_lt_succ hoffset)

/-- It is only in time that the loop is left without an error. -/
theorem intime_of_returned {fuel : Nat}
    (hstatus : status = .paused ∨ status = .waitingForConfirmation)
    (hqueue : state.terminalStatusQueue = [])
    (hsettled : ∀ later ≥ turn, Settled status (turns later))
    (hloop : runPasses (waitPass timeout turns) fuel turn state = some .returned) :
    ∃ count, (∀ offset < count, (turns (turn + offset)).elapsed ≤ timeout) ∧
      runPasses (waitPass timeout turns) count turn state = some .returned := by
  induction fuel generalizing turn state with
  | zero => cases hloop
  | succ fuel ih =>
      by_cases hnow : (turns turn).elapsed ≤ timeout
      · cases hfound : (turns turn).deliveries.find? ConversationExecutionStatus.isTerminal with
        | some notified =>
            rw [runPasses_of_notified hqueue hnow hfound (hsettled turn le_rfl)] at hloop
            refine ⟨1, ?_, ?_⟩
            · intro offset hoffset
              rwa [Nat.lt_one_iff.mp hoffset]
            · rwa [runPasses_of_notified hqueue hnow hfound (hsettled turn le_rfl)]
        | none =>
            have hpass :=
              waitPass_of_paused hstatus hqueue hnow hfound (hsettled turn le_rfl)
            have hreset : ({ state with consecutiveTerminalPolls := 0 } :
                WaitState).terminalStatusQueue = [] := hqueue
            simp only [runPasses, hpass] at hloop
            obtain ⟨count, hintime, hcount⟩ := ih hreset
              (fun later hlater => hsettled later (Nat.le_of_succ_le hlater)) hloop
            refine ⟨count + 1, ?_, by simpa only [runPasses, hpass] using hcount⟩
            intro offset hoffset
            cases offset with
            | zero => exact hnow
            | succ offset =>
                rw [← Nat.succ_add_eq_add_succ]
                exact hintime offset (Nat.lt_of_succ_lt_succ hoffset)
      · rw [runPasses, waitPass, if_pos (not_le.mp hnow)] at hloop
        cases hloop

/-! ## The run and the wait -/

theorem waitForRunCompletion_of_afterPasses {waiting : WaitState} {fuel : Nat}
    {ending : WaitEnding} (hafter : afterPasses (waitPass timeout turns) turn 0 {} = some waiting)
    (hloop : runPasses (waitPass timeout turns) fuel turn waiting = some ending) :
    waitForRunCompletion timeout turns (turn + fuel) = some ending := by
  rw [waitForRunCompletion, runPasses_afterPasses hafter, Nat.zero_add, hloop]

/-- The loop has one ending. -/
theorem mirrors_iff_of_ending {fuel : Nat} {ending : WaitEnding}
    (hloop : waitForRunCompletion timeout turns fuel = some ending) :
    (∃ fuel ending, waitForRunCompletion timeout turns fuel = some ending ∧
      Mirrors status ending) ↔ Mirrors status ending := by
  constructor
  · rintro ⟨other, last, hlast, hmirrors⟩
    rwa [runPasses_unique hloop hlast]
  · exact fun hmirrors => ⟨fuel, ending, hloop, hmirrors⟩

theorem isTerminal_of_firstNotification {count : Nat} {notified : ConversationExecutionStatus}
    (hfirst : firstNotification turns turn count = some notified) :
    notified.isTerminal = true := by
  induction count generalizing turn with
  | zero => cases hfirst
  | succ count ih =>
      rw [firstNotification_succ, Option.or_eq_some_iff] at hfirst
      rcases hfirst with hfound | ⟨-, hlater⟩
      · exact List.find?_some hfound
      · exact ih hlater

theorem mirrors_endingOf_failed {notified : Option ConversationExecutionStatus}
    (hstatus : status = .error ∨ status = .stuck)
    (hterminal : ∀ first ∈ notified, first.isTerminal = true) :
    Mirrors status (endingOf (notified.getD status)) ↔ notified ≠ some .finished := by
  rcases hstatus with rfl | rfl <;> cases notified with
  | none => simp [Mirrors, endingOf]
  | some first =>
      have hfirst := hterminal first rfl
      cases first <;> simp_all [Mirrors, endingOf, ConversationExecutionStatus.isTerminal]

theorem mirrors_endingOf_finished {notified : Option ConversationExecutionStatus}
    (hterminal : ∀ first ∈ notified, first.isTerminal = true) :
    Mirrors .finished (endingOf (notified.getD .finished)) ↔
      notified ∈ [none, some .finished] := by
  cases notified with
  | none => simp [Mirrors, endingOf]
  | some first =>
      have hfirst := hterminal first rfl
      cases first <;> simp_all [Mirrors, endingOf, ConversationExecutionStatus.isTerminal]

theorem map_endingOf_eq_returned {notified : Option ConversationExecutionStatus}
    (hterminal : ∀ first ∈ notified, first.isTerminal = true) :
    notified.map endingOf = some .returned ↔ notified = some .finished := by
  cases notified with
  | none => simp
  | some first =>
      have hfirst := hterminal first rfl
      cases first <;> simp_all [endingOf, ConversationExecutionStatus.isTerminal]

/-- The wait of a client for a run that has ended ends as the run did, if and only if the
WebSocket delivers what it has to. -/
theorem mirrors_iff_announced {timeout : ℚ} {turns : Nat → WaitTurn} {turn : Nat}
    {waiting : WaitState} {status : ConversationExecutionStatus}
    (hleaves : status ∈ LocalConversation.leavesWith)
    (hwaiting : afterPasses (waitPass timeout turns) turn 0 {} = some waiting)
    (hsettled : ∀ later ≥ turn, Settled status (turns later))
    (hintime : ∀ offset < terminalPollThreshold, (turns (turn + offset)).elapsed ≤ timeout) :
    (∃ fuel ending, waitForRunCompletion timeout turns fuel = some ending ∧
      Mirrors status ending) ↔ Announced timeout turns turn status := by
  have hbetween : Between turns turn waiting := by
    have hstart : Between turns 0 {} := ⟨rfl, rfl, Nat.zero_lt_succ 2⟩
    simpa only [Nat.zero_add] using between_afterPasses hstart hwaiting
  have hnow : (turns turn).elapsed ≤ timeout := hintime 0 (Nat.zero_lt_succ 2)
  have hterminal : ∀ count, ∀ first ∈ firstNotification turns turn count,
      first.isTerminal = true := fun _ _ hfirst => isTerminal_of_firstNotification hfirst
  have hfailed (hstatus : status = .error ∨ status = .stuck) :
      (∃ fuel ending, waitForRunCompletion timeout turns fuel = some ending ∧
        Mirrors status ending) ↔ firstNotification turns turn 1 ≠ some .finished := by
    have hloop := waitForRunCompletion_of_afterPasses hwaiting
      (runPasses_of_failed hstatus hbetween.queue hnow (hsettled turn le_rfl))
    rw [mirrors_iff_of_ending hloop, mirrors_endingOf_failed hstatus (hterminal 1)]
  have hpaused (hstatus : status = .paused ∨ status = .waitingForConfirmation) :
      (∃ fuel, waitForRunCompletion timeout turns fuel = some .returned) ↔
        ∃ count, (∀ offset < count, (turns (turn + offset)).elapsed ≤ timeout) ∧
          firstNotification turns turn count = some .finished := by
    constructor
    · rintro ⟨fuel, hloop⟩
      have hlong := runPasses_add hloop turn
      rw [Nat.add_comm, runPasses_afterPasses hwaiting, Nat.zero_add] at hlong
      obtain ⟨count, hcount, hreturned⟩ :=
        intime_of_returned hstatus hbetween.queue hsettled hlong
      rw [runPasses_of_paused hstatus hbetween.queue hcount hsettled,
        map_endingOf_eq_returned (hterminal count)] at hreturned
      exact ⟨count, hcount, hreturned⟩
    · rintro ⟨count, hcount, hfirst⟩
      refine ⟨turn + count, waitForRunCompletion_of_afterPasses hwaiting ?_⟩
      rw [runPasses_of_paused hstatus hbetween.queue hcount hsettled, hfirst]
      rfl
  cases status with
  | error => exact hfailed (.inl rfl)
  | stuck => exact hfailed (.inr rfl)
  | finished =>
      obtain ⟨missing, hmissing⟩ : ∃ missing,
          waiting.consecutiveTerminalPolls + (missing + 1) = terminalPollThreshold :=
        Nat.exists_eq_add_of_lt hbetween.below |>.imp fun _ h => h.symm
      have hloop := waitForRunCompletion_of_afterPasses hwaiting
        (runPasses_of_finished hbetween.queue hmissing
          (fun offset hoffset => hintime offset (by omega)) hsettled)
      have hwindow : terminalPollThreshold - finishedPolls turns turn = missing + 1 := by
        rw [← hbetween.count]
        omega
      rw [mirrors_iff_of_ending hloop, mirrors_endingOf_finished (hterminal _), Announced,
        hwindow]
  | paused => simpa only [Mirrors, Announced, exists_eq_right] using hpaused (.inl rfl)
  | waitingForConfirmation =>
      simpa only [Mirrors, Announced, exists_eq_right] using hpaused (.inr rfl)
  | idle | running | deleting => exact absurd hleaves (by decide)

/-- The server is not available at first; then it reports the run as finished. -/
def finishedTurns (turn : Nat) : WaitTurn where
  elapsed := turn
  poll := if turn = 0 then .error (.httpStatus 503) else .ok (.known .finished)
  refresh := .ok (.known .finished)

theorem settled_finishedTurns (turn : Nat) : Settled .finished (finishedTurns (turn + 1)) :=
  ⟨rfl, rfl, rfl⟩

theorem mirrors_iff_announced_finished :
    (∃ fuel ending, waitForRunCompletion 60 finishedTurns fuel = some ending ∧
      Mirrors .finished ending) ↔ Announced 60 finishedTurns 1 .finished := by
  refine mirrors_iff_announced (by decide) rfl ?_ ?_
  · intro later hlater
    obtain ⟨turn, rfl⟩ := Nat.exists_eq_add_of_le' hlater
    exact settled_finishedTurns turn
  · intro offset hoffset
    have hle : 1 + offset ≤ 60 := by
      have : offset < 3 := hoffset
      omega
    show ((1 + offset : ℕ) : ℚ) ≤ 60
    exact_mod_cast hle

/-- The server reports that the run waits for a confirmation. -/
def waitingTurns (turn : Nat) : WaitTurn where
  elapsed := turn
  poll := .ok (.known .waitingForConfirmation)
  refresh := .ok (.known .waitingForConfirmation)

theorem firstNotification_waitingTurns (turn count : Nat) :
    firstNotification waitingTurns turn count = none := by
  induction count generalizing turn with
  | zero => rfl
  | succ count ih => exact ih (turn + 1)

/-- A client whose run waits for a confirmation does not return before its timeout. -/
theorem not_mirrors_waiting :
    ¬ ∃ fuel ending, waitForRunCompletion 3600 waitingTurns fuel = some ending ∧
      Mirrors .waitingForConfirmation ending := by
  rintro ⟨fuel, ending, hloop, rfl⟩
  obtain ⟨count, hintime, hreturned⟩ := intime_of_returned
    (.inr rfl : ConversationExecutionStatus.waitingForConfirmation = .paused ∨ _) rfl
    (fun later _ => ⟨rfl, rfl, rfl⟩) hloop
  rw [runPasses_of_paused (.inr rfl) rfl hintime fun later _ => ⟨rfl, rfl, rfl⟩,
    firstNotification_waitingTurns] at hreturned
  cases hreturned

end RemoteConversation

end ShuttleFlow
