import ShuttleFlow.AgentServer.BashExecution

/-! # A remote workspace waits for a command

The client asks the server again and again for the outputs it has not seen. The server
saves the outputs meanwhile.
-/

namespace ShuttleFlow

/-- The variables of the polling loop. -/
structure CommandPolling where
  stdoutParts : List (List Char) := []
  stderrParts : List (List Char) := []
  exitCode : Option Int := none
  lastOrder : Int := -1
  seenEventIds : List Nat := []
  deriving DecidableEq

structure CommandResult where
  exitCode : Int
  stdout : List Char
  stderr : List Char
  deriving DecidableEq

namespace CommandPolling

/-- The parameters of a search. -/
def query (polling : CommandPolling) (commandId : Nat) : BashEventQuery where
  kindEq := some .bashOutput
  commandIdEq := some commandId
  orderGt := if 0 ≤ polling.lastOrder then some polling.lastOrder else none
  limit := 100

def addPart (parts : List (List Char)) (text : Option (List Char)) : List (List Char) :=
  match text with
  | none | some [] => parts
  | some text => parts ++ [text]

/-- An event of a page. A second event of the same id is an error. -/
def processEvent (polling : CommandPolling) (event : BashEvent) : Option CommandPolling :=
  match event.output with
  | none => some polling
  | some output =>
      if event.id ∈ polling.seenEventIds then none
      else
        some
          { stdoutParts := addPart polling.stdoutParts output.stdout
            stderrParts := addPart polling.stderrParts output.stderr
            exitCode := output.exitCode.or polling.exitCode
            lastOrder :=
              if polling.lastOrder < output.order then output.order else polling.lastOrder
            seenEventIds := event.id :: polling.seenEventIds }

def processPage (polling : CommandPolling) : List BashEvent → Option CommandPolling
  | [] => some polling
  | event :: rest =>
      match polling.processEvent event with
      | none => none
      | some polling => polling.processPage rest

def result (polling : CommandPolling) (exitCode : Int) : CommandResult where
  exitCode := exitCode
  stdout := polling.stdoutParts.flatten
  stderr := polling.stderrParts.flatten

end CommandPolling

/-- How far a call of `execute_command` has come. -/
inductive CommandCall
  | polling (state : CommandPolling)
  /-- An exit code has been seen. -/
  | completed (result : CommandResult)
  | timedOut
  /-- A duplicate has been seen. -/
  | failed
  deriving DecidableEq

/-- The loop ends where an exit code has been seen. -/
def CommandPolling.next (polling : CommandPolling) : CommandCall :=
  match polling.exitCode with
  | none => .polling polling
  | some exitCode => .completed (polling.result exitCode)

/-- The events on disk, and a client that waits for one of the commands. -/
structure RemoteBash where
  commandId : Nat
  events : List BashEvent
  call : CommandCall
  deriving DecidableEq

inductive RemoteBashStep
  | save (event : BashEvent)
  | poll
  | timeout
  deriving DecidableEq

inductive RemoteBashEvent
  | saved (event : BashEvent)
  | processed (event : BashEvent)
  | polled
  deriving DecidableEq

namespace RemoteBash

def initial (commandId : Nat) : RemoteBash where
  commandId := commandId
  events := []
  call := .polling {}

/-- The outputs of the command, as they were saved. -/
def outputs (system : RemoteBash) : List BashEvent :=
  system.events.filter fun event => event.commandId = some system.commandId

/-- What may be saved: after the exit code no output of the command; outputs have the
next number, from `first` on, and do not go back in time. -/
def inTurn (system : RemoteBash) (first : Nat) (event : BashEvent) : Bool :=
  event.output.all fun output =>
    event.commandId ≠ some system.commandId ||
      (output.order = first + system.outputs.length &&
        system.outputs.all fun other =>
          other.timestamp ≤ event.timestamp &&
            other.output.all fun output => output.exitCode = none)

/-- One poll: a search, and the processing of its page. -/
def poll (system : RemoteBash) (polling : CommandPolling) : CommandCall × List BashEvent :=
  let page := BashEventService.searchBashEvents system.events (polling.query system.commandId)
  match polling.processPage page.items with
  | none => (.failed, [])
  | some polling => (polling.next, page.items)

def step (first : Nat) (system : RemoteBash) :
    RemoteBashStep → Option (RemoteBash × List RemoteBashEvent)
  | .save event =>
      if system.inTurn first event then
        some ({ system with events := BashEventService.saveEventToFile system.events event },
          [.saved event])
      else none
  | .poll =>
      match system.call with
      | .polling polling =>
          let result := system.poll polling
          some ({ system with call := result.1 }, result.2.map .processed ++ [.polled])
      | _ => none
  | .timeout =>
      match system.call with
      | .polling _ => some ({ system with call := .timedOut }, [])
      | _ => none

def transitions (first : Nat) : TransitionSystem RemoteBash RemoteBashStep RemoteBashEvent where
  step := step first

end RemoteBash

end ShuttleFlow
