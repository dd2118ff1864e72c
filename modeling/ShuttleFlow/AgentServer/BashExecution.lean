import Mathlib.Data.List.Basic
import ShuttleFlow.Library.Transitions
import Mathlib.Data.List.Lex
import Mathlib.Data.List.Sort

/-! # The execution of one bash command

Two coroutines read what the process writes. A coroutine runs undisturbed from one
of its await points to the next: until there is more to read, or until the
subscribers have been told of an event.
-/

namespace ShuttleFlow

/-- The largest text of one `BashOutput`. -/
def maxContentCharLength : Nat := 1024 * 1024

/-- Texts are lists of characters. -/
structure BashOutput where
  order : Nat
  exitCode : Option Int
  stdout : Option (List Char)
  stderr : Option (List Char)
  deriving DecidableEq

/-- What a coroutine awaits. -/
inductive ReaderPhase
  | reading
  | publishing
  | finished
  deriving DecidableEq

structure StreamReader where
  /-- What the stream still gives, read by read. -/
  chunks : List (List Char)
  /-- The variable `buffer` of the coroutine. -/
  buffer : List Char
  /-- `stdout_buffer` or `stderr_buffer`. -/
  sharedBuffer : List Char
  phase : ReaderPhase
  deriving DecidableEq

inductive ExecutionStage
  | running
  | killed
  | completed
  deriving DecidableEq

structure BashExecution where
  outputOrder : Nat
  stdout : StreamReader
  stderr : StreamReader
  stage : ExecutionStage
  deriving DecidableEq

inductive ExecutionStep
  /-- What a coroutine awaits has happened. -/
  | resume (isStderr : Bool)
  /-- Both coroutines and the process have ended. -/
  | exit (exitCode : Int)
  /-- The time is over, and the coroutines are cancelled. -/
  | timeout
  /-- The process has been killed. -/
  | giveUp
  deriving DecidableEq

namespace StreamReader

def initial (chunks : List (List Char)) : StreamReader where
  chunks := chunks
  buffer := []
  sharedBuffer := []
  phase := .reading

def publishes (reader : StreamReader) : Bool :=
  reader.phase = .publishing

/-- One round of `while len(buffer) > MAX_CONTENT_CHAR_LENGTH`, until its `await`. -/
def splitOff (reader : StreamReader) (isStderr : Bool) (outputOrder : Nat) :
    StreamReader × List BashOutput :=
  if maxContentCharLength < reader.buffer.length then
    let chunk := reader.buffer.take maxContentCharLength
    ({ reader with buffer := reader.buffer.drop maxContentCharLength, phase := .publishing },
      [{ order := outputOrder
         exitCode := none
         stdout := if isStderr then none else some chunk
         stderr := if isStderr then some chunk else none }])
  else ({ reader with phase := .reading }, [])

/-- A coroutine from one await point to the next, with the value of `output_order`. -/
def resume (reader : StreamReader) (isStderr : Bool) (outputOrder : Nat) :
    Option (StreamReader × Nat × List BashOutput) :=
  match reader.phase with
  | .reading =>
      match reader.chunks with
      -- The stream has ended.
      | [] | [] :: _ => some ({ reader with phase := .finished }, outputOrder, [])
      | (first :: text) :: rest =>
          let buffer := reader.buffer ++ first :: text
          let next := { reader with chunks := rest, buffer := buffer, sharedBuffer := buffer }
          let result := next.splitOff isStderr outputOrder
          some (result.1, outputOrder, result.2)
  | .publishing =>
      let next := { reader with sharedBuffer := reader.buffer }
      let result := next.splitOff isStderr (outputOrder + 1)
      some (result.1, outputOrder + 1, result.2)
  | .finished => none

end StreamReader

namespace BashExecution

def initial (stdoutChunks stderrChunks : List (List Char)) : BashExecution where
  outputOrder := 0
  stdout := .initial stdoutChunks
  stderr := .initial stderrChunks
  stage := .running

def reader (execution : BashExecution) (isStderr : Bool) : StreamReader :=
  if isStderr then execution.stderr else execution.stdout

def setReader (execution : BashExecution) (isStderr : Bool) (reader : StreamReader) :
    BashExecution :=
  if isStderr then { execution with stderr := reader } else { execution with stdout := reader }

/-- The last event, with what is left in the buffers. -/
def finalOutput (execution : BashExecution) (exitCode : Int) : BashOutput where
  order := execution.outputOrder
  exitCode := some exitCode
  stdout := if execution.stdout.sharedBuffer = [] then none else some execution.stdout.sharedBuffer
  stderr := if execution.stderr.sharedBuffer = [] then none else some execution.stderr.sharedBuffer

/-- One step, with the events that it saves. -/
def step (execution : BashExecution) : ExecutionStep → Option (BashExecution × List BashOutput)
  | .resume isStderr =>
      if execution.stage = .running then
        ((execution.reader isStderr).resume isStderr execution.outputOrder).map fun result =>
          ({ execution.setReader isStderr result.1 with outputOrder := result.2.1 }, result.2.2)
      else none
  | .exit exitCode =>
      if execution.stage = .running ∧ execution.stdout.phase = .finished ∧
          execution.stderr.phase = .finished then
        some ({ execution with stage := .completed }, [execution.finalOutput exitCode])
      else none
  | .timeout =>
      if execution.stage = .running then
        some ({ execution with
          stdout := { execution.stdout with phase := .finished }
          stderr := { execution.stderr with phase := .finished }
          stage := .killed }, [])
      else none
  | .giveUp =>
      if execution.stage = .killed then
        some ({ execution with stage := .completed }, [execution.finalOutput (-1)])
      else none

def transitions : TransitionSystem BashExecution ExecutionStep BashOutput where
  step := step

end BashExecution

/-- The saved events of one command are numbered from zero as they are created, and the
one with the exit code has the largest number. -/
structure Numbered (outputs : List BashOutput) : Prop where
  consecutive : outputs.map BashOutput.order = List.range outputs.length
  final : ∀ output ∈ outputs, output.exitCode ≠ none →
    ∀ other ∈ outputs, other.order ≤ output.order

end ShuttleFlow

/-! ## Bash events on disk

Each event is a file of its own. The name of a file has parts of fixed width, so that
the order of the names is the lexicographic order of the parts as numbers.
-/

namespace ShuttleFlow

inductive BashEventKind
  | bashCommand
  | bashOutput
  deriving DecidableEq

inductive BashEventBody
  | bashCommand
  | bashOutput (commandId : Nat) (output : BashOutput)
  deriving DecidableEq

structure BashEvent where
  /-- `%Y%m%d%H%M%S`, read as a number. -/
  timestamp : Nat
  id : Nat
  body : BashEventBody
  deriving DecidableEq

namespace BashEvent

def kind (event : BashEvent) : BashEventKind :=
  match event.body with
  | .bashCommand => .bashCommand
  | .bashOutput _ _ => .bashOutput

/-- `getattr(event, "command_id", None)`. -/
def commandId (event : BashEvent) : Option Nat :=
  match event.body with
  | .bashCommand => none
  | .bashOutput commandId _ => some commandId

def output (event : BashEvent) : Option BashOutput :=
  match event.body with
  | .bashCommand => none
  | .bashOutput _ output => some output

/-- `getattr(event, "order", None)`. -/
def order (event : BashEvent) : Option Nat :=
  event.output.map BashOutput.order

/-- `_get_event_filename`. The kinds are in alphabetical order. -/
def filename (event : BashEvent) : List Nat :=
  match event.body with
  | .bashCommand => [event.timestamp, 0, event.id]
  | .bashOutput commandId _ => [event.timestamp, 1, commandId, event.id]

end BashEvent

structure BashEventQuery where
  kindEq : Option BashEventKind := none
  commandIdEq : Option Nat := none
  timestampGte : Option Nat := none
  timestampLt : Option Nat := none
  orderGt : Option Int := none
  descending : Bool := false
  pageId : Option (List Nat) := none
  limit : Nat := 100

structure BashEventPage where
  items : List BashEvent
  nextPageId : Option (List Nat)
  deriving DecidableEq

namespace BashEventQuery

/-- The pattern for the names of the files. -/
def fits (query : BashEventQuery) (event : BashEvent) : Bool :=
  (query.kindEq.all fun kind => event.kind = kind) &&
    query.commandIdEq.all fun commandId => event.commandId = some commandId

/-- The filters by time compare names with timestamps. -/
def inTime (query : BashEventQuery) (event : BashEvent) : Bool :=
  (query.timestampGte.all fun timestamp => [timestamp] ≤ event.filename) &&
    query.timestampLt.all fun timestamp => event.filename < [timestamp]

def inOrder (query : BashEventQuery) (event : BashEvent) : Bool :=
  query.orderGt.all fun bound => event.order.all fun order => ¬ ((order : Int) ≤ bound)

end BashEventQuery

namespace BashEventService

/-- `_save_event_to_file`. A file of the same name is overwritten. -/
def saveEventToFile (events : List BashEvent) (event : BashEvent) : List BashEvent :=
  events.filter (fun other => other.filename ≠ event.filename) ++ [event]

/-- The files that match, sorted by name. -/
def sortedFiles (events : List BashEvent) (query : BashEventQuery) : List BashEvent :=
  let files := (events.filter query.fits).insertionSort fun event other =>
    if query.descending then other.filename ≤ event.filename else event.filename ≤ other.filename
  files.filter query.inTime

def searchBashEvents (events : List BashEvent) (query : BashEventQuery) : BashEventPage :=
  let files := sortedFiles events query
  let startIndex := (query.pageId.bind fun pageId =>
    files.findIdx? fun file => file.filename = pageId).getD 0
  let rest := files.drop startIndex
  -- The page is cut before the events are filtered by their order.
  { items := (rest.take query.limit).filter query.inOrder
    nextPageId := rest[query.limit]?.map BashEvent.filename }

end BashEventService

end ShuttleFlow
