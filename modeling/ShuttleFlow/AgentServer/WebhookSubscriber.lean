import Mathlib.Logic.Function.Basic
import ShuttleFlow.Library.Transitions

/-! # The subscriber that posts events to a webhook

Events are queued, and posted when the buffer is full or after a delay. Handing an event over
and closing the subscriber are tasks that may wait for a response; the delay is a task of its
own, the flush timer, which is cancelled when the buffer is full. Events are told apart by
their numbers in the order of arrival.
-/

namespace ShuttleFlow

structure WebhookSpec where
  eventBufferSize : Nat := 5
  numRetries : Nat := 3
  maxQueueSize : Nat := 1000

abbrev EventNumber := Nat
abbrev TaskNumber := Nat

/-- What a task waits for. -/
inductive WebhookPhase
  /-- A timer that has not begun. -/
  | created
  /-- A timer before its delay is over. -/
  | sleeping
  /-- The response to a post. -/
  | requesting (batch : List EventNumber) (attempt : Nat)
  /-- The delay before the next attempt. -/
  | retrying (batch : List EventNumber) (attempt : Nat)

def WebhookPhase.batch : WebhookPhase → List EventNumber
  | created | sleeping => []
  | requesting batch _ | retrying batch _ => batch

def WebhookPhase.isPosting : WebhookPhase → Bool
  | created | sleeping => false
  | requesting _ _ | retrying _ _ => true

structure WebhookTask where
  isTimer : Bool
  phase : WebhookPhase
  /-- It meets a cancellation when it continues. -/
  cancelled : Bool := false

structure WebhookSubscriber where
  /-- How many events were handed to it. -/
  arrived : Nat := 0
  queue : List EventNumber := []
  flushTimer : Option TaskNumber := none
  tasks : TaskNumber → Option WebhookTask := fun _ => none
  /-- How many tasks were started. -/
  started : Nat := 0

inductive WebhookLabel
  | call
  | close
  /-- A timer begins its delay. -/
  | begin (task : TaskNumber)
  /-- The delay of a timer is over. -/
  | wake (task : TaskNumber)
  | respond (task : TaskNumber) (success : Bool)
  | retry (task : TaskNumber)
  | cancelled (task : TaskNumber)

inductive WebhookEvent
  | posted (batch : List EventNumber)
  /-- The queue was too long; what is left of it remains. -/
  | dropped (events remaining : List EventNumber)
  /-- A post began while there was another one. -/
  | overlapped
  deriving DecidableEq

namespace WebhookSubscriber

def setTask (subscriber : WebhookSubscriber) (number : TaskNumber) (task : Option WebhookTask) :
    WebhookSubscriber :=
  { subscriber with tasks := Function.update subscriber.tasks number task }

/-- A task ends. A timer is no longer the flush timer, nor is any other one. -/
def finish (subscriber : WebhookSubscriber) (number : TaskNumber) (task : WebhookTask) :
    WebhookSubscriber :=
  { subscriber.setTask number none with
    flushTimer := if task.isTimer then none else subscriber.flushTimer }

def cancelFlushTimer (subscriber : WebhookSubscriber) : WebhookSubscriber :=
  match subscriber.flushTimer with
  | none => subscriber
  | some number =>
      { subscriber.setTask number
          ((subscriber.tasks number).map fun task => { task with cancelled := true }) with
        flushTimer := none }

def isPosting (subscriber : WebhookSubscriber) : Bool :=
  (List.range subscriber.started).any fun number =>
    (subscriber.tasks number).any fun task => task.phase.isPosting

/-- The queue becomes a batch, and its first attempt is made. -/
def postEvents (subscriber : WebhookSubscriber) (number : TaskNumber) (isTimer : Bool) :
    WebhookSubscriber × List WebhookEvent :=
  ({ subscriber.setTask number (some { isTimer, phase := .requesting subscriber.queue 0 }) with
     queue := [] },
    if subscriber.isPosting then [.overlapped] else [])

/-- What is called awaits the post in its own task. -/
def startTask (subscriber : WebhookSubscriber) : WebhookSubscriber :=
  { subscriber with started := subscriber.started + 1 }

/-- The flush timer is a new task. -/
def startFlushTimer (subscriber : WebhookSubscriber) : WebhookSubscriber :=
  { subscriber.startTask.setTask subscriber.started
      (some { isTimer := true, phase := .created }) with
    flushTimer := some subscriber.started }

/-- After the last attempt the batch goes back to the end of the queue, and the beginning of
a queue that is too long is dropped. -/
def requeue (spec : WebhookSpec) (subscriber : WebhookSubscriber) (batch : List EventNumber) :
    WebhookSubscriber × List WebhookEvent :=
  let queue := subscriber.queue ++ batch
  let overflow := queue.length - spec.maxQueueSize
  if 0 < overflow then
    ({ subscriber with queue := queue.drop overflow },
      [.dropped (queue.take overflow) (queue.drop overflow)])
  else ({ subscriber with queue }, [])

def handleCall (spec : WebhookSpec) (subscriber : WebhookSubscriber) :
    WebhookSubscriber × List WebhookEvent :=
  let subscriber :=
    { subscriber with
      arrived := subscriber.arrived + 1
      queue := subscriber.queue ++ [subscriber.arrived] }
  if spec.eventBufferSize ≤ subscriber.queue.length then
    subscriber.cancelFlushTimer.startTask.postEvents subscriber.started false
  else if subscriber.flushTimer.isNone then (subscriber.startFlushTimer, [])
  else (subscriber, [])

def handleClose (subscriber : WebhookSubscriber) : WebhookSubscriber × List WebhookEvent :=
  let subscriber := subscriber.cancelFlushTimer
  if subscriber.queue = [] then (subscriber, [])
  else subscriber.startTask.postEvents subscriber.started false

/-- A task continues. -/
def continueTask (spec : WebhookSpec) (subscriber : WebhookSubscriber) (number : TaskNumber)
    (task : WebhookTask) : WebhookLabel → Option (WebhookSubscriber × List WebhookEvent)
  | .begin _ =>
      match task.phase with
      | .created => some (subscriber.setTask number (some { task with phase := .sleeping }), [])
      | _ => none
  | .wake _ =>
      match task.phase with
      | .sleeping =>
          if subscriber.queue = [] then some (subscriber.finish number task, [])
          else some (subscriber.postEvents number task.isTimer)
      | _ => none
  | .respond _ success =>
      match task.phase with
      | .requesting batch attempt =>
          if success then some (subscriber.finish number task, [.posted batch])
          else if attempt < spec.numRetries then
            some (subscriber.setTask number
              (some { task with phase := .retrying batch attempt }), [])
          else some ((subscriber.finish number task).requeue spec batch)
      | _ => none
  | .retry _ =>
      match task.phase with
      | .retrying batch attempt =>
          some (subscriber.setTask number
            (some { task with phase := .requesting batch (attempt + 1) }), [])
      | _ => none
  | .call | .close | .cancelled _ => none

/-- The cancellation ends the task. A timer that had not begun does not come to its end. -/
def cancelTask (subscriber : WebhookSubscriber) (number : TaskNumber) (task : WebhookTask) :
    WebhookSubscriber :=
  match task.phase with
  | .created => subscriber.setTask number none
  | _ => subscriber.finish number task

def step (spec : WebhookSpec) (subscriber : WebhookSubscriber) (label : WebhookLabel) :
    Option (WebhookSubscriber × List WebhookEvent) :=
  match label with
  | .call => some (subscriber.handleCall spec)
  | .close => some subscriber.handleClose
  | .cancelled number => (subscriber.tasks number).bind fun task =>
      if task.cancelled then some (subscriber.cancelTask number task, []) else none
  | .begin number | .wake number | .respond number _ | .retry number =>
      (subscriber.tasks number).bind fun task =>
        if task.cancelled then none else subscriber.continueTask spec number task label

def system (spec : WebhookSpec) :
    TransitionSystem WebhookSubscriber WebhookLabel WebhookEvent where
  step := step spec

end WebhookSubscriber

end ShuttleFlow
