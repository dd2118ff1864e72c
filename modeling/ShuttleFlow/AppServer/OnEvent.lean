import ShuttleFlow.AppServer.ConversationStats
import ShuttleFlow.AppServer.EventStorage

/-! # The webhook for events

The events of a batch are saved at the same time. Then its state updates are looked through for
statistics. Whatever fails, the answer is a success.
-/

namespace ShuttleFlow

structure OnEventHost (Event : Type) extends EventHost Event where
  /-- The value of a `stats` update, if it can be validated. -/
  stats? : Event → Option (Option ConversationStats)

structure OnEventBatch (Event : Type) where
  service : FilesystemEventService
  conversationId : UUID
  events : List Event

def OnEventBatch.posts {Event : Type} (batch : OnEventBatch Event) : List (EventPost Event) :=
  batch.events.map fun event => ⟨batch.service, batch.conversationId, event⟩

inductive OnEventPhase (Event : Type)
  | saving
  /-- The statistics that are still to be stored. -/
  | stats (event : Event) (rest : List Event)
  | answered

/-- A request, with those of its events that are not saved yet. -/
structure OnEventRequest (Event : Type) where
  batch : OnEventBatch Event
  unsaved : List Nat
  phase : OnEventPhase Event := .saving
  /-- The statistics that were stored for it. -/
  applied : List Event := []

structure EventWebhook (Event Time : Type) where
  disk : Disk
  rows : UUID → Option (StatisticsRow Time)
  requests : List (OnEventRequest Event) := []

inductive SaveOutcome
  | attempted
  /-- The disk fails, and may leave a part of the file. -/
  | failed (left : Option ByteArray)

inductive OnEventLabel (Event Time : Type)
  | receive (batch : OnEventBatch Event)
  | save (request index : Nat) (outcome : SaveOutcome)
  | processStats (request : Nat) (fails : Bool) (utcNow : Time)
  /-- Another request changes what is stored about a conversation. -/
  | updateRow (conversationId : UUID) (row : Option (StatisticsRow Time))

namespace OnEventHost

variable {Event Time : Type} (host : OnEventHost Event)

def statsEvents (batch : OnEventBatch Event) : List Event :=
  batch.events.filter fun event => (host.stats? event).isSome

def statsPhase : List Event → OnEventPhase Event
  | [] => .answered
  | event :: rest => .stats event rest

/-- When all events are saved, the statistics are next. -/
def gather (request : OnEventRequest Event) : OnEventRequest Event :=
  match request.phase, request.unsaved with
  | .saving, [] => { request with phase := statsPhase (host.statsEvents request.batch) }
  | _, _ => request

/-- The first failure ends the waiting. The other events are still being saved. -/
def afterSave (request : OnEventRequest Event) (index : Nat) (saved : Bool) :
    OnEventRequest Event :=
  let request := { request with unsaved := request.unsaved.filter (· ≠ index) }
  if saved then host.gather request else { request with phase := .answered }

def receive (webhook : EventWebhook Event Time) (batch : OnEventBatch Event) :
    EventWebhook Event Time :=
  { webhook with
    requests := webhook.requests ++
      [host.gather { batch, unsaved := List.range batch.events.length }] }

/-- The file of an event after a failure. -/
def cutEvent (disk : Disk) (post : EventPost Event) : Option ByteArray → Disk
  | none => disk
  | some left =>
      match disk.write (normParts (host.eventPath post)) left with
      | .ok disk => disk
      | .error _ => disk

/-- The disk afterwards, and whether the event is stored. -/
def trySave (disk : Disk) (post : EventPost Event) : SaveOutcome → Disk × Bool
  | .attempted => host.saveEvent disk post
  | .failed left => (host.cutEvent disk post left, false)

def save (webhook : EventWebhook Event Time) (number index : Nat) (outcome : SaveOutcome) :
    Option (EventWebhook Event Time) :=
  webhook.requests[number]?.bind fun request =>
    request.batch.posts[index]?.bind fun post =>
      if index ∈ request.unsaved then
        let result := host.trySave webhook.disk post outcome
        some
          { webhook with
            disk := result.1
            requests := webhook.requests.set number (host.afterSave request index result.2) }
      else none

/-- What is stored about the conversation afterwards, and whether that is what the event says.
A failure is logged only. -/
def processStatsEvent (event : Event) (fails : Bool) (utcNow : Time)
    (row : Option (StatisticsRow Time)) : Option (StatisticsRow Time) × Bool :=
  match (host.stats? event).join with
  | none => (row, false)
  | some stats =>
      if (stats.usageToMetrics.get? "agent").isNone then (row, true)
      else if fails then (row, false)
      else
        match row with
        | none => (none, false)
        | some row => (some (row.processStatsEvent stats utcNow), true)

def processStats (webhook : EventWebhook Event Time) (number : Nat) (fails : Bool)
    (utcNow : Time) : Option (EventWebhook Event Time) :=
  webhook.requests[number]?.bind fun request =>
    match request.phase with
    | .saving | .answered => none
    | .stats event rest =>
        let id := request.batch.conversationId
        let result := host.processStatsEvent event fails utcNow (webhook.rows id)
        some
          { webhook with
            rows := fun other => if other = id then result.1 else webhook.rows other
            requests := webhook.requests.set number
              { request with
                phase := statsPhase rest
                applied := request.applied ++ if result.2 then [event] else [] } }

def step (webhook : EventWebhook Event Time) :
    OnEventLabel Event Time → Option (EventWebhook Event Time)
  | .receive batch => some (host.receive webhook batch)
  | .save number index outcome => host.save webhook number index outcome
  | .processStats number fails utcNow => host.processStats webhook number fails utcNow
  | .updateRow id row =>
      some { webhook with rows := fun other => if other = id then row else webhook.rows other }

/-- Requests are handled at the same time. -/
def webhookSystem : TransitionSystem (EventWebhook Event Time) (OnEventLabel Event Time) Empty where
  step webhook label := (host.step webhook label).map fun next => (next, [])

end OnEventHost

end ShuttleFlow
