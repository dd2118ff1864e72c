import Mathlib.Data.Finset.Lattice.Lemmas
import Mathlib.Data.List.Sort
import ShuttleFlow.Event.Basic
import ShuttleFlow.Library.Bisect
import ShuttleFlow.Library.Dict
import ShuttleFlow.Library.Transitions

/-! # The events of a remote conversation

A client keeps a copy of the server's log. It is filled once, then reconciled with the
server, and gets the events that a websocket delivers, in any order and repeatedly.
-/

namespace ShuttleFlow

/-- What the cache looks at. The events of ACP tool calls are snapshots of the call. -/
structure RemoteEvent (τ : Type) where
  id : EventID
  timestamp : τ
  acpToolCallId : Option ToolCallID := none
  deriving DecidableEq

/-- A request for a page: it fails, or gives items and tells whether there are more. -/
inductive PageResponse (τ : Type)
  | failed
  | page (items : List (RemoteEvent τ)) (hasNext : Bool)
  deriving DecidableEq

/-- The items of the pages up to a failure or the last page. -/
def fetchEvents {τ : Type} : List (PageResponse τ) → List (RemoteEvent τ)
  | [] | .failed :: _ => []
  | .page items true :: rest => items ++ fetchEvents rest
  | .page items false :: _ => items

structure RemoteEventsList (τ : Type) where
  cachedEvents : List (RemoteEvent τ)
  cachedEventIds : Finset EventID
  acpToolCallIdToEventId : Dict ToolCallID EventID
  deriving DecidableEq

namespace RemoteEventsList

variable {τ : Type} [LinearOrder τ]

def empty : RemoteEventsList τ :=
  { cachedEvents := [], cachedEventIds := ∅, acpToolCallIdToEventId := .empty }

def doFullSync (events : List (RemoteEvent τ)) (list : RemoteEventsList τ) :
    RemoteEventsList τ :=
  { list with
    cachedEvents := events
    cachedEventIds := list.cachedEventIds ∪ (events.map RemoteEvent.id).toFinset }

/-- The event takes the place of the first one with the id. -/
def replaceAt (existingId : EventID) (event : RemoteEvent τ) :
    List (RemoteEvent τ) → Option (List (RemoteEvent τ))
  | [] => none
  | other :: rest =>
      if other.id = existingId then some (event :: rest)
      else (replaceAt existingId event rest).map (other :: ·)

/-- The event is inserted by its timestamp. -/
def insertSorted (event : RemoteEvent τ) (list : RemoteEventsList τ) : RemoteEventsList τ :=
  { cachedEvents :=
      Bisect.insort (fun other => event.timestamp < other.timestamp) event list.cachedEvents
    cachedEventIds := insert event.id list.cachedEventIds
    acpToolCallIdToEventId := event.acpToolCallId.elim list.acpToolCallIdToEventId
      fun toolCallId => list.acpToolCallIdToEventId.set toolCallId event.id }

def addEventUnsafe (event : RemoteEvent τ) (list : RemoteEventsList τ) : RemoteEventsList τ :=
  match event.acpToolCallId with
  | none => list.insertSorted event
  | some toolCallId =>
      match list.acpToolCallIdToEventId.get? toolCallId with
      | none => list.insertSorted event
      | some existingId =>
          match replaceAt existingId event list.cachedEvents with
          | some cachedEvents =>
              { cachedEvents
                cachedEventIds := insert event.id (list.cachedEventIds.erase existingId)
                acpToolCallIdToEventId := list.acpToolCallIdToEventId.set toolCallId event.id }
          | none =>
              -- The index is stale.
              insertSorted event
                { list with
                  cachedEventIds := list.cachedEventIds.erase existingId
                  acpToolCallIdToEventId := list.acpToolCallIdToEventId.erase toolCallId }

/-- Events that are cached already are skipped. -/
def addEvent (event : RemoteEvent τ) (list : RemoteEventsList τ) : RemoteEventsList τ :=
  if event.id ∈ list.cachedEventIds then list else list.addEventUnsafe event

/-- The events are merged one after the other, under the lock. -/
def reconcile (events : List (RemoteEvent τ)) (list : RemoteEventsList τ) : RemoteEventsList τ :=
  events.foldl (fun list event => list.addEvent event) list

end RemoteEventsList

/-! ## The client and the server -/

structure RemoteEvents (τ : Type) where
  /-- The events of the server. -/
  log : List (RemoteEvent τ) := []
  /-- The cache, after the first sync. -/
  list : Option (RemoteEventsList τ) := none
  deriving DecidableEq

inductive RemoteStep (τ : Type)
  /-- The server logs events. -/
  | grow (events : List (RemoteEvent τ))
  | fullSync (pages : List (PageResponse τ))
  | reconcile (pages : List (PageResponse τ))
  /-- The websocket delivers an event. -/
  | addEvent (event : RemoteEvent τ)

namespace RemoteEvents

variable {τ : Type} [LinearOrder τ]

/-- The ids of the server's log are unique, and its timestamps do not decrease. -/
structure WellFormed (log : List (RemoteEvent τ)) : Prop where
  nodup : (log.map RemoteEvent.id).Nodup
  sorted : log.Pairwise fun first second => first.timestamp ≤ second.timestamp

instance (log : List (RemoteEvent τ)) : Decidable (WellFormed log) :=
  decidable_of_iff ((log.map RemoteEvent.id).Nodup ∧
      log.Pairwise fun first second => first.timestamp ≤ second.timestamp)
    ⟨fun hlog => ⟨hlog.1, hlog.2⟩, fun hlog => ⟨hlog.nodup, hlog.sorted⟩⟩

/-- What is fetched is the beginning of a log. The first sync does not survive a failure. -/
def step (remote : RemoteEvents τ) :
    RemoteStep τ → Option (RemoteEvents τ × List (RemoteEvent τ))
  | .grow events =>
      if WellFormed (remote.log ++ events) then
        some ({ remote with log := remote.log ++ events }, [])
      else none
  | .fullSync pages =>
      if remote.list.isNone ∧ .failed ∉ pages ∧ fetchEvents pages <+: remote.log then
        some ({ remote with list := some (RemoteEventsList.empty.doFullSync (fetchEvents pages)) },
          fetchEvents pages)
      else none
  | .reconcile pages =>
      if fetchEvents pages <+: remote.log then
        remote.list.map fun list =>
          ({ remote with list := some (list.reconcile (fetchEvents pages)) }, fetchEvents pages)
      else none
  | .addEvent event =>
      if event ∈ remote.log then
        remote.list.map fun list =>
          ({ remote with list := some (list.addEvent event) }, [event])
      else none

/-- What is observed are the events that are delivered. -/
def transitions (τ : Type) [LinearOrder τ] :
    TransitionSystem (RemoteEvents τ) (RemoteStep τ) (RemoteEvent τ) where
  step := step

end RemoteEvents

end ShuttleFlow
