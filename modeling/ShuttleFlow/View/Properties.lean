import Mathlib.Data.Finset.Max
import Mathlib.Data.Finset.Range
import Mathlib.Data.Finset.SDiff
import Mathlib.Data.Finset.Union
import Mathlib.Logic.Function.Basic
import ShuttleFlow.Event.Basic

/-! # Properties of a view and the indices that respect them

Each property has an enforcement, which names the events to forget, and a set
of manipulation indices, where the view may be cut or extended. Enforcement
compares the view with the whole log; the indices only look at the view.
-/

namespace ShuttleFlow

/-! ## Manipulation indices -/

abbrev ManipulationIndices := Finset Nat

namespace ManipulationIndices

/-- Every position of the list, its end included. -/
def complete (events : List LLMConvertibleEvent) : ManipulationIndices :=
  insert events.length (Finset.range events.length)

/-- The smallest index at or after the threshold. `none` is the `ValueError`. -/
def findNext (indices : ManipulationIndices) (threshold : Nat) : Option Nat :=
  let validIndices := indices.filter fun index => threshold ≤ index
  if hvalid : validIndices.Nonempty then some (validIndices.min' hvalid) else none

@[simp] theorem mem_complete {events : List LLMConvertibleEvent} {index : Nat} :
    index ∈ complete events ↔ index ≤ events.length := by
  simp only [complete, Finset.mem_insert, Finset.mem_range]
  omega

end ManipulationIndices

open ManipulationIndices (complete)

/-- The ids of the events of a view. -/
def viewEventIds (events : List LLMConvertibleEvent) : Finset EventID :=
  (events.map LLMConvertibleEvent.id).toFinset

@[simp] theorem mem_viewEventIds {events : List LLMConvertibleEvent} {id : EventID} :
    id ∈ viewEventIds events ↔ ∃ event ∈ events, event.id = id := by
  simp [viewEventIds]

/-! ## At most one observation for each tool call -/

namespace ObservationUniqueness

def enforceFrom (seenToolCallIds : Finset ToolCallID) :
    List LLMConvertibleEvent → Finset EventID
  | [] => ∅
  | event :: rest =>
      match event.asObservation with
      | none => enforceFrom seenToolCallIds rest
      | some observation =>
          if observation.toolCallId ∈ seenToolCallIds then
            insert event.id (enforceFrom seenToolCallIds rest)
          else enforceFrom (insert observation.toolCallId seenToolCallIds) rest

/-- Drop each observation whose tool call was observed earlier in the view. -/
def enforce (currentViewEvents : List LLMConvertibleEvent) (_allEvents : List Event) :
    Finset EventID :=
  enforceFrom ∅ currentViewEvents

/-- A duplicate only causes a warning here. -/
def manipulationIndices (currentViewEvents : List LLMConvertibleEvent) :
    Option ManipulationIndices :=
  some (complete currentViewEvents)

end ObservationUniqueness

/-! ## The actions of one response stay together -/

namespace BatchAtomicity

def addToBatch (batches : EventID → Finset EventID) :
    Event → EventID → Finset EventID
  | .convertible (.action action) =>
      Function.update batches action.llmResponseId
        (insert action.id (batches action.llmResponseId))
  | _ => batches

/-- The ids of the actions of each response. -/
def buildBatches (events : List Event) : EventID → Finset EventID :=
  events.foldl addToBatch fun _ => ∅

/-- Drop the actions of every batch that differs from the one in the log. -/
def enforce (currentViewEvents : List LLMConvertibleEvent) (allEvents : List Event) :
    Finset EventID :=
  let allBatches := buildBatches allEvents
  let viewBatches := buildBatches (currentViewEvents.map .convertible)
  let responseIds := (currentViewEvents.filterMap LLMConvertibleEvent.asAction).map
    ActionEvent.llmResponseId
  responseIds.toFinset.biUnion fun llmResponseId =>
    if viewBatches llmResponseId ≠ allBatches llmResponseId then viewBatches llmResponseId
    else ∅

/-- The positions between two adjacent actions of one response. -/
def interiorFrom : Nat → List LLMConvertibleEvent → Finset Nat
  | index, left :: right :: rest =>
      match left.asAction, right.asAction with
      | some leftAction, some rightAction =>
          if leftAction.llmResponseId = rightAction.llmResponseId then
            insert (index + 1) (interiorFrom (index + 1) (right :: rest))
          else interiorFrom (index + 1) (right :: rest)
      | _, _ => interiorFrom (index + 1) (right :: rest)
  | _, _ => ∅

def manipulationIndices (currentViewEvents : List LLMConvertibleEvent) :
    Option ManipulationIndices :=
  some (complete currentViewEvents \ interiorFrom 0 currentViewEvents)

end BatchAtomicity

/-! ## Actions and observations are paired -/

/-- The tool calls of the actions of a view, in order. -/
def actionToolCalls (events : List LLMConvertibleEvent) : List ToolCallID :=
  (events.filterMap LLMConvertibleEvent.asAction).map ActionEvent.toolCallId

/-- The tool calls answered by the observations of a view, in order. -/
def observationToolCalls (events : List LLMConvertibleEvent) : List ToolCallID :=
  (events.filterMap LLMConvertibleEvent.asObservation).map ObservationBaseEvent.toolCallId

namespace ToolCallMatching

/-- Whether the partner of an action or observation is missing from the view. -/
def Unpaired (events : List LLMConvertibleEvent) : LLMConvertibleEvent → Prop
  | .action action => action.toolCallId ∉ observationToolCalls events
  | .observation observation => observation.toolCallId ∉ actionToolCalls events
  | _ => False

instance (events : List LLMConvertibleEvent) : DecidablePred (Unpaired events)
  | .action action =>
      inferInstanceAs (Decidable (action.toolCallId ∉ observationToolCalls events))
  | .observation observation =>
      inferInstanceAs (Decidable (observation.toolCallId ∉ actionToolCalls events))
  | .systemPrompt _ | .message _ | .condensationSummary _ => .isFalse id

/-- Drop actions without an observation, and observations without an action. -/
def enforce (currentViewEvents : List LLMConvertibleEvent) (_allEvents : List Event) :
    Finset EventID :=
  viewEventIds (currentViewEvents.filter fun event => Unpaired currentViewEvents event)

/-- The pending tool calls after one more event. An observation must answer a
pending call: the source uses `remove`, so that anything else is a `KeyError`. -/
def pendingStep (pendingToolCallIds : Finset ToolCallID) :
    LLMConvertibleEvent → Option (Finset ToolCallID)
  | .action action => some (insert action.toolCallId pendingToolCallIds)
  | .observation observation =>
      if observation.toolCallId ∈ pendingToolCallIds then
        some (pendingToolCallIds.erase observation.toolCallId)
      else none
  | _ => some pendingToolCallIds

/-- The positions with a pending call just before them. -/
def openFrom : Nat → Finset ToolCallID → List LLMConvertibleEvent → Option (Finset Nat)
  | _, _, [] => some ∅
  | index, pendingToolCallIds, event :: rest => do
      let pending ← pendingStep pendingToolCallIds event
      let removed ← openFrom (index + 1) pending rest
      return if pending ≠ ∅ then insert (index + 1) removed else removed

def manipulationIndices (currentViewEvents : List LLMConvertibleEvent) :
    Option ManipulationIndices := do
  let removed ← openFrom 0 ∅ currentViewEvents
  return complete currentViewEvents \ removed

end ToolCallMatching

/-! ## Tool loops stay together -/

/-- What an event does to a tool loop: an action with thinking blocks starts
one, other actions and observations stay in it, everything else ends it. -/
inductive LoopRole
  | starts | stays | leaves
  deriving DecidableEq, Repr

def LLMConvertibleEvent.loopRole : LLMConvertibleEvent → LoopRole
  | action event => if event.thinkingBlocks ≠ [] then .starts else .stays
  | observation _ => .stays
  | _ => .leaves

def Event.loopRole : Event → LoopRole
  | convertible event => event.loopRole
  | _ => .leaves

namespace ToolLoopAtomicity

/-- The tool loops of a log, given the loop the log continues. -/
def toolLoopsFrom (currentToolLoop : Option (Finset EventID)) :
    List Event → List (Finset EventID)
  | [] => currentToolLoop.toList
  | event :: rest =>
      match event.loopRole with
      | .starts => currentToolLoop.toList ++ toolLoopsFrom (some {event.id}) rest
      | .stays => toolLoopsFrom (currentToolLoop.map (insert event.id)) rest
      | .leaves => currentToolLoop.toList ++ toolLoopsFrom none rest

def toolLoops (events : List Event) : List (Finset EventID) :=
  toolLoopsFrom none events

def enforceFrom (allToolLoops : List (Finset EventID)) (viewIds : Finset EventID) :
    Finset EventID → List LLMConvertibleEvent → Finset EventID
  | eventsToRemove, [] => eventsToRemove
  | eventsToRemove, event :: rest =>
      if event.id ∈ eventsToRemove then enforceFrom allToolLoops viewIds eventsToRemove rest
      else match allToolLoops.find? fun toolLoop => event.id ∈ toolLoop with
        | none => enforceFrom allToolLoops viewIds eventsToRemove rest
        | some toolLoop =>
            if toolLoop ⊆ viewIds then enforceFrom allToolLoops viewIds eventsToRemove rest
            else enforceFrom allToolLoops viewIds (eventsToRemove ∪ viewIds ∩ toolLoop) rest

/-- Drop what is left of every tool loop that is not wholly in the view. -/
def enforce (currentViewEvents : List LLMConvertibleEvent) (allEvents : List Event) :
    Finset EventID :=
  enforceFrom (toolLoops allEvents) (viewEventIds currentViewEvents) ∅ currentViewEvents

/-- The flag of the index scan after one more event. -/
def loopStep (inToolLoop : Bool) (event : LLMConvertibleEvent) : Bool :=
  match event.loopRole with
  | .starts => true
  | .stays => inToolLoop
  | .leaves => false

/-- The positions just before an event that continues a tool loop. -/
def insideFrom : Nat → Bool → List LLMConvertibleEvent → Finset Nat
  | _, _, [] => ∅
  | index, inToolLoop, event :: rest =>
      let removed := insideFrom (index + 1) (loopStep inToolLoop event) rest
      if event.loopRole = .stays ∧ inToolLoop then insert index removed else removed

def manipulationIndices (currentViewEvents : List LLMConvertibleEvent) :
    Option ManipulationIndices :=
  some (complete currentViewEvents \ insideFrom 0 false currentViewEvents)

end ToolLoopAtomicity

/-! ## All properties, in the order in which they are enforced -/

structure ViewProperty where
  enforce : List LLMConvertibleEvent → List Event → Finset EventID
  /-- `none` is a `KeyError` raised by the scan. -/
  manipulationIndices : List LLMConvertibleEvent → Option ManipulationIndices

def observationUniquenessProperty : ViewProperty :=
  ⟨ObservationUniqueness.enforce, ObservationUniqueness.manipulationIndices⟩

def batchAtomicityProperty : ViewProperty :=
  ⟨BatchAtomicity.enforce, BatchAtomicity.manipulationIndices⟩

def toolCallMatchingProperty : ViewProperty :=
  ⟨ToolCallMatching.enforce, ToolCallMatching.manipulationIndices⟩

def toolLoopAtomicityProperty : ViewProperty :=
  ⟨ToolLoopAtomicity.enforce, ToolLoopAtomicity.manipulationIndices⟩

def allProperties : List ViewProperty :=
  [observationUniquenessProperty, batchAtomicityProperty, toolCallMatchingProperty,
    toolLoopAtomicityProperty]

end ShuttleFlow
