import Mathlib.Algebra.Order.Field.Rat
import Mathlib.Tactic.NormNum
import ShuttleFlow.Agent.Step

/-! # The summarizing condenser

A condenser forgets a range of the events of a view and puts a summary in their place. The range
ends where the view is short enough again, and respects the manipulation indices.
-/

namespace ShuttleFlow

/-- Why a view should be condensed. -/
inductive CondensationReason
  | request | tokens | events
  deriving DecidableEq, Repr

inductive CondensationRequirement
  | hard | soft
  deriving DecidableEq, Repr

inductive CondensationError
  | noCondensationAvailable
  /-- A failed lookup of manipulation indices. -/
  | keyError
  | assertion
  /-- The model that summarizes fails. -/
  | completion
  deriving DecidableEq, Repr

/-- What the model that summarizes replies. -/
structure SummaryReply where
  id : EventID
  text : Option String
  deriving DecidableEq, Repr

/-- The validators are checked when the condenser is made. -/
structure LLMSummarizingCondenser where
  maxSize : Nat := 240
  maxTokens : Option Int := none
  keepFirst : Nat := 2
  minimumProgress : ℚ := 1 / 10
  hardContextResetMaxRetries : Nat := 5
  maxSize_pos : 0 < maxSize := by decide
  minimumProgress_pos : 0 < minimumProgress := by norm_num
  minimumProgress_lt_one : minimumProgress < 1 := by norm_num
  hardContextResetMaxRetries_pos : 0 < hardContextResetMaxRetries := by decide
  leavesRoom : keepFirst + 1 < maxSize / 2 := by decide

def CondensationPlan.withId (plan : CondensationPlan) (id : EventID) : Condensation where
  id
  forgottenEventIds := plan.forgottenEventIds
  summary := plan.summary
  summaryOffset := plan.summaryOffset
  llmResponseId := plan.llmResponseId

/-- How many tokens the model of the agent counts for events, if there is one. -/
abbrev TokenCount : Type := Option (List LLMConvertibleEvent → Nat)

/-! ## Counting tokens -/

/-- The binary search for the shortest prefix with more tokens. -/
def searchPrefix (tokens : List LLMConvertibleEvent → Nat) (events : List LLMConvertibleEvent)
    (tokenCount : Int) (left right : Nat) : Nat :=
  if left < right then
    let mid := (left + right) / 2
    if tokenCount < tokens (events.take mid) then
      searchPrefix tokens events tokenCount left mid
    else searchPrefix tokens events tokenCount (mid + 1) right
  else left
termination_by right - left

def getShortestPrefixAboveTokenCount (tokens : List LLMConvertibleEvent → Nat)
    (events : List LLMConvertibleEvent) (tokenCount : Int) : Nat :=
  if events = [] then 0
  else if tokens events ≤ tokenCount then events.length
  else searchPrefix tokens events tokenCount 1 events.length

def getSuffixLengthForTokenReduction (tokens : List LLMConvertibleEvent → Nat)
    (events : List LLMConvertibleEvent) (tokenReduction : Int) : Nat :=
  if events = [] then 0
  else if tokenReduction ≤ 0 then events.length
  else events.length - getShortestPrefixAboveTokenCount tokens events tokenReduction

namespace LLMSummarizingCondenser

variable (condenser : LLMSummarizingCondenser) (tokenCount : TokenCount)

/-- A limit of zero is no limit. -/
def exceedsTokens (view : View) : Bool :=
  match condenser.maxTokens, tokenCount with
  | some maxTokens, some tokens => maxTokens ≠ 0 && maxTokens < tokens view.events
  | _, _ => false

def getCondensationReasons (view : View) : List CondensationReason :=
  (if view.unhandledCondensationRequest then [.request] else []) ++
    (if condenser.exceedsTokens tokenCount view then [.tokens] else []) ++
    (if condenser.maxSize < view.events.length then [.events] else [])

def condensationRequirement (view : View) : Option CondensationRequirement :=
  let reasons := condenser.getCondensationReasons tokenCount view
  if reasons = [] then none
  else if .request ∈ reasons then some .hard
  else some .soft

/-- How many events at the end a reason lets the view keep. One place is for the summary. -/
def suffixEventsToKeep (view : View) : CondensationReason → Int
  | .request => (view.events.length / 2 : Nat) - condenser.keepFirst - 1
  | .events => (condenser.maxSize / 2 : Nat) - condenser.keepFirst - 1
  | .tokens =>
      match condenser.maxTokens, tokenCount with
      | some maxTokens, some tokens =>
          getSuffixLengthForTokenReduction tokens (view.events.drop condenser.keepFirst)
            (tokens view.events - maxTokens / 2)
      | _, _ => 0

/-- Where the tail begins that all reasons let the view keep. -/
def naiveEnd (view : View) : Option Nat :=
  (((condenser.getCondensationReasons tokenCount view).map
    (condenser.suffixEventsToKeep tokenCount view)).min?).map fun eventsFromTail =>
      ((view.events.length : Int) - eventsFromTail).toNat

/-- The events to forget, and where they start. -/
def getForgottenEvents (view : View) :
    Except CondensationError (List LLMConvertibleEvent × Nat) :=
  match condenser.naiveEnd tokenCount view, view.manipulationIndices with
  | none, _ => .error .assertion
  | some _, none => .error .keyError
  | some naiveEnd, some indices =>
      match indices.findNext condenser.keepFirst, indices.findNext naiveEnd with
      | some forgettingStart, some forgettingEnd =>
          .ok ((view.events.take forgettingEnd).drop forgettingStart, forgettingStart)
      | _, _ => .error .noCondensationAvailable

def generateCondensation (reply : Option SummaryReply) (forgotten : List LLMConvertibleEvent)
    (summaryOffset : Nat) : Except CondensationError CondensationPlan :=
  if forgotten = [] then .error .assertion
  else
    match reply with
    | none => .error .completion
    | some reply =>
        .ok {
          forgottenEventIds := viewEventIds forgotten
          summary := reply.text
          summaryOffset := some summaryOffset
          llmResponseId := reply.id
        }

variable (complete : List LLMConvertibleEvent → Option SummaryReply)

/-- Too small a range is not forgotten. -/
def getCondensation (view : View) : Except CondensationError CondensationPlan :=
  match condenser.getForgottenEvents tokenCount view with
  | .error error => .error error
  | .ok (forgotten, summaryOffset) =>
      if forgotten = [] then .error .noCondensationAvailable
      else if forgotten.length < view.events.length * condenser.minimumProgress then
        .error .noCondensationAvailable
      else generateCondensation (complete forgotten) forgotten summaryOffset

/-- Summarize the whole view, with shorter and shorter texts. -/
def hardContextReset (attempt : Nat → Option SummaryReply) (view : View) :
    Option CondensationPlan :=
  (List.range condenser.hardContextResetMaxRetries).findSome? fun count =>
    (generateCondensation (attempt count) view.events 0).toOption

/-- The view as it is, or a condensation of it. -/
def condense (attempt : Nat → Option SummaryReply) (view : View) :
    Except CondensationError (Option CondensationPlan) :=
  match condenser.condensationRequirement tokenCount view with
  | none => .ok none
  | some requirement =>
      match condenser.getCondensation tokenCount complete view, requirement with
      | .ok plan, _ => .ok (some plan)
      | .error .noCondensationAvailable, .soft => .ok none
      | .error .noCondensationAvailable, .hard =>
          match condenser.hardContextReset attempt view with
          | some plan => .ok (some plan)
          | none => .error .noCondensationAvailable
      | .error error, _ => .error error

end LLMSummarizingCondenser

end ShuttleFlow
