import Mathlib.Data.Rat.Defs
import Mathlib.Algebra.Order.Ring.Rat
import ShuttleFlow.Library.Transitions

/-! # The lease of a conversation

Instances of the server share a lease file. Each operation holds the file lock
from its first look at the file to its last write.
-/

namespace ShuttleFlow

/-- A value of a JSON object, as far as its type is looked at. -/
inductive Json where
  | bool (value : Bool)
  | int (value : Int)
  | float (value : ℚ)
  | string (value : String)
  | other
  deriving DecidableEq

namespace Json

def asString : Json → Option String
  | .string value => some value
  | _ => none

/-- A `bool` is an `int` too. -/
def asInt : Json → Option Int
  | .bool value => some (if value then 1 else 0)
  | .int value => some value
  | _ => none

def asNumber : Json → Option ℚ
  | .float value => some value
  | json => json.asInt.map fun value => (value : ℚ)

end Json

structure RawPayload where
  ownerInstanceId : Option Json
  generation : Option Json
  expiresAt : Option Json
  ownerHost : Option Json
  ownerPid : Option Json
  deriving DecidableEq

/-- `malformed` is whatever does not parse as a JSON object. -/
inductive LeaseFile where
  | missing
  | malformed
  | object (raw : RawPayload)
  deriving DecidableEq

structure LeasePayload where
  ownerInstanceId : String
  generation : Int
  expiresAt : ℚ
  ownerHost : Option String
  ownerPid : Option Int
  deriving DecidableEq

structure LeaseClaim where
  generation : Int
  takeover : Bool
  deriving DecidableEq

inductive LeaseError where
  | held (ownerInstanceId : String) (expiresAt : ℚ)
  | ownershipLost (ownerInstanceId : String) (generation : Int)
  deriving DecidableEq

structure ConversationLease where
  ownerInstanceId : String
  ttlSeconds : ℚ

/-- What a process sees of the world: the time, its host and pid, and which pids
`os.kill` finds. -/
structure Surroundings where
  now : ℚ
  host : String
  pid : Int
  found : Int → Bool

namespace LeaseFile

def readPayload : LeaseFile → Option LeasePayload
  | .missing => none
  | .malformed => none
  | .object raw =>
      match raw.ownerInstanceId.bind Json.asString, raw.generation.bind Json.asInt,
        raw.expiresAt.bind Json.asNumber with
      | some ownerInstanceId, some generation, some expiresAt =>
          some {
            ownerInstanceId := ownerInstanceId
            generation := generation
            expiresAt := expiresAt
            ownerHost :=
              match raw.ownerHost.bind Json.asString with
              | none => none
              | some host => if host = "" then none else some host
            ownerPid := raw.ownerPid.bind Json.asInt }
      | _, _, _ => none

end LeaseFile

namespace ConversationLease

def isPidAlive (surroundings : Surroundings) (pid : Int) : Bool :=
  if pid ≤ 0 then false else surroundings.found pid

def ownerIsDead (surroundings : Surroundings) (payload : LeasePayload) : Bool :=
  match payload.ownerHost, payload.ownerPid with
  | some ownerHost, some ownerPid =>
      if ownerHost ≠ surroundings.host then false
      else if ownerPid = surroundings.pid then false
      else !isPidAlive surroundings ownerPid
  | _, _ => false

def writePayload (lease : ConversationLease) (surroundings : Surroundings) (generation : Int) :
    LeaseFile :=
  .object {
    ownerInstanceId := some (.string lease.ownerInstanceId)
    generation := some (.int generation)
    expiresAt := some (.float (surroundings.now + lease.ttlSeconds))
    ownerHost := some (.string surroundings.host)
    ownerPid := some (.int surroundings.pid) }

def claim (lease : ConversationLease) (surroundings : Surroundings) (file : LeaseFile) :
    Except LeaseError LeaseClaim × LeaseFile :=
  match file.readPayload with
  | some payload =>
      if payload.ownerInstanceId ≠ lease.ownerInstanceId ∧ payload.expiresAt > surroundings.now ∧
          ownerIsDead surroundings payload = false then
        (.error (.held payload.ownerInstanceId payload.expiresAt), file)
      else if payload.ownerInstanceId = lease.ownerInstanceId then
        (.ok ⟨payload.generation, false⟩, lease.writePayload surroundings payload.generation)
      else
        (.ok ⟨payload.generation + 1, true⟩,
          lease.writePayload surroundings (payload.generation + 1))
  | none => (.ok ⟨1, false⟩, lease.writePayload surroundings 1)

/-- Does the file say that this instance owns the generation? -/
def owns (lease : ConversationLease) (generation : Int) (file : LeaseFile) : Bool :=
  match file.readPayload with
  | none => false
  | some payload =>
      payload.ownerInstanceId = lease.ownerInstanceId && payload.generation = generation

def assertOwnerLocked (lease : ConversationLease) (generation : Int) (file : LeaseFile) :
    Except LeaseError Unit :=
  if lease.owns generation file then .ok ()
  else .error (.ownershipLost lease.ownerInstanceId generation)

def renew (lease : ConversationLease) (surroundings : Surroundings) (generation : Int)
    (file : LeaseFile) : Except LeaseError Unit × LeaseFile :=
  match lease.assertOwnerLocked generation file with
  | .error error => (.error error, file)
  | .ok () => (.ok (), lease.writePayload surroundings generation)

/-- The guarded block does not touch the lease file. -/
def guardedWrite (lease : ConversationLease) (generation : Int) (file : LeaseFile) :
    Except LeaseError Unit := lease.assertOwnerLocked generation file

def release (lease : ConversationLease) (generation : Int) (file : LeaseFile) : LeaseFile :=
  if lease.owns generation file then .missing else file

theorem owns_iff {lease : ConversationLease} {generation : Int} {file : LeaseFile} :
    lease.owns generation file ↔ ∃ payload, file.readPayload = some payload ∧
      payload.ownerInstanceId = lease.ownerInstanceId ∧ payload.generation = generation := by
  unfold owns
  split
  next hnone => simp [hnone]
  next payload hpayload => simp [hpayload]

/-- What is written is read back. -/
theorem readPayload_writePayload (lease : ConversationLease) (surroundings : Surroundings)
    (generation : Int) : (lease.writePayload surroundings generation).readPayload = some {
      ownerInstanceId := lease.ownerInstanceId
      generation := generation
      expiresAt := surroundings.now + lease.ttlSeconds
      ownerHost := if surroundings.host = "" then none else some surroundings.host
      ownerPid := some surroundings.pid } := rfl

theorem claim_cases (lease : ConversationLease) (surroundings : Surroundings)
    (file : LeaseFile) :
    (∃ error, lease.claim surroundings file = (.error error, file)) ∨
    ∃ claim, lease.claim surroundings file =
        (.ok claim, lease.writePayload surroundings claim.generation) ∧
      ((file.readPayload = none ∧ claim.generation = 1) ∨
      ∃ payload, file.readPayload = some payload ∧
        ((payload.ownerInstanceId = lease.ownerInstanceId ∧
          claim.generation = payload.generation) ∨
        (payload.ownerInstanceId ≠ lease.ownerInstanceId ∧
          claim.generation = payload.generation + 1))) := by
  unfold claim
  split
  next payload hpayload =>
    split
    · exact .inl ⟨_, rfl⟩
    · split
      next howner => exact .inr ⟨_, rfl, .inr ⟨payload, hpayload, .inl ⟨howner, rfl⟩⟩⟩
      next howner => exact .inr ⟨_, rfl, .inr ⟨payload, hpayload, .inr ⟨howner, rfl⟩⟩⟩
  next hnone => exact .inr ⟨_, rfl, .inl ⟨hnone, rfl⟩⟩

end ConversationLease

/-! ## Instances -/

/-- The lease file, and the generations that claims have returned, with their owners. -/
structure LeaseWorld where
  file : LeaseFile
  granted : List (String × Int)
  deriving DecidableEq

inductive LeaseCall where
  | claim (lease : ConversationLease) (surroundings : Surroundings)
  | renew (lease : ConversationLease) (surroundings : Surroundings) (generation : Int)
  | guardedWrite (lease : ConversationLease) (generation : Int)
  | release (lease : ConversationLease) (generation : Int)

/-- What is seen of a call that succeeds. A release is seen when it removes the lease. -/
inductive LeaseEvent where
  | claimed (owner : String) (generation : Int)
  | renewed (owner : String) (generation : Int)
  | wrote (owner : String) (generation : Int)
  | released (owner : String) (generation : Int)
  deriving DecidableEq

namespace LeaseWorld

/-- A caller passes a generation that one of its own claims has returned. -/
def holds (world : LeaseWorld) (lease : ConversationLease) (generation : Int) : Bool :=
  world.granted.any fun grant => grant.1 = lease.ownerInstanceId && grant.2 = generation

def call (world : LeaseWorld) : LeaseCall → Option (LeaseWorld × List LeaseEvent)
  | .claim lease surroundings =>
      match lease.claim surroundings world.file with
      | (.error _, file) => some ({ world with file := file }, [])
      | (.ok claim, file) =>
          some (⟨file, world.granted ++ [(lease.ownerInstanceId, claim.generation)]⟩,
            [.claimed lease.ownerInstanceId claim.generation])
  | .renew lease surroundings generation =>
      if world.holds lease generation then
        match lease.renew surroundings generation world.file with
        | (.error _, file) => some ({ world with file := file }, [])
        | (.ok (), file) =>
            some ({ world with file := file }, [.renewed lease.ownerInstanceId generation])
      else none
  | .guardedWrite lease generation =>
      if world.holds lease generation then
        match lease.guardedWrite generation world.file with
        | .error _ => some (world, [])
        | .ok () => some (world, [.wrote lease.ownerInstanceId generation])
      else none
  | .release lease generation =>
      if world.holds lease generation then
        some ({ world with file := lease.release generation world.file },
          if lease.owns generation world.file then [.released lease.ownerInstanceId generation]
          else [])
      else none

def instances : TransitionSystem LeaseWorld LeaseCall LeaseEvent where
  step := call

end LeaseWorld

end ShuttleFlow
