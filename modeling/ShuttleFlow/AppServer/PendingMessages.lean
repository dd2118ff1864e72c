import Mathlib.Logic.Function.Basic
import ShuttleFlow.AppServer.EventStorage

/-! # Messages that wait for a conversation

Messages are queued in a table while a conversation starts, under the id of the start task or of
the conversation. When it has started, one pass over the table delivers them. Each access to the
table is a transaction of its own.
-/

namespace ShuttleFlow

/-- The text of a UUID with its dashes. -/
def UUID.str (id : UUID) : List Char :=
  id.hex.take 8 ++ '-' :: (id.hex.drop 8).take 4 ++ '-' :: (id.hex.drop 12).take 4 ++
    '-' :: (id.hex.drop 16).take 4 ++ '-' :: id.hex.drop 20

structure ConversationStart where
  taskId : UUID
  conversationId : UUID

namespace ConversationStart

def taskIdStr (start : ConversationStart) : List Char :=
  "task-".toList ++ start.taskId.hex

def conversationIdStr (start : ConversationStart) : List Char :=
  start.conversationId.str

end ConversationStart

structure PendingMessage (Content : Type) where
  id : Nat
  conversationId : List Char
  role : String := "user"
  content : Content
  createdAt : Nat
  deriving DecidableEq

/-- A request that has counted the messages, or has made the message that it is going to store. -/
inductive QueueRequest (Content : Type)
  | counted (conversationId : List Char) (role : String) (content : Content) (count : Nat)
  | created (message : PendingMessage Content)

inductive PendingPass (Content : Type)
  | waiting
  /-- The messages under the id of the task are selected, by their ids. -/
  | rekeying (selected : List Nat)
  | rekeyed
  | sending (rest : List (PendingMessage Content))
  | deleting (selected : List Nat)
  | done

structure PendingTable (Content : Type) where
  /-- The rows in the order in which they were stored. -/
  rows : List (PendingMessage Content) := []
  requests : Nat → Option (QueueRequest Content) := fun _ => none
  /-- How many requests were begun. -/
  started : Nat := 0
  clock : Nat := 0
  pass : PendingPass Content := .waiting
  /-- The messages for the conversation, as they were stored, sent and deleted. -/
  accepted : List Nat := []
  attempts : List Nat := []
  deleted : List Nat := []

inductive PendingLabel (Content : Type)
  | count (conversationId : List Char) (role : String) (content : Content)
  | create (number now : Nat)
  | commit (number : Nat)
  | selectTask
  | rekey
  | getPending (messages : List (PendingMessage Content))
  | post (success : Bool)
  | selectConversation
  | delete

namespace PendingTable

variable {Content : Type} (start : ConversationStart) (table : PendingTable Content)

def maxPendingMessages : Nat := 10

def countPendingMessages (conversationId : List Char) : Nat :=
  table.rows.countP fun message => message.conversationId = conversationId

def setRequest (number : Nat) (request : Option (QueueRequest Content)) : PendingTable Content :=
  { table with requests := Function.update table.requests number request }

/-- The messages that are for the conversation. -/
def isFor (message : PendingMessage Content) : Bool :=
  message.conversationId = start.taskIdStr || message.conversationId = start.conversationIdStr

/-- A request begins, and waits for the number of messages. -/
def beginRequest (conversationId : List Char) (role : String) (content : Content) :
    PendingTable Content :=
  { table.setRequest table.started
      (some (.counted conversationId role content (table.countPendingMessages conversationId))) with
    started := table.started + 1 }

/-- A message is made unless there were too many. -/
def create (number now : Nat) : Option (PendingTable Content) :=
  match table.requests number with
  | some (.counted conversationId role content count) =>
      if now < table.clock then none
      else if maxPendingMessages ≤ count then some (table.setRequest number none)
      else
        some
          { table.setRequest number
              (some (.created
                { id := number, conversationId, role, content, createdAt := now })) with
            clock := now }
  | _ => none

def insertMessage (message : PendingMessage Content) : PendingTable Content :=
  { table with
    rows := table.rows ++ [message]
    accepted := table.accepted ++ if isFor start message then [message.id] else [] }

def commit (number : Nat) : Option (PendingTable Content) :=
  match table.requests number with
  | some (.created message) => some ((table.insertMessage start message).setRequest number none)
  | _ => none

def selectIds (conversationId : List Char) : List Nat :=
  (table.rows.filter fun message => message.conversationId = conversationId).map
    PendingMessage.id

def selectTask : Option (PendingTable Content) :=
  match table.pass with
  | .waiting =>
      match table.selectIds start.taskIdStr with
      | [] => some { table with pass := .rekeyed }
      | selected => some { table with pass := .rekeying selected }
  | _ => none

def rekey : Option (PendingTable Content) :=
  match table.pass with
  | .rekeying selected =>
      some
        { table with
          rows := table.rows.map fun message =>
            if message.id ∈ selected then
              { message with conversationId := start.conversationIdStr }
            else message
          pass := .rekeyed }
  | _ => none

/-- The messages come in the order of their creation. -/
def getPending [DecidableEq Content] (messages : List (PendingMessage Content)) :
    Option (PendingTable Content) :=
  match table.pass with
  | .rekeyed =>
      let pending := table.rows.filter fun message =>
        message.conversationId = start.conversationIdStr
      if messages.Perm pending ∧ messages.Pairwise (fun first second =>
          first.createdAt ≤ second.createdAt) then
        some { table with pass := if messages = [] then .done else .sending messages }
      else none
  | _ => none

/-- The next message is sent. Whether that succeeds makes no difference. -/
def post (_success : Bool) : Option (PendingTable Content) :=
  match table.pass with
  | .sending (message :: rest) =>
      some { table with pass := .sending rest, attempts := table.attempts ++ [message.id] }
  | _ => none

def selectConversation : Option (PendingTable Content) :=
  match table.pass with
  | .sending [] =>
      match table.selectIds start.conversationIdStr with
      | [] => some { table with pass := .done }
      | selected => some { table with pass := .deleting selected }
  | _ => none

def delete : Option (PendingTable Content) :=
  match table.pass with
  | .deleting selected =>
      some
        { table with
          rows := table.rows.filter fun message => message.id ∉ selected
          pass := .done
          deleted := table.deleted ++ selected }
  | _ => none

def step [DecidableEq Content] : PendingLabel Content → Option (PendingTable Content)
  | .count conversationId role content => some (table.beginRequest conversationId role content)
  | .create number now => table.create number now
  | .commit number => table.commit start number
  | .selectTask => table.selectTask start
  | .rekey => table.rekey start
  | .getPending messages => table.getPending start messages
  | .post success => table.post success
  | .selectConversation => table.selectConversation start
  | .delete => table.delete

def system [DecidableEq Content] :
    TransitionSystem (PendingTable Content) (PendingLabel Content) Empty where
  step table label := (table.step start label).map fun next => (next, [])

end PendingTable

end ShuttleFlow
