import Mathlib.Logic.Function.Basic
import ShuttleFlow.Library.Transitions
import ShuttleFlow.Subagents.SubagentRuns

/-! # The task manager

Several calls of the task tool may be under way at once. They interleave at the assignments that
set up the manager, at the sections under the lock of the tasks, and at the steps of a task.
-/

namespace ShuttleFlow

/-- Where sub-agents persist: below the directory of the parent, or in a temporary one. -/
inductive SubagentDirectory
  | subagents (parentDir : String)
  | temporary (number : Nat)
  deriving DecidableEq, Repr

/-- Conversations are numbered as they are opened. -/
structure ManagedTask extends SubagentTask where
  conversationId : Nat
  conversation : Option Nat := none
  deriving DecidableEq, Repr

structure SubConversation where
  taskId : String
  conversationId : Nat
  persistenceDir : Option SubagentDirectory
  isOpen : Bool := true
  deriving DecidableEq, Repr

/-- Where a call of `start_task` is. A call that runs a task refers to the object of the task. -/
inductive TaskCallPhase
  | checkingParent | settingParent | settingDirectory | opening
  | running (task : Nat)
  | closing (task : Nat)
  | evicting (task : Nat)
  | finished
  deriving DecidableEq, Repr

structure TaskCall where
  resume : Option String
  phase : TaskCallPhase := .checkingParent
  deriving DecidableEq, Repr

/-- The empty text does not resume anything. -/
def TaskCall.resumed (call : TaskCall) : Option String :=
  call.resume.filter (· ≠ "")

structure TaskManager where
  hasParent : Bool := false
  persistenceDir : Option SubagentDirectory := none
  /-- How many temporary directories have been made. -/
  temporaryDirs : Nat := 0
  /-- The entries refer to task objects. -/
  tasks : Dict String Nat := .empty
  objects : List ManagedTask := []
  conversations : List SubConversation := []
  calls : Nat → Option TaskCall := fun _ => none
  /-- The ids that have been generated. -/
  generated : List String := []

inductive TaskManagerStep
  | startTask (call : Nat) (resume : Option String)
  /-- One of the steps of `_ensure_parent`. -/
  | ensureParent (call : Nat)
  /-- The section under the lock that creates or resumes a task. The factory for the type of the
  sub-agent may be missing. -/
  | openTask (call : Nat) (hasFactory : Bool)
  /-- The prompt is sent, and the sub-agent run. -/
  | runTask (call : Nat) (outcome : Except String String)
  | closeConversation (call : Nat)
  | evictTask (call : Nat)

namespace TaskManager

/-- An id with at least eight hexadecimal digits. -/
def taskId (taskNumber : Nat) : String :=
  String.ofList (['t', 'a', 's', 'k', '_'] ++ List.leftpad 8 '0' (Nat.toDigits 16 taskNumber))

variable (parentDir : Option String) (manager : TaskManager)

def goTo (call : Nat) (found : TaskCall) (phase : TaskCallPhase) : TaskManager :=
  { manager with calls := Function.update manager.calls call (some { found with phase }) }

def directory : SubagentDirectory :=
  match parentDir with
  | some dir => .subagents dir
  | none => .temporary manager.temporaryDirs

/-- The parent is looked at, set, and only then the directory. -/
def ensureParent (call : Nat) (found : TaskCall) : Option TaskManager :=
  match found.phase with
  | .checkingParent =>
      some (manager.goTo call found (if manager.hasParent then .opening else .settingParent))
  | .settingParent => some ({ manager with hasParent := true }.goTo call found .settingDirectory)
  | .settingDirectory =>
      some ({ manager with
        persistenceDir := some (manager.directory parentDir)
        temporaryDirs := manager.temporaryDirs + if parentDir.isSome then 0 else 1 }.goTo
          call found .opening)
  | _ => none

/-- A new task gets the number after the tasks that there are. -/
def createTask : TaskManager :=
  let id := taskId (manager.tasks.keys.length + 1)
  let conversationId := manager.generated.length
  { manager with
    tasks := manager.tasks.set id manager.objects.length
    objects := manager.objects ++
      [{ id, status := .running, conversationId, conversation := manager.conversations.length }]
    conversations := manager.conversations ++
      [{ taskId := id, conversationId, persistenceDir := manager.persistenceDir }]
    generated := manager.generated ++ [id] }

/-- A conversation is opened for the task, whatever its status. -/
def resumeTask (id : String) (task : ManagedTask) : TaskManager :=
  { manager with
    tasks := manager.tasks.set id manager.objects.length
    objects := manager.objects ++
      [{ task with status := .running, conversation := manager.conversations.length }]
    conversations := manager.conversations ++
      [{ taskId := id, conversationId := task.conversationId
         persistenceDir := manager.persistenceDir }] }

/-- The task that is to be resumed. -/
def lookup (id : String) : Option ManagedTask :=
  (manager.tasks.get? id).bind fun task => manager.objects[task]?

/-- A call that raises leaves the tasks as they are. -/
def openTask (call : Nat) (found : TaskCall) (hasFactory : Bool) : Option TaskManager :=
  if found.phase ≠ .opening then none
  else
    let running := TaskCallPhase.running manager.objects.length
    match found.resumed with
    | none =>
        if hasFactory then some (manager.createTask.goTo call found running)
        else some (manager.goTo call found .finished)
    | some id =>
        match manager.lookup id with
        | none => some (manager.goTo call found .finished)
        | some task =>
            if hasFactory then some ((manager.resumeTask id task).goTo call found running)
            else some (manager.goTo call found .finished)

/-- The result of a run, or the error that it raised. -/
def setOutcome (outcome : Except String String) (task : ManagedTask) : ManagedTask :=
  match outcome with
  | .ok result => { task with toSubagentTask := task.setResult result }
  | .error error => { task with toSubagentTask := task.setError error }

def runTask (call : Nat) (found : TaskCall) (outcome : Except String String) :
    Option TaskManager :=
  match found.phase with
  | .running task =>
      some ({ manager with objects := manager.objects.modify task (setOutcome outcome) }.goTo
        call found (.closing task))
  | _ => none

def closeConversation (call : Nat) (found : TaskCall) : Option TaskManager :=
  match found.phase with
  | .closing task =>
      (manager.objects[task]?).map fun object =>
        let conversations :=
          match object.conversation with
          | none => manager.conversations
          | some number => manager.conversations.modify number ({ · with isOpen := false })
        { manager with conversations }.goTo call found (.evicting task)
  | _ => none

/-- The entry of the task is replaced by a copy without the conversation. -/
def evictTask (call : Nat) (found : TaskCall) : Option TaskManager :=
  match found.phase with
  | .evicting task =>
      (manager.objects[task]?).map fun object =>
        { manager with
          tasks := manager.tasks.set object.id manager.objects.length
          objects := manager.objects ++ [{ object with conversation := none }] }.goTo
            call found .finished
  | _ => none

def apply : TaskManagerStep → Option TaskManager
  | .startTask call resume =>
      if (manager.calls call).isSome then none
      else some { manager with calls := Function.update manager.calls call (some { resume }) }
  | .ensureParent call => (manager.calls call).bind fun found =>
      manager.ensureParent parentDir call found
  | .openTask call hasFactory => (manager.calls call).bind fun found =>
      manager.openTask call found hasFactory
  | .runTask call outcome => (manager.calls call).bind fun found =>
      manager.runTask call found outcome
  | .closeConversation call => (manager.calls call).bind fun found =>
      manager.closeConversation call found
  | .evictTask call => (manager.calls call).bind fun found => manager.evictTask call found

def system : TransitionSystem TaskManager TaskManagerStep Unit where
  step manager label := (manager.apply parentDir label).map fun next => (next, [])

/-- How many conversations of a task are open. -/
def openConversations (id : String) : Nat :=
  manager.conversations.countP fun conversation => conversation.isOpen && conversation.taskId = id

/-- Tasks do not get in each other's way. -/
structure Isolated (manager : TaskManager) : Prop where
  ids : manager.generated.Nodup
  directory : ∀ conversation ∈ manager.conversations, conversation.persistenceDir.isSome ∧
    conversation.persistenceDir = manager.persistenceDir
  single : ∀ id, manager.openConversations id ≤ 1

/-- The directory is set once, before any conversation is opened, and a task is only resumed when
no conversation of it is open. -/
def isClean : TaskManagerStep → Bool
  | .ensureParent call => (manager.calls call).all fun found =>
      found.phase ≠ .settingDirectory || parentDir.isSome || manager.conversations.isEmpty
  | .openTask call hasFactory => (manager.calls call).all fun found =>
      match found.resumed with
      | none => !hasFactory || manager.persistenceDir.isSome
      | some id => !hasFactory || (manager.lookup id).isNone ||
          (manager.persistenceDir.isSome && manager.openConversations id = 0)
  | _ => true

end TaskManager

end ShuttleFlow
