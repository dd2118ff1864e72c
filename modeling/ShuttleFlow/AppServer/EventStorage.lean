import Mathlib.Data.List.DropRight
import Mathlib.Data.String.Basic
import ShuttleFlow.Io.Disk
import ShuttleFlow.Library.Segments
import ShuttleFlow.Library.Transitions

/-! # Events stored as files

Each event that a sandbox posts is written to a file in the directory of its conversation.
Sandboxes choose the ids of the events, and the file is named after the id.
-/

namespace ShuttleFlow

open TransitionSystem

def isHexDigit (c : Char) : Bool :=
  c.isDigit || ('a' ≤ c && c ≤ 'f')

/-- A UUID is given by its digits. -/
@[ext] structure UUID where
  hex : List Char
  length_hex : hex.length = 32
  isHexDigit_hex : hex.all isHexDigit
  deriving DecidableEq

namespace UUID

/-- The UUID that is written in any case, with or without dashes. -/
def ofText? (text : List Char) : Option UUID :=
  let digits := (text.filter (· ≠ '-')).map Char.toLower
  if h : digits.length = 32 ∧ digits.all isHexDigit then some ⟨digits, h.1, h.2⟩ else none

def fileName (id : UUID) : List Char :=
  id.hex ++ ".json".toList

/-- The UUID whose file has this name. -/
def ofFileName? (name : List Char) : Option UUID :=
  if h : (name.take 32).length = 32 ∧ (name.take 32).all isHexDigit ∧
      name.drop 32 = ".json".toList then
    some ⟨name.take 32, h.1, h.2.1⟩
  else none

end UUID

namespace PurePath

/-- Empty and current components are dropped. Parent components are kept. -/
def parse (text : List Char) : List String :=
  (splitParts text).filter fun part => part ≠ "" && part ≠ "."

/-- An absolute path replaces the one it is joined to. -/
def join (path : List String) (text : List Char) : List String :=
  if text.head? = some '/' then parse text else path ++ parse text

end PurePath

/-- What the server's disk and the models of the events do. -/
structure EventHost (Event : Type) where
  id : Event → List Char
  kind : Event → String
  timestamp : Event → String
  modelDumpJson : Event → String
  modelValidateJson : String → Option Event
  /-- The system does not open a file of this path. -/
  refuses : List String → Bool
  /-- The names in a directory that are listed. -/
  listing : (String → Bool) → List String

structure FilesystemEventService where
  persistenceDir : List String
  userId : Option (List Char)
  /-- Who created a conversation, when there is a service that knows. -/
  createdByUserId : Option (UUID → Option (List Char))

/-- What a sandbox posts to a conversation. -/
structure EventPost (Event : Type) where
  service : FilesystemEventService
  conversationId : UUID
  event : Event

namespace FilesystemEventService

/-- The id of a user, unless it is missing or empty. -/
def given (userId : Option (List Char)) : Option (List Char) :=
  userId.filter fun text => text ≠ []

def getConversationPath (service : FilesystemEventService) (conversationId : UUID) :
    List String :=
  let owner := (given service.userId).or
    (service.createdByUserId.bind fun find => given (find conversationId))
  let path := owner.elim service.persistenceDir (PurePath.join service.persistenceDir)
  path ++ ["v1_conversations", String.ofList conversationId.hex]

/-- The directory of a conversation. Parent components lead to existing directories, so that
they can be resolved in the text. -/
def directory (service : FilesystemEventService) (conversationId : UUID) : List String :=
  normParts (service.getConversationPath conversationId)

end FilesystemEventService

namespace Disk

/-- A directory where no file is. -/
def mkdir (disk : Disk) (path : List String) (hfile : disk.files path = none) : Disk where
  files := disk.files
  directories other := disk.directories other || decide (other = path)
  disjoint other hother := by
    have hne : other ≠ path := by
      rintro rfl
      simp [hfile] at hother
    simp [disk.disjoint other hother, hne]

/-- Create the directories that are missing on the way, as far as no file is in the way. -/
def makeDirs (disk : Disk) : (made path : List String) → Disk × Bool
  | _, [] => (disk, true)
  | made, part :: rest =>
      if hfile : disk.files (normParts (made ++ [part])) = none then
        makeDirs (disk.mkdir _ hfile) (made ++ [part]) rest
      else (disk, false)

theorem makeDirs_files (disk : Disk) (made path : List String) :
    (disk.makeDirs made path).1.files = disk.files := by
  induction path generalizing disk made with
  | nil => rfl
  | cons part rest ih =>
      unfold makeDirs
      split
      next hfile => exact ih _ _
      next => rfl

end Disk

namespace EventHost

variable {Event : Type} (host : EventHost Event)

def loadEvent (disk : Disk) (path : List String) : Option Event :=
  match disk.readText path with
  | .ok content => host.modelValidateJson content
  | .error _ => none

/-- The disk afterwards, and whether the event is stored. -/
def storeEvent (disk : Disk) (path : List String) (event : Event) : Disk × Bool :=
  let made := disk.makeDirs [] path.dropLast
  if made.2 && !host.refuses (normParts path) then
    match made.1.write (normParts path) (host.modelDumpJson event).toUTF8 with
    | .ok written => (written, true)
    | .error _ => (made.1, false)
  else (made.1, false)

def getEvent (disk : Disk) (service : FilesystemEventService) (conversationId eventId : UUID) :
    Option Event :=
  host.loadEvent disk (normParts
    (PurePath.join (service.getConversationPath conversationId) eventId.fileName))

/-- Only the dashes of an id are removed. -/
def eventPath (post : EventPost Event) : List String :=
  PurePath.join (post.service.getConversationPath post.conversationId)
    ((host.id post.event).filter (· ≠ '-') ++ ".json".toList)

def saveEvent (disk : Disk) (post : EventPost Event) : Disk × Bool :=
  host.storeEvent disk (host.eventPath post) post.event

/-- The events of the batches are saved one after the other, in any order. What is saved
successfully is observed. -/
def system : TransitionSystem Disk (EventPost Event) (EventPost Event) where
  step disk post :=
    some ((host.saveEvent disk post).1, if (host.saveEvent disk post).2 then [post] else [])

end EventHost

/-! ## Searching -/

structure EventQuery where
  kindEq : Option String := none
  timestampGte : Option String := none
  timestampLt : Option String := none
  descending : Bool := false
  pageId : Option Int := none
  limit : Nat := 100

structure StoredEventPage (Event : Type) where
  items : List Event
  nextPageId : Option Int

namespace EventQuery

variable {Event : Type} (host : EventHost Event)

def keeps (query : EventQuery) (event : Event) : Bool :=
  query.kindEq.all (· = host.kind event) &&
    query.timestampGte.all (fun first => !decide (host.timestamp event < first)) &&
    query.timestampLt.all (fun last => decide (host.timestamp event < last))

def sort (query : EventQuery) (events : List Event) : List Event :=
  if query.descending then
    events.mergeSort fun event other => host.timestamp other ≤ host.timestamp event
  else events.mergeSort fun event other => host.timestamp event ≤ host.timestamp other

/-- A negative start counts from the end. -/
def start (query : EventQuery) (count : Nat) : Nat :=
  match query.pageId with
  | none => 0
  | some (.ofNat start) => start
  | some (.negSucc back) => count - (back + 1)

def page (query : EventQuery) (events : List Event) : StoredEventPage Event :=
  let items := events.drop (query.start events.length)
  if query.limit < items.length then
    { items := items.take query.limit, nextPageId := some (query.pageId.getD 0 + query.limit) }
  else { items, nextPageId := none }

end EventQuery

namespace EventHost

variable {Event : Type} (host : EventHost Event)

/-- The files of a directory that are not hidden. Directories do not load. -/
def searchPaths (disk : Disk) (directory : List String) : List (List String) :=
  (host.listing fun name =>
    name.toList.head? ≠ some '.' && (disk.files (directory ++ [name])).isSome).map fun name =>
      directory ++ [name]

def searchEvents (disk : Disk) (service : FilesystemEventService) (conversationId : UUID)
    (query : EventQuery) : StoredEventPage Event :=
  let events := (host.searchPaths disk (service.directory conversationId)).filterMap
    (host.loadEvent disk)
  query.page (query.sort host (events.filter (query.keeps host)))

end EventHost

end ShuttleFlow
