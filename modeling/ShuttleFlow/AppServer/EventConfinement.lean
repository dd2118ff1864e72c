import ShuttleFlow.AppServer.EventStorage

/-! # Posts stay in the directory of their conversation

A post may only write below the directory of its conversation, and what is written is found
under its id.
-/

namespace ShuttleFlow

open TransitionSystem

/-! ## Plain components -/

theorem plainPart_of_length {text : List Char} (hlength : 2 < text.length) :
    PlainPart (String.ofList text) := by
  have hne : ∀ other : String, other.toList.length ≤ 2 → String.ofList text ≠ other := by
    intro other hother heq
    rw [← heq, String.toList_ofList] at hother
    omega
  exact ⟨hne _ (by decide), hne _ (by decide), hne _ (by decide)⟩

theorem PurePath.join_of_plain {text : List Char} (hslash : '/' ∉ text)
    (hlength : 2 < text.length) (path : List String) :
    join path text = path ++ [String.ofList text] := by
  obtain ⟨hempty, hdot, -⟩ := plainPart_of_length hlength
  have hhead : ¬text.head? = some '/' := fun heq => hslash (List.mem_of_mem_head? heq)
  rw [join, if_neg hhead, parse, splitParts, List.splitOn_eq_singleton hslash]
  simp [hempty, hdot]

namespace UUID

variable {id : UUID} {name : List Char}

theorem slash_notMem_fileName (id : UUID) : '/' ∉ id.fileName := by
  intro hmem
  rcases List.mem_append.mp hmem with hhex | hend
  · exact absurd (List.all_eq_true.mp id.isHexDigit_hex '/' hhex) (by decide)
  · exact absurd hend (by decide)

theorem length_fileName (id : UUID) : 2 < id.fileName.length := by
  rw [fileName, List.length_append, id.length_hex]
  omega

theorem ofFileName?_fileName (id : UUID) : ofFileName? id.fileName = some id := by
  have htake : id.fileName.take 32 = id.hex := by
    rw [fileName, List.take_append_of_le_length id.length_hex.ge,
      List.take_of_length_le id.length_hex.le]
  have hdrop : id.fileName.drop 32 = ".json".toList := by
    rw [fileName, ← id.length_hex, List.drop_left]
  have hname : (id.fileName.take 32).length = 32 ∧ (id.fileName.take 32).all isHexDigit ∧
      id.fileName.drop 32 = ".json".toList := by
    rw [htake]
    exact ⟨id.length_hex, id.isHexDigit_hex, hdrop⟩
  rw [ofFileName?, dif_pos hname]
  exact congrArg some (UUID.ext htake)

theorem eq_fileName (hname : ofFileName? name = some id) : name = id.fileName := by
  unfold ofFileName? at hname
  split at hname
  next h =>
    cases hname
    rw [fileName, ← h.2.2, List.take_append_drop]
  next => cases hname

end UUID

namespace FilesystemEventService

variable {service other : FilesystemEventService} {conversationId otherId : UUID}

theorem directory_eq (service : FilesystemEventService) (conversationId : UUID) :
    ∃ path, service.directory conversationId = path ++ [String.ofList conversationId.hex] := by
  have hplain : PlainPart (String.ofList conversationId.hex) :=
    plainPart_of_length (by rw [conversationId.length_hex]; omega)
  unfold directory getConversationPath
  rw [List.append_cons, normParts_concat hplain]
  exact ⟨_, rfl⟩

/-- The directories of two conversations differ, whoever asks for them. -/
theorem directory_inj
    (hsame : service.directory conversationId = other.directory otherId) :
    conversationId = otherId := by
  obtain ⟨path, hpath⟩ := service.directory_eq conversationId
  obtain ⟨otherPath, hother⟩ := other.directory_eq otherId
  rw [hpath, hother] at hsame
  have hhex := List.singleton_inj.mp (List.append_inj' hsame rfl).2
  exact UUID.ext (String.ofList_injective hhex)

end FilesystemEventService


namespace EventHost

variable {Event : Type} {host : EventHost Event} {disk start : Disk} {post : EventPost Event}
  {trace : List (EventPost Event)}

/-! ## One post -/

/-- Where the event is written. -/
def location (host : EventHost Event) (post : EventPost Event) : List String :=
  normParts (host.eventPath post)

/-- The directory of the conversation that the event is posted to. -/
def directory (post : EventPost Event) : List String :=
  post.service.directory post.conversationId

/-- The file is a direct child of the directory, and its name is the one of the UUID that the
id spells, or of none. -/
def proper (host : EventHost Event) (post : EventPost Event) : Bool :=
  (host.location post).dropLast = directory post &&
    UUID.ofFileName? ((host.location post).getLastD "").toList =
      UUID.ofText? (host.id post.event)

theorem saveEvent_spec (host : EventHost Event) (disk : Disk) (post : EventPost Event) :
    (host.saveEvent disk post).1.files =
      if (host.saveEvent disk post).2 then
        Function.update disk.files (host.location post)
          (some (host.modelDumpJson post.event).toUTF8)
      else disk.files := by
  have hmade := disk.makeDirs_files [] (host.eventPath post).dropLast
  unfold saveEvent storeEvent
  simp only
  split
  next =>
    split
    next written hwrite => rw [(Disk.write_spec hwrite).1, hmade, if_pos rfl, location]
    next => rw [if_neg Bool.false_ne_true, hmade]
  next => rw [if_neg Bool.false_ne_true, hmade]

/-- The file of a proper post. -/
theorem location_of_proper (hproper : host.proper post) :
    ∃ name, host.location post = directory post ++ [name] ∧
      UUID.ofFileName? name.toList = UUID.ofText? (host.id post.event) := by
  obtain ⟨hdirectory, hname⟩ := Bool.and_eq_true_iff.mp hproper
  have hdirectory := of_decide_eq_true hdirectory
  have hname := of_decide_eq_true hname
  obtain ⟨path, hpath⟩ := post.service.directory_eq post.conversationId
  rcases List.eq_nil_or_concat' (host.location post) with hnil | ⟨parent, name, hlocation⟩
  · rw [hnil, directory, hpath] at hdirectory
    simp at hdirectory
  · rw [hlocation, List.dropLast_concat] at hdirectory
    rw [hlocation, List.getLastD_concat] at hname
    exact ⟨name, hdirectory ▸ hlocation, hname⟩

/-- The file of a UUID in the directory of a conversation. -/
theorem normParts_join_fileName (service : FilesystemEventService) (conversationId id : UUID) :
    normParts (PurePath.join (service.getConversationPath conversationId) id.fileName) =
      service.directory conversationId ++ [String.ofList id.fileName] := by
  rw [PurePath.join_of_plain id.slash_notMem_fileName id.length_fileName,
    normParts_concat (plainPart_of_length id.length_fileName), FilesystemEventService.directory]

theorem loadEvent_of_files {other : Disk} {path : List String}
    (hfiles : other.files path = disk.files path) :
    host.loadEvent other path = host.loadEvent disk path := by
  unfold loadEvent
  cases hdisk : disk.readText path with
  | ok text => rw [Disk.readText_of_files hfiles hdisk]
  | error error =>
      cases hother : other.readText path with
      | ok text =>
          rw [Disk.readText_of_files hfiles.symm hother] at hdisk
          cases hdisk
      | error => rfl

/-! ## Runs -/

/-- What a run of posts may do. -/
structure Confined (host : EventHost Event) (start : Disk) (trace : List (EventPost Event))
    (disk : Disk) : Prop where
  /-- Each file that is written is in the directory of the conversation. -/
  written : ∀ post ∈ trace, ∃ name, host.location post = directory post ++ [name]
  untouched : ∀ path, (∀ post ∈ trace, path ≠ host.location post) →
    disk.files path = start.files path
  otherEvents : ∀ service conversationId,
    (∀ post ∈ trace, post.conversationId ≠ conversationId) → ∀ eventId,
      host.getEvent disk service conversationId eventId =
        host.getEvent start service conversationId eventId
  otherSearches : ∀ service conversationId,
    (∀ post ∈ trace, post.conversationId ≠ conversationId) → ∀ query,
      host.searchEvents disk service conversationId query =
        host.searchEvents start service conversationId query
  /-- What was saved last under a UUID is found under it. -/
  latest : ∀ before post after id, trace = before ++ post :: after →
    UUID.ofText? (host.id post.event) = some id →
    (∀ later ∈ after, UUID.ofText? (host.id later.event) = some id →
      directory later ≠ directory post) →
    ∀ service, service.directory post.conversationId = directory post →
      host.getEvent disk service post.conversationId id = some post.event

/-- The invariant of runs of proper posts. -/
structure Kept (host : EventHost Event) (start : Disk) (trace : List (EventPost Event))
    (disk : Disk) : Prop where
  written : ∀ post ∈ trace, ∃ name, host.location post = directory post ++ [name]
  untouched : ∀ path, (∀ post ∈ trace, path ≠ host.location post) →
    disk.files path = start.files path
  stored : ∀ before post after id, trace = before ++ post :: after →
    UUID.ofText? (host.id post.event) = some id →
    (∀ later ∈ after, UUID.ofText? (host.id later.event) = some id →
      directory later ≠ directory post) →
    disk.files (directory post ++ [String.ofList id.fileName]) =
      some (host.modelDumpJson post.event).toUTF8

theorem kept_init (host : EventHost Event) (start : Disk) : Kept host start [] start where
  written post hpost := by cases hpost
  untouched path _ := rfl
  stored before post after id htrace := by simp at htrace

theorem Kept.save (hkept : Kept host start trace disk) (hproper : host.proper post) {next : Disk}
    (hfiles : next.files = Function.update disk.files (host.location post)
      (some (host.modelDumpJson post.event).toUTF8)) :
    Kept host start (trace ++ [post]) next := by
  obtain ⟨name, hlocation, hname⟩ := location_of_proper hproper
  refine ⟨?_, ?_, ?_⟩
  · intro saved hsaved
    rcases List.mem_append.mp hsaved with hold | hnew
    · exact hkept.written saved hold
    · rw [List.mem_singleton.mp hnew]
      exact ⟨name, hlocation⟩
  · intro path hpath
    rw [hfiles, Function.update_of_ne
      (hpath post (List.mem_append_right _ (List.mem_singleton_self post)))]
    exact hkept.untouched path fun saved hsaved => hpath saved (List.mem_append_left _ hsaved)
  · intro before saved after id htrace hid hlast
    rcases Segments.marker_concat htrace with ⟨-, rfl, -⟩ | ⟨rest, hold, rfl⟩
    · have hfile : String.ofList id.fileName = name := by
        rw [← UUID.eq_fileName (hname.trans hid), String.ofList_toList]
      rw [hfiles, hfile, ← hlocation, Function.update_self]
    · -- the new file is another one, or the UUID is saved again
      have hne : directory saved ++ [String.ofList id.fileName] ≠ host.location post := by
        intro heq
        rw [hlocation] at heq
        obtain ⟨hdirectory, hlastPart⟩ := List.append_inj' heq rfl
        refine hlast post (List.mem_append_right _ (List.mem_singleton_self post)) ?_
          hdirectory.symm
        rw [← hname, ← List.singleton_inj.mp hlastPart, String.toList_ofList]
        exact UUID.ofFileName?_fileName id
      rw [hfiles, Function.update_of_ne hne]
      exact hkept.stored before saved rest id hold hid fun later hlater =>
        hlast later (List.mem_append_left _ hlater)

theorem Kept.step (hkept : Kept host start trace disk) (hproper : host.proper post) {next : Disk}
    {seen : List (EventPost Event)} (hstep : host.system.step disk post = some (next, seen)) :
    Kept host start (trace ++ seen) next := by
  cases hstep
  have hspec := host.saveEvent_spec disk post
  cases hsaved : (host.saveEvent disk post).2 with
  | true =>
      rw [hsaved, if_pos rfl] at hspec
      exact hkept.save hproper hspec
  | false =>
      rw [hsaved, if_neg Bool.false_ne_true] at hspec
      rw [if_neg Bool.false_ne_true, List.append_nil]
      refine ⟨hkept.written, fun path hpath => ?_, fun before saved after id htrace hid hlast => ?_⟩
      · rw [hspec, hkept.untouched path hpath]
      · rw [hspec, hkept.stored before saved after id htrace hid hlast]

/-- The files of a conversation that nothing is posted to. -/
theorem Kept.other (hkept : Kept host start trace disk) {service : FilesystemEventService}
    {conversationId : UUID} (hother : ∀ post ∈ trace, post.conversationId ≠ conversationId)
    (name : String) :
    disk.files (service.directory conversationId ++ [name]) =
      start.files (service.directory conversationId ++ [name]) := by
  refine hkept.untouched _ fun post hpost heq => hother post hpost ?_
  obtain ⟨file, hfile⟩ := hkept.written post hpost
  rw [hfile] at heq
  exact FilesystemEventService.directory_inj (List.append_inj' heq rfl).1.symm

end EventHost

section Posts

inductive Sample.Posted
  | confined
  | crossing
  deriving DecidableEq

namespace Sample

def uuidOf (digit : Char) (hdigit : (List.replicate 32 digit).all isHexDigit) : UUID :=
  ⟨List.replicate 32 digit, List.length_replicate, hdigit⟩

def firstId : UUID := uuidOf '1' (by decide)

def secondId : UUID := uuidOf '2' (by decide)

def eventId : UUID := uuidOf 'a' (by decide)

/-- One id is a UUID, the other one leads into another directory. -/
def postedId : Posted → String
  | .confined => "aaaaaaaa-aaaa-aaaa-aaaa-aaaaaaaaaaaa"
  | .crossing => "../22222222222222222222222222222222/aaaaaaaaaaaaaaaaaaaaaaaaaaaaaaaa"

def postedJson (event : Posted) : String :=
  "\x7b\"id\": \"" ++ postedId event ++ "\"\x7d"

def eventHost : EventHost Posted where
  id event := (postedId event).toList
  kind _ := "MessageEvent"
  timestamp _ := "2025-01-01T00:00:00"
  modelDumpJson := postedJson
  modelValidateJson text := [Posted.confined, .crossing].find? fun event => postedJson event = text
  refuses _ := false
  listing _ := []

def eventService : FilesystemEventService := ⟨["data"], some "user".toList, none⟩

def emptyDisk : Disk := ⟨fun _ => none, fun _ => false, fun _ _ => rfl⟩

def eventPost (event : Posted) : EventPost Posted := ⟨eventService, firstId, event⟩

theorem eventHost_reads (event : Posted) :
    eventHost.modelValidateJson (eventHost.modelDumpJson event) = some event := by
  cases event <;> decide

theorem eventHost_escapes (event : Posted) :
    '\r' ∉ (eventHost.modelDumpJson event).toList := by
  cases event <;> decide

theorem step_eventPost (event : Posted) :
    eventHost.system.step emptyDisk (eventPost event) =
      some ((eventHost.saveEvent emptyDisk (eventPost event)).1, [eventPost event]) := by
  have hsaved : (eventHost.saveEvent emptyDisk (eventPost event)).2 = true := by
    cases event <;> decide +kernel
  simp only [EventHost.system, hsaved, if_pos]

end Sample

open Sample

end Posts

end ShuttleFlow
