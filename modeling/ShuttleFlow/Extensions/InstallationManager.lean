import Mathlib.Data.List.SplitOn
import ShuttleFlow.Library.Dict

/-! # The metadata of installed extensions

The installation directory holds a directory for each extension, and a metadata file that records
them. Names that the file does not know, or whose directories are gone, are reconciled.
-/

namespace ShuttleFlow

structure Extension where
  name : String
  version : String
  description : Option String
  deriving DecidableEq, Repr

/-- The record of one extension in the metadata. -/
structure InstallationInfo where
  name : String
  version : String := ""
  description : String := ""
  enabled : Bool := true
  source : String
  resolvedRef : Option String := none
  repoPath : Option String := none
  installedAt : String
  installPath : String
  deriving DecidableEq, Repr

def InstallationInfo.fromExtension (extension : Extension) (source installedAt installPath : String)
    (resolvedRef repoPath : Option String) : InstallationInfo where
  name := extension.name
  version := extension.version
  description := extension.description.getD ""
  source := source
  resolvedRef := resolvedRef
  repoPath := repoPath
  installedAt := installedAt
  installPath := installPath

/-- Names in kebab case, as `validate_extension_name` wants them. -/
def isExtensionName (name : String) : Bool :=
  (name.toList.splitOn '-').all fun part =>
    part ≠ [] && part.all fun c => ('a' ≤ c && c ≤ 'z') || ('0' ≤ c && c ≤ '9')

/-- What a metadata file says. Older files have the keys `plugins` and `skills`. -/
structure MetadataText where
  extensions : Dict String InstallationInfo := .empty
  plugins : Dict String InstallationInfo := .empty
  skills : Dict String InstallationInfo := .empty
  deriving DecidableEq

namespace Dict

variable {κ ν : Type} [DecidableEq κ]

/-- `dict.update`. -/
def update (dict : Dict κ ν) (entries : List (κ × ν)) : Dict κ ν :=
  entries.foldl (fun dict entry => dict.set entry.1 entry.2) dict

end Dict

/-- Explicit entries win over those under the older keys. -/
def MetadataText.migrateLegacyKeys (text : MetadataText) : Dict String InstallationInfo :=
  let merged := (Dict.empty.update text.plugins.entries).update text.skills.entries
  if merged.entries = [] then text.extensions else merged.update text.extensions.entries

/-- A text that does not parse is broken. -/
inductive MetadataFile
  | absent
  | broken (text : String)
  | stored (text : MetadataText)
  deriving DecidableEq

/-- How writing the metadata goes. It may be refused, or be cut when a part of the text is
written. -/
inductive WriteOutcome
  | written | refused
  | cut (text : String)
  deriving DecidableEq, Repr

structure MetadataAccess where
  readable : Bool := true
  write : WriteOutcome := .written
  deriving DecidableEq, Repr

namespace MetadataFile

/-- What cannot be read or parsed counts as empty. -/
def load (readable : Bool) : MetadataFile → Dict String InstallationInfo
  | .stored text => if readable then text.migrateLegacyKeys else .empty
  | .absent | .broken _ => .empty

def save (extensions : Dict String InstallationInfo) (file : MetadataFile) :
    WriteOutcome → MetadataFile
  | .written => .stored { extensions }
  | .refused => file
  | .cut text => .broken text

end MetadataFile

/-- What there is under a name in the installation directory. -/
inductive InstalledItem (Content : Type)
  | directory (content : Content)
  | file
  deriving DecidableEq, Repr

structure InstallationFolder (Content : Type) where
  items : Dict String (InstalledItem Content) := .empty
  metadata : MetadataFile := .absent
  deriving DecidableEq

/-- `load_from_dir` may raise. -/
structure InstallationManager (Content : Type) where
  installationDir : String
  loadFromDir : Content → Option Extension

namespace InstallationManager

variable {Content : Type} (manager : InstallationManager Content)

def installPath (name : String) : String := manager.installationDir ++ "/" ++ name

/-- Entries with valid names that are there. -/
def validateTracked (folder : InstallationFolder Content)
    (extensions : Dict String InstallationInfo) : Dict String InstallationInfo :=
  extensions.filterMap fun name info =>
    if isExtensionName name && (folder.items.get? name).isSome then some info else none

/-- The extension that is discovered in an item, if it has the name of the item. -/
def discover (name : String) : InstalledItem Content → Option Extension
  | .file => none
  | .directory content =>
      if name.toList.head? = some '.' || !isExtensionName name then none
      else (manager.loadFromDir content).filter fun extension => extension.name = name

def discoverUntracked (now : String) (folder : InstallationFolder Content)
    (tracked : Dict String InstallationInfo) : Dict String InstallationInfo :=
  folder.items.filterMap fun name item =>
    if (tracked.get? name).isSome then none
    else
      (manager.discover name item).map fun extension =>
        .fromExtension extension "local" now (manager.installPath name) none none

/-- The reconciled entries, and the list of them. -/
def sync (now : String) (folder : InstallationFolder Content)
    (extensions : Dict String InstallationInfo) :
    Dict String InstallationInfo × List InstallationInfo :=
  let tracked := validateTracked folder extensions
  let discovered := manager.discoverUntracked now folder tracked
  (tracked.update discovered.entries, tracked.values ++ discovered.values)

end InstallationManager

end ShuttleFlow

/-! ## Installing extensions

Every operation works on the installation directory, and may fail at any point.
-/

namespace ShuttleFlow

inductive InstallationError
  | fetch | load
  | invalidName (name : String)
  | alreadyInstalled (name : String)
  | remove | makeDirectory | copy | metadata
  deriving DecidableEq, Repr

/-- Where the work on the directory of an extension fails, and what it leaves there. -/
inductive InstallFailure (Content : Type)
  | remove (left : Content)
  | makeDirectory
  | copy (copied : Option Content)
  deriving DecidableEq, Repr

structure InstallRequest (Content : Type) where
  source : String
  repoPath : Option String := none
  force : Bool := false
  /-- What is fetched from the source, unless that fails. -/
  fetched : Option (Content × Option String)
  failure : Option (InstallFailure Content) := none
  access : MetadataAccess := {}
  now : String := ""

namespace InstallationManager

variable {Content : Type} (manager : InstallationManager Content)

/-- The installation directory, if it exists, after an operation that may raise. -/
abbrev Outcome (Content α : Type) : Type :=
  Except InstallationError α × Option (InstallationFolder Content)

def itemAt (disk : Option (InstallationFolder Content)) (name : String) :
    Option (InstalledItem Content) :=
  disk.bind fun folder => folder.items.get? name

def loadMetadata (readable : Bool) (disk : Option (InstallationFolder Content)) :
    Dict String InstallationInfo :=
  match disk with
  | none => .empty
  | some folder => folder.metadata.load readable

/-- The directory is made first. -/
def saveMetadata {α : Type} (access : MetadataAccess) (extensions : Dict String InstallationInfo)
    (result : α) (disk : Option (InstallationFolder Content)) : Outcome Content α :=
  let folder := disk.getD {}
  (match access.write with
    | .written => .ok result
    | .refused | .cut _ => .error .metadata,
    some { folder with metadata := folder.metadata.save extensions access.write })

def setItem (name : String) (item : InstalledItem Content)
    (disk : Option (InstallationFolder Content)) : Option (InstallationFolder Content) :=
  let folder := disk.getD {}
  some { folder with items := folder.items.set name item }

def eraseItem (name : String) (disk : Option (InstallationFolder Content)) :
    Option (InstallationFolder Content) :=
  disk.map fun folder => { folder with items := folder.items.erase name }

/-- Remove the directory of an extension. What is no directory cannot be removed. -/
def removeTree (name : String) (left : Option Content)
    (disk : Option (InstallationFolder Content)) : Outcome Content Unit :=
  match itemAt disk name, left with
  | none, _ => (.ok (), disk)
  | some .file, _ => (.error .remove, disk)
  | some (.directory _), some left => (.error .remove, setItem name (.directory left) disk)
  | some (.directory _), none => (.ok (), eraseItem name disk)

/-- Copy the directory of an extension to where it is installed. -/
def copyTree (name : String) (content : Content) (failure : Option (InstallFailure Content))
    (disk : Option (InstallationFolder Content)) : Outcome Content Unit :=
  match failure with
  | some .makeDirectory => (.error .makeDirectory, disk)
  | some (.copy none) => (.error .copy, some (disk.getD {}))
  | some (.copy (some copied)) => (.error .copy, setItem name (.directory copied) disk)
  | some (.remove _) | none => (.ok (), setItem name (.directory content) disk)

/-- What a failing removal leaves. -/
def leftBy : Option (InstallFailure Content) → Option Content
  | some (.remove left) => some left
  | _ => none

/-- The old directory is removed, the new one is copied, and then the metadata is written. The
extension stays enabled or disabled. -/
def place (request : InstallRequest Content) (content : Content) (resolvedRef : Option String)
    (extension : Extension) (disk : Option (InstallationFolder Content)) :
    Outcome Content InstallationInfo :=
  match removeTree extension.name (leftBy request.failure) disk with
  | (.error error, disk) => (.error error, disk)
  | (.ok (), disk) =>
      match copyTree extension.name content request.failure disk with
      | (.error error, disk) => (.error error, disk)
      | (.ok (), disk) =>
          let extensions := loadMetadata request.access.readable disk
          let info := InstallationInfo.fromExtension extension request.source request.now
            (manager.installPath extension.name) resolvedRef request.repoPath
          let info :=
            match extensions.get? extension.name with
            | none => info
            | some existing => { info with enabled := existing.enabled }
          saveMetadata request.access (extensions.set extension.name info) info disk

def install (request : InstallRequest Content) (disk : Option (InstallationFolder Content)) :
    Outcome Content InstallationInfo :=
  match request.fetched with
  | none => (.error .fetch, disk)
  | some (content, resolvedRef) =>
      match manager.loadFromDir content with
      | none => (.error .load, disk)
      | some extension =>
          if !isExtensionName extension.name then
            (.error (.invalidName extension.name), disk)
          else if (itemAt disk extension.name).isSome && !request.force then
            (.error (.alreadyInstalled extension.name), disk)
          else manager.place request content resolvedRef extension disk

/-- Only what the metadata tracks is uninstalled. The metadata is written in any case. -/
def uninstall (name : String) (left : Option Content) (access : MetadataAccess)
    (disk : Option (InstallationFolder Content)) : Outcome Content Bool :=
  if !isExtensionName name then (.error (.invalidName name), disk)
  else
    let extensions := loadMetadata access.readable disk
    match extensions.get? name with
    | none => saveMetadata access extensions false disk
    | some _ =>
        match removeTree name left disk with
        | (.error error, disk) => (.error error, disk)
        | (.ok (), disk) => saveMetadata access (extensions.erase name) true disk

def setEnabled (name : String) (enabled : Bool) (access : MetadataAccess) (now : String)
    (disk : Option (InstallationFolder Content)) : Outcome Content Bool :=
  if !isExtensionName name then (.error (.invalidName name), disk)
  else
    match disk with
    | none => (.ok false, none)
    | some folder =>
        let (extensions, _) := manager.sync now folder (folder.metadata.load access.readable)
        match extensions.get? name with
        | none => saveMetadata access extensions false (some folder)
        | some info =>
            if (folder.items.get? name).isNone then
              saveMetadata access extensions false (some folder)
            else if info.enabled = enabled then
              saveMetadata access extensions true (some folder)
            else
              saveMetadata access (extensions.set name { info with enabled }) true (some folder)

def listInstalled (access : MetadataAccess) (now : String)
    (disk : Option (InstallationFolder Content)) : Outcome Content (List InstallationInfo) :=
  match disk with
  | none => (.ok [], none)
  | some folder =>
      let (extensions, listed) := manager.sync now folder (folder.metadata.load access.readable)
      saveMetadata access extensions listed (some folder)

/-- The enabled extensions, each with the directory that it is loaded from. -/
def loadEnabled (folder : InstallationFolder Content) :
    List InstallationInfo → Option (List (String × Extension))
  | [] => some []
  | info :: rest =>
      if !info.enabled then loadEnabled folder rest
      else
        match folder.items.get? info.name with
        | none => loadEnabled folder rest
        | some .file => none
        | some (.directory content) =>
            (manager.loadFromDir content).bind fun extension =>
              (loadEnabled folder rest).map ((info.name, extension) :: ·)

def loadInstalled (access : MetadataAccess) (now : String)
    (disk : Option (InstallationFolder Content)) :
    Outcome Content (List (String × Extension)) :=
  match manager.listInstalled access now disk with
  | (.error error, disk) => (.error error, disk)
  | (.ok listed, disk) =>
      match manager.loadEnabled (disk.getD {}) listed with
      | none => (.error .load, disk)
      | some extensions => (.ok extensions, disk)

def get (name : String) (readable : Bool) (disk : Option (InstallationFolder Content)) :
    Except InstallationError (Option InstallationInfo) :=
  if !isExtensionName name then .error (.invalidName name)
  else .ok (((loadMetadata readable disk).get? name).filter fun _ => (itemAt disk name).isSome)

/-- The extension is fetched again from its source, and installed over the old one. -/
def update (name : String) (readable : Bool) (request : InstallRequest Content)
    (disk : Option (InstallationFolder Content)) : Outcome Content (Option InstallationInfo) :=
  match get name readable disk with
  | .error error => (.error error, disk)
  | .ok none => (.ok none, disk)
  | .ok (some current) =>
      let (result, disk) := manager.install { request with
        source := current.source, repoPath := current.repoPath, force := true } disk
      (result.map some, disk)

end InstallationManager

end ShuttleFlow
