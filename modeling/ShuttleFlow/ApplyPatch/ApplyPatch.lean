import Mathlib.Data.List.Dedup
import Mathlib.Logic.Function.Basic
import ShuttleFlow.ApplyPatch.PatchParser
import ShuttleFlow.Io.Disk

/-! # Applying patches

The files that a patch names are read, the patch is parsed against them, and only then the changes
are made, one after another.
-/

namespace ShuttleFlow

/-! ## Files -/

inductive FileNode
  | file (content : List Char)
  | directory
  deriving DecidableEq, Repr

/-- What there is under resolved paths. -/
abbrev FileSystem : Type := List Char → Option FileNode

/-- How writing a file goes. It may be refused, or be cut when a part of the text is written. -/
inductive FileWrite
  | written | refused
  | cut (content : List Char)
  deriving DecidableEq, Repr

/-- The workspace, and what the operating system makes of its paths. -/
structure PatchHost where
  workspaceRoot : List Char
  /-- `Path.resolve`, below the root for paths that do not start with a slash. -/
  resolve : List Char → List Char
  readable : List Char → Bool := fun _ => true
  writing : List Char → List Char → FileWrite := fun _ _ => .written
  removable : List Char → Bool := fun _ => true

def FileNode.content? : FileNode → Option (List Char)
  | file content => some content
  | directory => none

namespace FileSystem

def contentAt (files : FileSystem) (path : List Char) : Option (List Char) :=
  (files path).bind FileNode.content?

/-- The same files with the same content. There may be other directories. -/
def SameFiles (before after : FileSystem) : Prop :=
  ∀ path, after.contentAt path = before.contentAt path

/-- The directories above a path. -/
def parentsFrom (front : List Char) : List Char → List (List Char)
  | [] => []
  | c :: rest =>
      if c = '/' ∧ front ≠ [] then front :: parentsFrom (front ++ [c]) rest
      else parentsFrom (front ++ [c]) rest

/-- `mkdir` with the directories above. A file in the way is an error. -/
def makeParents (files : FileSystem) : List (List Char) → Option FileSystem
  | [] => some files
  | path :: rest =>
      match files path with
      | some (.file _) => none
      | some .directory => files.makeParents rest
      | none => makeParents (Function.update files path (some .directory)) rest

/-- A file is in the place of a directory above the path. -/
def isBlocked (files : FileSystem) (path : List Char) : Bool :=
  (parentsFrom [] path).any fun parent => (files.contentAt parent).isSome

end FileSystem

namespace PatchHost

variable (host : PatchHost)

/-- What resolves to a path outside of the workspace is not allowed. -/
def resolvePath (path : List Char) : Except PatchError (List Char) :=
  if host.workspaceRoot <+: host.resolve path then .ok (host.resolve path)
  else .error (.diff "Absolute or escaping paths are not allowed")

def openFile (files : FileSystem) (path : List Char) : Except PatchError (List Char) :=
  match host.resolvePath path with
  | .error error => .error error
  | .ok resolved =>
      match files resolved with
      | none =>
          if files.isBlocked resolved then .error .os
          else PatchParser.diffError "Delete File Error: Missing File: " path
      | some .directory => .error .os
      | some (.file content) =>
          if host.readable resolved then .ok (translateNewlines content) else .error .os

def writeFile (path content : List Char) (files : FileSystem) :
    Except PatchError Unit × FileSystem :=
  match host.resolvePath path with
  | .error error => (.error error, files)
  | .ok resolved =>
      match files.makeParents (FileSystem.parentsFrom [] resolved) with
      | none => (.error .os, files)
      | some files =>
          match files resolved, host.writing resolved content with
          | some .directory, _ => (.error .os, files)
          | _, .refused => (.error .os, files)
          | _, .cut text => (.error .os, Function.update files resolved (some (.file text)))
          | _, .written => (.ok (), Function.update files resolved (some (.file content)))

def removeFile (path : List Char) (files : FileSystem) : Except PatchError Unit × FileSystem :=
  match host.resolvePath path with
  | .error error => (.error error, files)
  | .ok resolved =>
      match files resolved with
      | some (.file _) =>
          if host.removable resolved then (.ok (), Function.update files resolved none)
          else (.error .os, files)
      | _ => (.error .os, files)

end PatchHost

/-! ## Commits -/

inductive FileChange
  | add (newContent : List Char)
  | delete (oldContent : List Char)
  | update (oldContent newContent movePath : List Char)
  deriving DecidableEq, Repr

inductive PatchOperation
  | write (path content : List Char)
  | remove (path : List Char)
  deriving DecidableEq, Repr

namespace PatchOperation

def run (host : PatchHost) (files : FileSystem) :
    PatchOperation → Except PatchError Unit × FileSystem
  | write path content => host.writeFile path content files
  | remove path => host.removeFile path files

/-- One after another, up to the first that fails. -/
def runAll (host : PatchHost) (files : FileSystem) :
    List PatchOperation → Except PatchError Unit × FileSystem
  | [] => (.ok (), files)
  | operation :: rest =>
      match operation.run host files with
      | (.error error, files) => (.error error, files)
      | (.ok (), files) => runAll host files rest

end PatchOperation

/-- A file that moves is written first. -/
def FileChange.operations (path : List Char) : FileChange → List PatchOperation
  | add newContent => [.write path newContent]
  | delete _ => [.remove path]
  | update _ newContent movePath =>
      if movePath = [] then [.write path newContent]
      else [.write movePath newContent, .remove path]

structure Commit where
  changes : Dict (List Char) FileChange := .empty
  deriving DecidableEq

namespace Commit

def operations (commit : Commit) : List PatchOperation :=
  commit.changes.entries.flatMap fun entry => entry.2.operations entry.1

def apply (commit : Commit) (host : PatchHost) (files : FileSystem) :
    Except PatchError Unit × FileSystem :=
  PatchOperation.runAll host files commit.operations

end Commit

/-! ## Patches -/

namespace ApplyPatch

/-- The lines of the new file. The chunks are in the order of the file. -/
def updatedLines (path : List Char) (origLines : List Line) :
    Nat → List Chunk → Except PatchError (List Line)
  | origIndex, [] =>
      -- the count of new lines is off when the last chunk ends beyond the file
      if origLines.length < origIndex then .error .assertion
      else .ok (origLines.drop origIndex)
  | origIndex, chunk :: rest =>
      if origLines.length < chunk.origIndex then
        .error (.diff ("_get_updated_file: " ++ String.ofList path ++ ": chunk.orig_index " ++
          toString chunk.origIndex ++ " > len(lines) " ++ toString origLines.length))
      else if chunk.origIndex < origIndex then
        .error (.diff ("_get_updated_file: " ++ String.ofList path ++ ": orig_index " ++
          toString origIndex ++ " > chunk.orig_index " ++ toString chunk.origIndex))
      else
        (updatedLines path origLines (chunk.origIndex + chunk.delLines.length) rest).map
          fun lines =>
            (origLines.take chunk.origIndex).drop origIndex ++ chunk.insLines ++ lines

def getUpdatedFile (path text : List Char) (chunks : List Chunk) :
    Except PatchError (List Char) :=
  (updatedLines path (text.splitOn '\n') 0 chunks).map PatchParser.joinLines

def fileChange (orig : Dict (List Char) (List Char)) (path : List Char) :
    PatchAction → Except PatchError FileChange
  | .delete => .ok (.delete ((orig.get? path).getD []))
  | .add newFile => .ok (.add newFile)
  | .update chunks movePath =>
      let text := (orig.get? path).getD []
      (getUpdatedFile path text chunks).map fun newContent => .update text newContent movePath

/-- The changes of the actions, in their order. -/
def patchToCommit (orig : Dict (List Char) (List Char))
    (actions : List (List Char × PatchAction)) : Except PatchError Commit :=
  actions.foldlM (fun commit entry =>
    (fileChange orig entry.1 entry.2).map fun change =>
      { changes := commit.changes.set entry.1 change }) {}

def patchLines (text : List Char) : List Line :=
  (PythonText.trim text).splitOn '\n'

def textToPatch (text : List Char) (orig : Dict (List Char) (List Char)) :
    Except PatchError PatchParser :=
  let lines := patchLines text
  if lines.length < 2 ∨ !(lines.head?.any (PatchParser.startsWith "*** Begin Patch")) ∨
      lines.getLast? ≠ some "*** End Patch".toList then
    .error (.diff "Invalid patch text")
  else PatchParser.parse { currentFiles := orig, lines, index := 1 }

/-- The paths of the files to read, in some order. -/
def identifyFilesNeeded (text : List Char) : List (List Char) :=
  ((patchLines text).flatMap fun line =>
    ["*** Update File: ", "*** Delete File: "].filterMap fun header =>
      if PatchParser.startsWith header line then some (line.drop header.length) else none).dedup

def loadFiles (host : PatchHost) (files : FileSystem) (paths : List (List Char)) :
    Except PatchError (Dict (List Char) (List Char)) :=
  paths.foldlM (fun orig path =>
    (host.openFile files path).map fun content => orig.set path content) .empty

/-- Everything that comes before the first change. -/
def prepare (host : PatchHost) (text : List Char) (files : FileSystem) :
    Except PatchError (Nat × Commit) := do
  if !PatchParser.startsWith "*** Begin Patch" text then throw .assertion
  let orig ← loadFiles host files (identifyFilesNeeded text)
  let patch ← textToPatch text orig
  let commit ← patchToCommit orig patch.actions.entries
  return (patch.fuzz, commit)

def processPatch (host : PatchHost) (text : List Char) (files : FileSystem) :
    Except PatchError (Nat × Commit) × FileSystem :=
  match prepare host text files with
  | .error error => (.error error, files)
  | .ok (fuzz, commit) =>
      let (result, files) := commit.apply host files
      (result.map fun _ => (fuzz, commit), files)

end ApplyPatch

end ShuttleFlow
