import Mathlib.Data.List.Basic
import Mathlib.Logic.Function.Basic

/-! # Paths and files

POSIX paths are normalized lexically. Two leading slashes are kept by the
normalization, although they name the same file as one.
-/

namespace ShuttleFlow

/-! ## Paths -/

/-- A normalized absolute path. -/
structure FullPath where
  doubleSlash : Bool := false
  parts : List String
  deriving DecidableEq, Repr

def toPosixPath (path : List Char) : List Char :=
  path.map fun char => if char = '\\' then '/' else char

/-- Resolve empty, current and parent components of an absolute path. -/
def normParts (parts : List String) : List String :=
  parts.foldl (fun done part =>
    if part = "" ∨ part = "." then done
    else if part = ".." then done.dropLast
    else done ++ [part]) []

def splitParts (path : List Char) : List String :=
  (path.splitOn '/').map String.ofList

/-- Join a path to a root and normalize it. An absolute path discards the root. -/
def joinPath (root : FullPath) (path : List Char) : FullPath :=
  match path with
  | '/' :: '/' :: '/' :: _ => ⟨false, normParts (splitParts path)⟩
  | '/' :: '/' :: _ => ⟨true, normParts (splitParts path)⟩
  | '/' :: _ => ⟨false, normParts (splitParts path)⟩
  | _ => ⟨root.doubleSlash, normParts (root.parts ++ splitParts path)⟩

/-- The path of a file below the root. There is none when it escapes the root. -/
def getFullPath (root : FullPath) (path : String) : Option FullPath :=
  let relative := if path.toList.head? = some '/' then path.toList.tail else path.toList
  let full := joinPath root (toPosixPath relative)
  -- the common path never starts with two slashes
  if root.doubleSlash = false ∧ root.parts <+: full.parts then some full else none

example : getFullPath ⟨false, ["store"]⟩ "/a/../b\\c" = some ⟨false, ["store", "b", "c"]⟩ := by
  decide

example : getFullPath ⟨false, ["store"]⟩ "../other" = none := by decide

/-- A component that is neither empty nor the current or the parent directory. -/
def PlainPart (part : String) : Prop :=
  part ≠ "" ∧ part ≠ "." ∧ part ≠ ".."

theorem normParts_concat {part : String} (hplain : PlainPart part) (path : List String) :
    normParts (path ++ [part]) = normParts path ++ [part] := by
  obtain ⟨hempty, hdot, hparent⟩ := hplain
  simp [normParts, List.foldl_append, hempty, hdot, hparent]

/-! ## Text -/

/-- Reading text turns every line ending into a newline. -/
def translateNewlines : List Char → List Char
  | '\r' :: '\n' :: rest => '\n' :: translateNewlines rest
  | '\r' :: rest => '\n' :: translateNewlines rest
  | char :: rest => char :: translateNewlines rest
  | [] => []

theorem translateNewlines_of_notMem {text : List Char} (hplain : '\r' ∉ text) :
    translateNewlines text = text := by
  induction text with
  | nil => rfl
  | cons char rest ih =>
      rw [List.mem_cons, not_or] at hplain
      unfold translateNewlines
      split
      next heq => exact absurd (List.cons.inj heq).1.symm hplain.1
      next heq => exact absurd (List.cons.inj heq).1.symm hplain.1
      next heq =>
        obtain ⟨rfl, rfl⟩ := List.cons.inj heq
        rw [ih hplain.2]
      next heq => cases heq

/-- The text of a file, opened for reading. -/
def decodeText (bytes : ByteArray) : Option String :=
  (String.fromUTF8? bytes).map fun text => String.ofList (translateNewlines text.toList)

theorem fromUTF8?_toUTF8 (text : String) : String.fromUTF8? text.toUTF8 = some text := by
  simp [String.fromUTF8?, text.isValidUTF8, String.fromUTF8]

theorem decodeText_toUTF8 {text : String} (hplain : '\r' ∉ text.toList) :
    decodeText text.toUTF8 = some text := by
  rw [decodeText, fromUTF8?_toUTF8, Option.map_some, translateNewlines_of_notMem hplain,
    String.ofList_toList]

/-! ## Files -/

/-- No path is both a file and a directory. -/
structure Disk where
  files : List String → Option ByteArray
  directories : List String → Bool
  disjoint : ∀ path, (files path).isSome → directories path = false

inductive FileError
  | escapesRoot | notFound | isADirectory | notADirectory | unicodeDecode
  deriving DecidableEq, Repr

namespace Disk

/-- The directories a file lies in. -/
def parents (path : List String) : List (List String) := (List.range path.length).map path.take

theorem notMem_parents (path : List String) : path ∉ parents path := by
  intro hmem
  obtain ⟨count, hcount, hsame⟩ := List.mem_map.mp hmem
  have hlength := congrArg List.length hsame
  rw [List.length_take] at hlength
  have hlt := List.mem_range.mp hcount
  omega

/-- Create the directories above a file and write it. -/
def write (disk : Disk) (path : List String) (bytes : ByteArray) : Except FileError Disk :=
  if hparents : ∀ parent ∈ parents path, disk.files parent = none then
    if hdirectory : disk.directories path then .error .isADirectory
    else .ok
      { files := Function.update disk.files path (some bytes)
        directories := fun other => disk.directories other || decide (other ∈ parents path)
        disjoint := fun other hfile => by
          by_cases hsame : other = path
          · rw [hsame]
            simp [hdirectory, notMem_parents path]
          · rw [Function.update_of_ne hsame] at hfile
            have hparent : other ∉ parents path :=
              fun hmem => by simp [hparents other hmem] at hfile
            simp [disk.disjoint other hfile, hparent] }
  else .error .notADirectory

def readText (disk : Disk) (path : List String) : Except FileError String :=
  match disk.files path with
  | some bytes =>
      match decodeText bytes with
      | some text => .ok text
      | none => .error .unicodeDecode
  | none => .error (if disk.directories path then .isADirectory else .notFound)

def remove (disk : Disk) (path : List String) : Disk where
  files := Function.update disk.files path none
  directories := disk.directories
  disjoint other hfile := by
    by_cases hsame : other = path
    · simp [hsame] at hfile
    · rw [Function.update_of_ne hsame] at hfile
      exact disk.disjoint other hfile

/-- Remove a directory and everything below it. -/
def removeTree (disk : Disk) (path : List String) : Disk where
  files other := if path <+: other then none else disk.files other
  directories other := if path <+: other then false else disk.directories other
  disjoint other hfile := by
    split
    · rfl
    next hother =>
      rw [if_neg hother] at hfile
      exact disk.disjoint other hfile

variable {disk written : Disk} {path : List String} {bytes : ByteArray}

theorem write_spec (hwrite : disk.write path bytes = .ok written) :
    written.files = Function.update disk.files path (some bytes) ∧
      ∀ other, written.directories other =
        (disk.directories other || decide (other ∈ parents path)) := by
  unfold write at hwrite
  split at hwrite
  · split at hwrite
    · cases hwrite
    · cases hwrite
      exact ⟨rfl, fun _ => rfl⟩
  · cases hwrite

theorem readText_of_files {other : Disk} (hfiles : other.files path = disk.files path)
    {text : String} (hread : disk.readText path = .ok text) : other.readText path = .ok text := by
  unfold readText at hread ⊢
  rw [hfiles]
  split at hread
  · exact hread
  · cases hread

theorem readText_of_decode {text : String} (hbytes : disk.files path = some bytes)
    (hdecode : decodeText bytes = some text) : disk.readText path = .ok text := by
  simp [readText, hbytes, hdecode]

theorem readText_of_gone (hfile : disk.files path = none)
    (hdirectory : disk.directories path = false) : disk.readText path = .error .notFound := by
  simp [readText, hfile, hdirectory]

end Disk

end ShuttleFlow
