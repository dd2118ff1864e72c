import ShuttleFlow.Io.Cache
import ShuttleFlow.Io.Disk

/-! # A file store with a cache

Text that is written or read is cached under its full path. What the operations
say about each file is recorded next to the store, without cache and disk.
-/

namespace ShuttleFlow

inductive FileContents
  | text (contents : String)
  | bytes (contents : ByteArray)

namespace FileContents

def encode : FileContents → ByteArray
  | text contents => contents.toUTF8
  | bytes contents => contents

/-- The text that was written. There is none when bytes do not decode. -/
def text? : FileContents → Option String
  | text contents => some contents
  | bytes contents => String.fromUTF8? contents

/-- Bytes are never cached, and text only if it fits into the memory. -/
def cacheable (maxMemory : Int) : FileContents → Bool
  | text contents => ¬ MemoryLRUCache.getSize contents > maxMemory
  | bytes _ => false

end FileContents

structure LocalFileStore (lru : LRUCache FullPath) where
  root : FullPath
  cache : MemoryLRUCache lru
  disk : Disk

inductive FileOperation
  | write (path : String) (contents : FileContents)
  | read (path : String)
  | delete (path : String)

namespace LocalFileStore

variable {lru : LRUCache FullPath}

def init (root : FullPath) (disk : Disk) (cacheLimitSize cacheMemorySize : Int) :
    LocalFileStore lru :=
  { root, cache := .init cacheMemorySize cacheLimitSize, disk }

/-- Binary content is not cached. -/
def cacheWritten (cache : MemoryLRUCache lru) (full : FullPath) :
    FileContents → MemoryLRUCache lru
  | .text contents => cache.setItem full contents
  | .bytes _ => cache

def write (store : LocalFileStore lru) (path : String) (contents : FileContents) :
    Except FileError (LocalFileStore lru) :=
  match getFullPath store.root path with
  | none => .error .escapesRoot
  | some full =>
      match store.disk.write full.parts contents.encode with
      | .ok disk => .ok { store with disk, cache := cacheWritten store.cache full contents }
      | .error error => .error error

def read (store : LocalFileStore lru) (path : String) :
    Except FileError String × LocalFileStore lru :=
  match getFullPath store.root path with
  | none => (.error .escapesRoot, store)
  | some full =>
      match store.cache.get? full with
      | some value => (.ok value, { store with cache := store.cache.touch full })
      | none =>
          match store.disk.readText full.parts with
          | .ok result => (.ok result, { store with cache := store.cache.setItem full result })
          | .error error => (.error error, store)

/-- Delete a file or a directory. Errors are logged and ignored. -/
def delete (store : LocalFileStore lru) (path : String) : LocalFileStore lru :=
  match getFullPath store.root path with
  | none => store
  | some full =>
      if (store.disk.files full.parts).isSome then
        { store with
          disk := store.disk.remove full.parts
          cache := (store.cache.delItem full).getD store.cache }
      else if store.disk.directories full.parts then
        { store with disk := store.disk.removeTree full.parts, cache := store.cache.clear }
      else store

/-- Operations that raise leave the store as it is. -/
def apply (store : LocalFileStore lru) : FileOperation → LocalFileStore lru
  | .write path contents =>
      match store.write path contents with
      | .ok store => store
      | .error _ => store
  | .read path => (store.read path).2
  | .delete path => store.delete path

end LocalFileStore

/-! ## The record -/

/-- What the operations so far say about a file. -/
inductive Recorded
  | unknown
  | text (contents : String)
  | gone
  deriving DecidableEq, Repr

namespace Recorded

/-- The file holds what was written last. A deleted path above it is a directory now. -/
def written (record : List String → Recorded) (path : List String) (contents : FileContents) :
    List String → Recorded := fun other =>
  if other = path then
    match contents.text? with
    | some contents => .text contents
    | none => .unknown
  else if (Disk.parents path).contains other ∧ record other = .gone then .unknown
  else record other

end Recorded

namespace LocalFileStore

variable {lru : LRUCache FullPath}

def record (store : LocalFileStore lru) (record : List String → Recorded) :
    FileOperation → List String → Recorded
  | .write path contents =>
      match getFullPath store.root path with
      | none => record
      | some full =>
          match store.disk.write full.parts contents.encode with
          | .ok _ => Recorded.written record full.parts contents
          | .error _ => record
  | .read _ => record
  | .delete path =>
      match getFullPath store.root path with
      | none => record
      | some full =>
          if (store.disk.files full.parts).isSome then Function.update record full.parts .gone
          else if store.disk.directories full.parts then fun other =>
            if full.parts <+: other then .gone else record other
          else record

/-- A store and what has been recorded about its files. -/
def run (store : LocalFileStore lru) (operations : List FileOperation) :
    LocalFileStore lru × (List String → Recorded) :=
  operations.foldl (fun state operation =>
    (state.1.apply operation, state.1.record state.2 operation)) (store, fun _ => .unknown)

/-! ## Coherence -/

/-- Reading the disk. -/
def uncachedRead (store : LocalFileStore lru) (path : String) : Except FileError String :=
  match getFullPath store.root path with
  | none => .error .escapesRoot
  | some full => store.disk.readText full.parts

/-- Files read as they have been written, as if there were no cache. -/
structure ReadsAsWritten (store : LocalFileStore lru) (record : List String → Recorded) :
    Prop where
  uncached : ∀ path, (store.read path).1 = store.uncachedRead path
  text : ∀ path full text, getFullPath store.root path = some full →
    record full.parts = .text text → (store.read path).1 = .ok text
  gone : ∀ path full, getFullPath store.root path = some full →
    record full.parts = .gone → (store.read path).1 = .error .notFound

/-- What the operation writes is cached, or nothing else is cached for the file. -/
def refreshes (store : LocalFileStore lru) : FileOperation → Bool
  | .write path contents =>
      match getFullPath store.root path with
      | none => true
      | some full =>
          match store.disk.write full.parts contents.encode with
          | .ok _ => contents.cacheable store.cache.maxMemory ||
              (store.cache.get? full).all fun cached => contents.text? = some cached
          | .error _ => true
  | .read _ => true
  | .delete _ => true

end LocalFileStore

namespace FileOperation

def path : FileOperation → String
  | write path _ => path
  | read path => path
  | delete path => path

/-- Written text has no carriage returns, and no path starts with two slashes. -/
def plain (root : FullPath) (operation : FileOperation) : Bool :=
  ((getFullPath root operation.path).all fun full => !full.doubleSlash) &&
    match operation with
    | write _ contents => contents.text?.any fun text => '\r' ∉ text.toList
    | read _ => true
    | delete _ => true

theorem plain.singleSlash {root : FullPath} {operation : FileOperation}
    (hplain : operation.plain root = true) {full : FullPath}
    (hfull : getFullPath root operation.path = some full) : full.doubleSlash = false := by
  unfold plain at hplain
  rw [hfull, Bool.and_eq_true] at hplain
  simpa using hplain.1

theorem plain.text {root : FullPath} {path : String} {contents : FileContents}
    (hplain : (write path contents).plain root = true) :
    ∃ text, contents.text? = some text ∧ '\r' ∉ text.toList := by
  unfold plain at hplain
  rw [Bool.and_eq_true] at hplain
  obtain ⟨text, htext, hno⟩ := (Option.any_eq_true ..).mp hplain.2
  exact ⟨text, htext, of_decide_eq_true hno⟩

end FileOperation

end ShuttleFlow
