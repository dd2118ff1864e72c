import ShuttleFlow.Io.Cache

/-! # A file store in memory

The files are the entries of a bounded cache. Directories are nothing but common
beginnings of paths.
-/

namespace ShuttleFlow

/-! ## Paths as texts -/

namespace PathText

def startsWith (path start : String) : Bool := start.toList.isPrefixOf path.toList

/-- What follows the start. -/
def after (path start : String) : List Char := path.toList.drop start.toList.length

/-- The components of what follows a directory, without an empty first one. -/
def components (directory path : String) : List (List Char) :=
  match (after path directory).splitOn '/' with
  | [] :: rest => rest
  | parts => parts

/-- `os.path.join` with a component. -/
def join (directory : String) (name : List Char) : String :=
  if directory = "" ∨ directory.toList.getLast? = some '/' then
    String.ofList (directory.toList ++ name)
  else String.ofList (directory.toList ++ '/' :: name)

/-- The path of a directory ends with a slash. -/
def directoryPath (directory : String) (name : List Char) : String :=
  let path := join directory name
  if path.toList.getLast? = some '/' then path else path ++ "/"

end PathText

open PathText

structure InMemoryFileStore (lru : ListedLRUCache String) where
  files : MemoryLRUCache lru.toLRUCache

inductive StoreOperation
  | write (path contents : String)
  | read (path : String)
  | list (path : String)
  | delete (path : String)
  deriving DecidableEq

inductive StoreOutcome
  | done
  | contents (text : String)
  | fileNotFound
  | paths (paths : List String)
  | indexError
  deriving DecidableEq

namespace InMemoryFileStore

variable {lru : ListedLRUCache String}

def init (maxSize maxMemory : Int) : InMemoryFileStore lru := ⟨.init maxMemory maxSize⟩

def keys (store : InMemoryFileStore lru) : List String := lru.keys store.files.entries

def write (store : InMemoryFileStore lru) (path contents : String) : InMemoryFileStore lru :=
  ⟨store.files.setItem path contents⟩

def read (store : InMemoryFileStore lru) (path : String) :
    StoreOutcome × InMemoryFileStore lru :=
  match store.files.get? path with
  | none => (.fileNotFound, store)
  | some contents => (.contents contents, ⟨store.files.touch path⟩)

/-- The loop of `list`. There is no result when it raises an `IndexError`. -/
def listFrom (path : String) (files : List String) : List String → Option (List String)
  | [] => some files
  | file :: rest =>
      if startsWith file path then
        match components path file with
        | [] => none
        | [_] => listFrom path (files ++ [file]) rest
        | name :: _ =>
            let directory := directoryPath path name
            if files.contains directory then listFrom path files rest
            else listFrom path (files ++ [directory]) rest
      else listFrom path files rest

def list (store : InMemoryFileStore lru) (path : String) : StoreOutcome :=
  match listFrom path [] store.keys with
  | some files => .paths files
  | none => .indexError

def delete (store : InMemoryFileStore lru) (path : String) : InMemoryFileStore lru :=
  let keysToDelete := store.keys.filter fun key => startsWith key path
  ⟨keysToDelete.foldl (fun files key => (files.delItem key).getD files) store.files⟩

def step (store : InMemoryFileStore lru) : StoreOperation → StoreOutcome × InMemoryFileStore lru
  | .write path contents => (.done, store.write path contents)
  | .read path => store.read path
  | .list path => (store.list path, store)
  | .delete path => (.done, store.delete path)

end InMemoryFileStore

end ShuttleFlow
