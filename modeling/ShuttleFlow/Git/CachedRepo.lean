import Mathlib.Data.Option.Basic
import Mathlib.Logic.Function.Basic

/-! # Repositories in a cache

Repositories are cloned once, and updated later. A git command that fails changes nothing.
-/

namespace ShuttleFlow

/-- A repository on a server. A commit is named by its hash or by a beginning of it. -/
structure GitRemote where
  defaultBranch : String
  branches : String → Option String
  tags : String → Option String
  commits : String → Option String

/-- What a ref names, or the default branch without one. -/
def GitRemote.denotes (remote : GitRemote) : Option String → Option String
  | none => remote.branches remote.defaultBranch
  | some ref => (remote.branches ref).or ((remote.tags ref).or (remote.commits ref))

/-- What a shallow clone fetches. -/
inductive GitRefspec
  | branch (name : String)
  | tag (name : String)
  deriving DecidableEq, Repr

inductive GitHead
  | branch (name : String)
  | detached (commit : String)
  deriving DecidableEq, Repr

structure GitClone where
  url : String
  /-- The remote as of the last clone or fetch. -/
  seen : GitRemote
  /-- There is none in the clone of an empty repository. -/
  refspec : Option GitRefspec
  head : GitHead
  localBranches : String → Option String
  originBranches : String → Option String
  originHead : Option String
  tags : String → Option String
  commits : String → Option String

namespace GitClone

def headCommit (clone : GitClone) : Option String :=
  match clone.head with
  | .branch name => clone.localBranches name
  | .detached commit => some commit

/-- Move the branch that is checked out, or the detached head. -/
def moveHead (commit : String) (clone : GitClone) : GitClone :=
  match clone.head with
  | .branch name =>
      { clone with localBranches := Function.update clone.localBranches name (some commit) }
  | .detached _ => { clone with head := .detached commit }

/-- What `git checkout` takes a name for. -/
def resolve (ref : String) (clone : GitClone) : Option String :=
  (clone.localBranches ref).or
    (((clone.tags ref).or (clone.commits ref)).or (clone.originBranches ref))

end GitClone

inductive GitCommand
  | clone | fetch | checkout | resetHard | currentBranch | defaultBranch | headCommit
  deriving DecidableEq, Repr

/-- What git meets during one call. -/
structure GitHelper where
  remotes : String → GitRemote
  fails : GitCommand → Bool := fun _ => false
  /-- The tags and commits that come along with what is fetched. -/
  bringsTag : String → Bool := fun _ => false
  bringsCommit : String → Bool := fun _ => false

/-- Names that are known already stay as they are. -/
def adopt (known offered : String → Option String) (brings : String → Bool) (name : String) :
    Option String :=
  (known name).or (if brings name then offered name else none)

namespace GitHelper

variable (git : GitHelper)

/-- A clone before anything is checked out. -/
def emptyClone (url : String) : GitClone :=
  { url
    seen := git.remotes url
    refspec := none
    head := .branch (git.remotes url).defaultBranch
    localBranches := fun _ => none
    originBranches := fun _ => none
    originHead := none
    tags := adopt (fun _ => none) (git.remotes url).tags git.bringsTag
    commits := adopt (fun _ => none) (git.remotes url).commits git.bringsCommit }

def cloneBranch (url name commit : String) : GitClone :=
  { git.emptyClone url with
    refspec := some (.branch name)
    head := .branch name
    localBranches := Function.update (fun _ => none) name (some commit)
    originBranches := Function.update (fun _ => none) name (some commit)
    originHead := if name = (git.remotes url).defaultBranch then some name else none }

def cloneTag (url name commit : String) : GitClone :=
  { git.emptyClone url with
    refspec := some (.tag name)
    head := .detached commit
    tags := Function.update (git.emptyClone url).tags name (some commit) }

/-- Clone one branch, or one tag, and nothing else. -/
def clone (url : String) (branch : Option String) : Option GitClone :=
  if git.fails .clone then none
  else
    match branch with
    | none =>
        match (git.remotes url).denotes none with
        | none => some (git.emptyClone url)
        | some commit => some (git.cloneBranch url (git.remotes url).defaultBranch commit)
    | some name =>
        match (git.remotes url).branches name, (git.remotes url).tags name with
        | some commit, _ => some (git.cloneBranch url name commit)
        | none, some commit => some (git.cloneTag url name commit)
        | none, none => none

/-- What comes along with a fetch. -/
def look (clone : GitClone) : GitClone :=
  { clone with
    seen := git.remotes clone.url
    tags := adopt clone.tags (git.remotes clone.url).tags git.bringsTag
    commits := adopt clone.commits (git.remotes clone.url).commits git.bringsCommit }

/-- Fetch what was cloned. It fails when the remote has it no more. -/
def fetch (clone : GitClone) : Option GitClone :=
  if git.fails .fetch then none
  else
    match clone.refspec with
    | none => some (git.look clone)
    | some (.branch name) =>
        ((git.remotes clone.url).branches name).map fun commit =>
          { git.look clone with
            originBranches := Function.update clone.originBranches name (some commit) }
    | some (.tag name) =>
        ((git.remotes clone.url).tags name).map fun commit =>
          { git.look clone with tags := Function.update (git.look clone).tags name (some commit) }

/-- A local branch, else a tag or a commit, else a branch of the remote. -/
def checkout (ref : String) (clone : GitClone) : Option GitClone :=
  if git.fails .checkout then none
  else if (clone.localBranches ref).isSome then some { clone with head := .branch ref }
  else
    match (clone.tags ref).or (clone.commits ref), clone.originBranches ref with
    | some commit, _ => some { clone with head := .detached commit }
    | none, some commit =>
        some { clone with
          head := .branch ref
          localBranches := Function.update clone.localBranches ref (some commit) }
    | none, none => none

/-- Reset to a branch of the remote. -/
def resetHard (branch : String) (clone : GitClone) : Option GitClone :=
  if git.fails .resetHard then none
  else (clone.originBranches branch).map fun commit => clone.moveHead commit

/-- The name is a longer one when there is a tag of that name too. -/
def currentBranch (clone : GitClone) : Option (Option String) :=
  if git.fails .currentBranch then none
  else
    match clone.head with
    | .detached _ => some none
    | .branch name =>
        if (clone.localBranches name).isNone then none
        else some (some (if (clone.tags name).isSome then "heads/" ++ name else name))

def getDefaultBranch (clone : GitClone) : Option String :=
  if git.fails .defaultBranch then none else clone.originHead

def headCommit (clone : GitClone) : Option String :=
  if git.fails .headCommit then none else clone.headCommit

/-! ## Cloning and updating -/

def tryResetToOrigin (branch : String) (clone : GitClone) : GitClone :=
  (git.resetHard branch clone).getD clone

def checkoutRef (ref : String) (clone : GitClone) : Except GitCommand Unit × GitClone :=
  match git.checkout ref clone with
  | none => (.error .checkout, clone)
  | some clone =>
      match git.currentBranch clone with
      | none => (.error .currentBranch, clone)
      | some none => (.ok (), clone)
      | some (some branch) => (.ok (), git.tryResetToOrigin branch clone)

def tryCheckoutAndReset (ref : String) (clone : GitClone) : GitClone :=
  (git.checkoutRef ref clone).2

def recoverFromDetachedHead (clone : GitClone) : GitClone :=
  match git.getDefaultBranch clone with
  | none => clone
  | some branch =>
      match git.checkout branch clone with
      | none => clone
      | some clone => git.tryResetToOrigin branch clone

def updateRepository (ref : Option String) (clone : GitClone) :
    Except GitCommand Unit × GitClone :=
  match git.fetch clone with
  | none => (.ok (), clone)
  | some clone =>
      match ref with
      | some ref => (.ok (), git.tryCheckoutAndReset ref clone)
      | none =>
          match git.currentBranch clone with
          | none => (.error .currentBranch, clone)
          | some (some branch) => (.ok (), git.tryResetToOrigin branch clone)
          | some none => (.ok (), git.recoverFromDetachedHead clone)

/-- The repository at a path of the cache is cloned, or brought to the ref. -/
def doCloneOrUpdate (url : String) (ref : Option String) (update : Bool)
    (repo : Option GitClone) : Except GitCommand Unit × Option GitClone :=
  match repo with
  | none =>
      match git.clone url ref with
      | none => (.error .clone, none)
      | some clone => (.ok (), some clone)
  | some clone =>
      match update, ref with
      | true, ref => (git.updateRepository ref clone).map id some
      | false, some ref => (git.checkoutRef ref clone).map id some
      | false, none => (.ok (), some clone)

end GitHelper

end ShuttleFlow
