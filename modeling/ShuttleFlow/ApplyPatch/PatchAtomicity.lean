import ShuttleFlow.ApplyPatch.ApplyPatch

/-! # Whether a patch that fails changes files

Reading and parsing change nothing. The changes are made one after another, and those before the
one that fails stay.
-/

namespace ShuttleFlow

namespace PatchOperation

/-- What is at a path when an operation is done. -/
def leaves (host : PatchHost) (path : List Char) (content : Option (List Char)) :
    PatchOperation → Option (List Char)
  | write target text => if path = host.resolve target then some text else content
  | remove target => if path = host.resolve target then none else content

/-- Where a failing operation has written a part of a text. -/
def cutAt (host : PatchHost) (files : FileSystem) : PatchOperation → Option (List Char × List Char)
  | remove _ => none
  | write target text =>
      match host.resolvePath target with
      | .error _ => none
      | .ok resolved =>
          match files.makeParents (FileSystem.parentsFrom [] resolved) with
          | none => none
          | some files =>
              match files resolved, host.writing resolved text with
              | some .directory, _ => none
              | _, .cut part => some (resolved, part)
              | _, _ => none

/-- What is at a path when an operation has failed. -/
def remains (host : PatchHost) (files : FileSystem) (path : List Char)
    (content : Option (List Char)) (operation : PatchOperation) : Option (List Char) :=
  match operation.cutAt host files with
  | none => content
  | some (target, part) => if path = target then some part else content

end PatchOperation

namespace ApplyPatch

/-- The patch is not parsed, or the operations up to the one that fails leave every file with the
content it had: the last of them that is about a file puts it back. -/
def FailsHarmlessly (host : PatchHost) (text : List Char) (before : FileSystem) : Prop :=
  ∀ fuzz commit, prepare host text before = .ok (fuzz, commit) →
    ∃ done failing rest middle error after,
      commit.operations = done ++ failing :: rest ∧
      PatchOperation.runAll host before done = (.ok (), middle) ∧
      failing.run host middle = (.error error, after) ∧
      ∀ path, failing.remains host middle path
        (done.foldl (PatchOperation.leaves host path) (before.contentAt path)) =
          before.contentAt path

end ApplyPatch

/-! ## The content of files -/

namespace FileSystem

variable {files after : FileSystem}

theorem contentAt_update (path : List Char) (node : Option FileNode) (other : List Char) :
    contentAt (Function.update files path node) other =
      if other = path then node.bind FileNode.content? else files.contentAt other := by
  unfold contentAt
  rw [Function.update_apply]
  split <;> rfl

/-- Only directories are made. -/
theorem contentAt_makeParents {parents : List (List Char)}
    (hparents : files.makeParents parents = some after) (path : List Char) :
    after.contentAt path = files.contentAt path := by
  induction parents generalizing files with
  | nil =>
      cases hparents
      rfl
  | cons parent rest ih =>
      unfold makeParents at hparents
      split at hparents
      next => cases hparents
      next => exact ih hparents
      next hnone =>
        rw [ih hparents, contentAt_update]
        split
        next heq =>
          rw [heq, contentAt, hnone]
          rfl
        next => rfl

end FileSystem

namespace PatchOperation

variable {host : PatchHost} {files after : FileSystem} {operation : PatchOperation}

theorem resolvePath_ok {path resolved : List Char}
    (hresolve : host.resolvePath path = .ok resolved) : resolved = host.resolve path := by
  unfold PatchHost.resolvePath at hresolve
  split at hresolve
  next =>
    cases hresolve
    rfl
  next => cases hresolve

theorem contentAt_run (hrun : operation.run host files = (.ok (), after)) (path : List Char) :
    after.contentAt path = operation.leaves host path (files.contentAt path) := by
  cases operation with
  | write target text =>
      change host.writeFile target text files = _ at hrun
      unfold PatchHost.writeFile at hrun
      unfold leaves
      split at hrun
      next => cases hrun
      next resolved hresolve =>
        obtain rfl := resolvePath_ok hresolve
        split at hrun
        next => cases hrun
        next made hmade =>
          split at hrun
          next => cases hrun
          next => cases hrun
          next => cases hrun
          next =>
            cases hrun
            rw [FileSystem.contentAt_update, FileSystem.contentAt_makeParents hmade]
            rfl
  | remove target =>
      change host.removeFile target files = _ at hrun
      unfold PatchHost.removeFile at hrun
      unfold leaves
      split at hrun
      next => cases hrun
      next resolved hresolve =>
        obtain rfl := resolvePath_ok hresolve
        split at hrun
        next =>
          split at hrun
          next =>
            cases hrun
            rw [FileSystem.contentAt_update]
            rfl
          next => cases hrun
        next => cases hrun

theorem contentAt_run_error {error : PatchError}
    (hrun : operation.run host files = (.error error, after)) (path : List Char) :
    after.contentAt path = operation.remains host files path (files.contentAt path) := by
  cases operation with
  | write target text =>
      change host.writeFile target text files = _ at hrun
      unfold PatchHost.writeFile at hrun
      unfold remains cutAt
      dsimp only
      cases hresolve : host.resolvePath target with
      | error failed =>
          rw [hresolve] at hrun
          cases hrun
          rfl
      | ok resolved =>
          rw [hresolve] at hrun
          dsimp only at hrun ⊢
          cases hmade : files.makeParents (FileSystem.parentsFrom [] resolved) with
          | none =>
              rw [hmade] at hrun
              cases hrun
              rfl
          | some made =>
              rw [hmade] at hrun
              dsimp only at hrun ⊢
              have hkept := FileSystem.contentAt_makeParents hmade path
              cases hnode : made resolved with
              | none =>
                  rw [hnode] at hrun
                  cases hwrite : host.writing resolved text with
                  | written =>
                      rw [hwrite] at hrun
                      cases hrun
                  | refused =>
                      rw [hwrite] at hrun
                      cases hrun
                      exact hkept
                  | cut part =>
                      rw [hwrite] at hrun
                      cases hrun
                      rw [FileSystem.contentAt_update, hkept]
                      rfl
              | some node =>
                  rw [hnode] at hrun
                  cases node with
                  | directory =>
                      cases hrun
                      exact hkept
                  | file content =>
                      cases hwrite : host.writing resolved text with
                      | written =>
                          rw [hwrite] at hrun
                          cases hrun
                      | refused =>
                          rw [hwrite] at hrun
                          cases hrun
                          exact hkept
                      | cut part =>
                          rw [hwrite] at hrun
                          cases hrun
                          rw [FileSystem.contentAt_update, hkept]
                          rfl
  | remove target =>
      change host.removeFile target files = _ at hrun
      unfold PatchHost.removeFile at hrun
      have hsame : after = files := by
        split at hrun
        next =>
          cases hrun
          rfl
        next =>
          split at hrun
          next =>
            split at hrun
            next => cases hrun
            next =>
              cases hrun
              rfl
          next =>
            cases hrun
            rfl
      rw [hsame]
      rfl

theorem contentAt_runAll {operations : List PatchOperation}
    (hrun : runAll host files operations = (.ok (), after)) (path : List Char) :
    after.contentAt path = operations.foldl (leaves host path) (files.contentAt path) := by
  induction operations generalizing files with
  | nil =>
      cases hrun
      rfl
  | cons operation rest ih =>
      unfold runAll at hrun
      split at hrun
      next => cases hrun
      next middle hmiddle =>
        rw [ih hrun, contentAt_run hmiddle]
        rfl

/-- A run that fails is done up to one operation. -/
theorem exists_failing {operations : List PatchOperation} {error : PatchError}
    (hrun : runAll host files operations = (.error error, after)) :
    ∃ done failing rest middle, operations = done ++ failing :: rest ∧
      runAll host files done = (.ok (), middle) ∧
      failing.run host middle = (.error error, after) := by
  induction operations generalizing files with
  | nil => cases hrun
  | cons operation rest ih =>
      unfold runAll at hrun
      split at hrun
      next failed hfailed =>
        cases hrun
        exact ⟨[], operation, rest, files, rfl, rfl, hfailed⟩
      next middle hmiddle =>
        obtain ⟨done, failing, last, before, rfl, hdone, hfailing⟩ := ih hrun
        refine ⟨operation :: done, failing, last, before, rfl, ?_, hfailing⟩
        rw [runAll, hmiddle]
        exact hdone

/-- What follows the failing operation does not matter. -/
theorem runAll_of_failing {done rest : List PatchOperation} {failing : PatchOperation}
    {middle : FileSystem} {error : PatchError}
    (hdone : runAll host files done = (.ok (), middle))
    (hfailing : failing.run host middle = (.error error, after)) :
    runAll host files (done ++ failing :: rest) = (.error error, after) := by
  induction done generalizing files with
  | nil =>
      cases hdone
      rw [List.nil_append, runAll, hfailing]
  | cons operation done ih =>
      unfold runAll at hdone
      rw [List.cons_append, runAll]
      split at hdone
      next => cases hdone
      next next hnext => exact ih hdone

end PatchOperation

namespace ApplyPatch

variable {host : PatchHost} {text : List Char} {before after : FileSystem}

/-- A workspace with plain paths. Two dots lead out of it. -/
def workspace : PatchHost where
  workspaceRoot := "/ws".toList
  resolve path :=
    if "../".toList <+: path then '/' :: path.drop 3 else "/ws/".toList ++ path

def patchText (body : List String) : List Char :=
  ("\n".intercalate (["*** Begin Patch"] ++ body ++ ["*** End Patch"])).toList

def noFiles : FileSystem := fun _ => none

def refusedPatch : List Char := patchText ["*** Add File: ../b", "+y"]

def addedThenRefused : List Char :=
  patchText ["*** Add File: a", "+x", "*** Add File: ../b", "+y"]

theorem eq_of_fst {outcome : Except PatchError (Nat × Commit) × FileSystem} {error : PatchError}
    (hfirst : outcome.1 = .error error) : outcome = (.error error, outcome.2) := by
  rw [← hfirst]

end ApplyPatch

end ShuttleFlow
