import Mathlib.Data.List.Induction
import ShuttleFlow.FileEditor.CheckedEditor

/-! # Undoing edits

What undoing is for: every file has a stack of the contents before its edits, and undoing
takes the latest. The editor keeps these stacks in its history, below the content a file was
created with.
-/

namespace ShuttleFlow

/-- Files, and the contents before the edits that are not undone, the latest first. -/
structure UndoStacks where
  files : List Char → Option (List Char)
  previous : List Char → List (List Char)

namespace UndoStacks

def start (files : List Char → Option (List Char)) : UndoStacks :=
  { files, previous := fun _ => [] }

def change (path text : List Char) (stack : List (List Char)) (spec : UndoStacks) : UndoStacks :=
  { files := Function.update spec.files path (some text)
    previous := Function.update spec.previous path stack }

def create (host : HostPaths) (path : List Char) (fileText : Option (List Char))
    (spec : UndoStacks) : UndoStacks :=
  match fileText, host.openError path with
  | some text, none => spec.change path text (spec.previous path)
  | _, _ => spec

def undoEdit (path : List Char) (spec : UndoStacks) : UndoStacks :=
  match spec.previous path with
  | [] => spec
  | old :: earlier => spec.change path old earlier

def applyEdit (path : List Char) (command : EditorCommand) (spec : UndoStacks) : UndoStacks :=
  match FileEditor.edit path ((spec.files path).getD []) command with
  | .error _ => spec
  | .ok (newText, _) =>
      spec.change path newText ((spec.files path).getD [] :: spec.previous path)

/-- A rejected call does nothing. -/
def call (host : HostPaths) (spec : UndoStacks) (path : List Char) (command : EditorCommand) :
    UndoStacks :=
  match FileEditor.validatePath host spec.files path command, command with
  | .error _, _ => spec
  | .ok (), .create fileText => spec.create host path fileText
  | .ok (), .undoEdit => spec.undoEdit path
  | .ok (), command => spec.applyEdit path command

def run (host : HostPaths) (spec : UndoStacks) (calls : List (List Char × EditorCommand)) :
    UndoStacks :=
  calls.foldl (fun spec call => spec.call host call.1 call.2) spec

/-- Files have plain line endings, and few enough edits are not undone. -/
structure Within (limit : Nat) (spec : UndoStacks) : Prop where
  plain : ∀ path text, spec.files path = some text → '\r' ∉ text
  room : ∀ path, (spec.previous path).length < limit

variable {host : HostPaths} {spec : UndoStacks} {path other : List Char}
  {command : EditorCommand}

theorem Within.start {limit : Nat} {files : List Char → Option (List Char)}
    (hplain : ∀ path text, files path = some text → '\r' ∉ text) (hlimit : 0 < limit) :
    (start files).Within limit where
  plain := hplain
  room := fun _ => hlimit

theorem Within.change {limit : Nat} {stack : List (List Char)} (path : List Char)
    {text : List Char} (hwithin : spec.Within limit) (hplain : '\r' ∉ text)
    (hroom : stack.length < limit) :
    (spec.change path text stack).Within limit where
  plain := by
    intro other found hfile
    rcases eq_or_ne other path with rfl | hne
    · simp only [UndoStacks.change, Function.update_self] at hfile
      rwa [← Option.some.inj hfile]
    · simp only [UndoStacks.change, Function.update_of_ne hne] at hfile
      exact hwithin.plain other found hfile
  room := by
    intro other
    rcases eq_or_ne other path with rfl | hne
    · simp only [UndoStacks.change, Function.update_self]
      exact hroom
    · simp only [UndoStacks.change, Function.update_of_ne hne]
      exact hwithin.room other

end UndoStacks

namespace FileEditor

/-! ## The history behind a stack -/

/-- Below the stack there may be the content the file was created with. -/
inductive Backs (manager : FileHistoryManager) (path : List Char) (file : Option (List Char))
    (stack : List (List Char)) : Prop
  | found (hkeeps : manager.Keeps path stack.reverse)
  | created (text : List Char) (hfile : file = some text)
      (hkeeps : manager.Keeps path (stack.getLast?.getD text :: stack.reverse))

variable {manager : FileHistoryManager} {path text : List Char} {file : Option (List Char)}
  {stack : List (List Char)}

theorem Backs.create (hbacks : Backs manager path none []) (hroom : 0 < manager.maxHistoryPerFile) :
    Backs (manager.addHistory path text) path (some text) [] := by
  cases hbacks with
  | found hkeeps => exact .created text rfl (hkeeps.addHistory hroom)
  | created text hfile => cases hfile

theorem Backs.edit {newText : List Char} (hbacks : Backs manager path (some text) stack)
    (hroom : stack.length + 1 < manager.maxHistoryPerFile) :
    Backs (manager.addHistory path text) path (some newText) (text :: stack) := by
  cases hbacks with
  | found hkeeps =>
      refine .found ?_
      rw [List.reverse_cons]
      refine hkeeps.addHistory ?_
      rw [List.length_reverse]
      exact Nat.lt_of_succ_lt hroom
  | created current hfile hkeeps =>
      cases hfile
      refine .created newText rfl ?_
      rw [List.reverse_cons, ← List.cons_append, List.getLast?_cons, Option.getD_some]
      refine hkeeps.addHistory ?_
      rw [List.length_cons, List.length_reverse]
      exact hroom

theorem Backs.undo {old : List Char} (hbacks : Backs manager path file (old :: stack)) :
    (manager.popLastHistory path).1 = some old ∧
      Backs (manager.popLastHistory path).2 path (some old) stack := by
  cases hbacks with
  | found hkeeps =>
      rw [List.reverse_cons] at hkeeps
      exact ⟨hkeeps.popLastHistory.1, .found hkeeps.popLastHistory.2⟩
  | created current hfile hkeeps =>
      rw [List.reverse_cons, ← List.cons_append, List.getLast?_cons, Option.getD_some] at hkeeps
      exact ⟨hkeeps.popLastHistory.1, .created old rfl hkeeps.popLastHistory.2⟩

/-- With nothing to undo, what is found is what the file has. -/
theorem Backs.undo_nil (hbacks : Backs manager path file []) :
    ((manager.popLastHistory path).1 = none ∨ (manager.popLastHistory path).1 = file) ∧
      Backs (manager.popLastHistory path).2 path file [] := by
  cases hbacks with
  | found hkeeps =>
      rw [hkeeps.popLastHistory_nil]
      exact ⟨.inl rfl, .found hkeeps⟩
  | created current hfile hkeeps =>
      have hpop := @FileHistoryManager.Keeps.popLastHistory _ _ _ [] hkeeps
      exact ⟨.inr (hpop.1.trans hfile.symm), .found hpop.2⟩

theorem Backs.congr {later : FileHistoryManager} (hbacks : Backs manager path file stack)
    (hlater : ∀ contents, manager.Keeps path contents → later.Keeps path contents) :
    Backs later path file stack := by
  cases hbacks with
  | found hkeeps => exact .found (hlater _ hkeeps)
  | created current hfile hkeeps => exact .created current hfile (hlater _ hkeeps)

/-! ## Calls -/

/-- The history of every file is behind its stack. -/
structure Synced (host : HostPaths) (limit : Nat) (editor : FileEditor) (spec : UndoStacks) :
    Prop where
  files : editor.files = spec.files
  limit : editor.historyManager.maxHistoryPerFile = limit
  backs : ∀ path, Backs editor.historyManager path (spec.files path) (spec.previous path)
  undoable : ∀ path, spec.previous path ≠ [] →
    validatePath host spec.files path .undoEdit = .ok ()

theorem synced_init (host : HostPaths) (limit : Nat) (files : List Char → Option (List Char)) :
    Synced host limit (init files limit) (.start files) where
  files := rfl
  limit := rfl
  backs := fun path => .found (FileHistoryManager.keeps_init limit path)
  undoable := fun _ hne => absurd rfl hne

/-- What a call at a path promises, in terms of the edits that are not undone: its result, and
the files and stacks after it. -/
structure Obeys (editor : FileEditor) (spec : UndoStacks) (path : List Char)
    (command : EditorCommand) (result : Except EditorError EditorResult) (later : FileEditor)
    (laterSpec : UndoStacks) : Prop where
  files : later.files = laterSpec.files
  /-- The latest edit is undone. -/
  restores : ∀ old earlier, command = .undoEdit → spec.previous path = old :: earlier →
    (∃ undone, result = .ok undone ∧ undone.newContent = old) ∧
      later.files path = some old ∧ laterSpec.previous path = earlier
  /-- With nothing to undo, the file stays. -/
  nothing : command = .undoEdit → spec.previous path = [] → later.files = editor.files
  /-- The content before an edit is remembered. -/
  remembers : ∀ edited, result = .ok edited → command ≠ .undoEdit →
    ∀ text, editor.files path = some text → laterSpec.previous path = text :: spec.previous path
  /-- A rejected call changes no file and no later undo. -/
  rejects : ∀ error, result = .error error → later.files = editor.files ∧ laterSpec = spec
  others : ∀ other, other ≠ path →
    later.files other = editor.files other ∧ laterSpec.previous other = spec.previous other

/-- How calls go. -/
inductive CallCases (host : HostPaths) (editor : FileEditor) (spec : UndoStacks)
    (path : List Char) : EditorCommand → Except EditorError EditorResult → FileEditor →
      UndoStacks → Prop
  | rejected (command : EditorCommand) (error : EditorError)
      (hundo : command = .undoEdit → spec.previous path = []) :
      CallCases host editor spec path command (.error error) editor spec
  | created (text : List Char) (result : EditorResult)
      (hvalid : validatePath host spec.files path (.create (some text)) = .ok ()) :
      CallCases host editor spec path (.create (some text)) (.ok result)
        ((editor.writeFile path text).addHistory path text)
        (spec.change path text (spec.previous path))
  | edited (command : EditorCommand) (text newText : List Char) (result : EditorResult)
      (hcommand : command ≠ .undoEdit) (hfile : spec.files path = some text)
      (hvalid : validatePath host spec.files path command = .ok ()) :
      CallCases host editor spec path command (.ok result)
        ((editor.writeFile path newText).addHistory path text)
        (spec.change path newText (text :: spec.previous path))
  | undone (old : List Char) (earlier : List (List Char)) (result : EditorResult)
      (hstack : spec.previous path = old :: earlier) (hresult : result.newContent = old)
      (hvalid : validatePath host spec.files path .undoEdit = .ok ()) :
      CallCases host editor spec path .undoEdit (.ok result)
        { files := Function.update editor.files path (some old)
          historyManager := (editor.historyManager.popLastHistory path).2 }
        (spec.change path old earlier)
  | nothing (result : Except EditorError EditorResult) (hstack : spec.previous path = []) :
      CallCases host editor spec path .undoEdit result
        { editor with historyManager := (editor.historyManager.popLastHistory path).2 } spec

variable {host : HostPaths} {limit : Nat} {editor : FileEditor} {spec : UndoStacks}
  {command : EditorCommand}

theorem create_cases {fileText : Option (List Char)}
    (hvalid : validatePath host spec.files path (.create fileText) = .ok ()) :
    CallCases host editor spec path (.create fileText) (editor.create host path fileText).1
      (editor.create host path fileText).2 (spec.create host path fileText) := by
  unfold FileEditor.create UndoStacks.create
  cases fileText with
  | none => exact .rejected _ _ nofun
  | some text =>
      cases host.openError path with
      | none => exact .created text _ hvalid
      | some error => exact .rejected _ _ nofun

theorem Synced.undo_cases (hsynced : Synced host limit editor spec)
    (hvalid : validatePath host spec.files path .undoEdit = .ok ()) :
    CallCases host editor spec path .undoEdit (editor.undoEdit path).1 (editor.undoEdit path).2
      (spec.undoEdit path) := by
  have hbacks := hsynced.backs path
  unfold FileEditor.undoEdit UndoStacks.undoEdit
  cases hstack : spec.previous path with
  | cons old earlier =>
      rw [hstack] at hbacks
      have hpop := hbacks.undo.1
      cases hpopped : editor.historyManager.popLastHistory path with
      | mk popped manager =>
          rw [hpopped] at hpop
          cases hpop
          have hcase := @CallCases.undone host editor spec path old earlier
            { prevExist := true, oldContent := some (editor.readFile path), newContent := old }
            hstack rfl hvalid
          rw [hpopped] at hcase
          exact hcase
  | nil =>
      rw [hstack] at hbacks
      have hpop := hbacks.undo_nil.1
      cases hpopped : editor.historyManager.popLastHistory path with
      | mk popped manager =>
          rw [hpopped] at hpop
          have hcase := fun result => @CallCases.nothing host editor spec path result hstack
          rw [hpopped] at hcase
          cases popped with
          | none => exact hcase _
          | some old =>
              -- the content the file was created with is written over itself
              have hsame : Function.update editor.files path (some old) = editor.files := by
                rw [Function.update_eq_self_iff, hsynced.files]
                exact hpop.resolve_left (Option.some_ne_none _)
              simp only [writeFile, hsame]
              exact hcase _

theorem Synced.edit_cases (hsynced : Synced host limit editor spec)
    (hwithin : spec.Within limit) (hcommand : command ≠ .undoEdit)
    (hcreate : ∀ fileText, command ≠ .create fileText)
    (hvalid : validatePath host spec.files path command = .ok ()) :
    CallCases host editor spec path command (editor.applyEdit path command).1
      (editor.applyEdit path command).2 (spec.applyEdit path command) := by
  have hfile : spec.files path ≠ none := fun hnone => by
    obtain ⟨fileText, heq⟩ := (validatePath_eq_ok hvalid).2.mpr hnone
    exact hcreate fileText heq
  obtain ⟨text, hfile⟩ := Option.ne_none_iff_exists'.mp hfile
  have hread : editor.readFile path = text := by
    rw [readFile, hsynced.files, hfile, Option.getD_some,
      translateNewlines_of_notMem (hwithin.plain path text hfile)]
  unfold FileEditor.applyEdit UndoStacks.applyEdit
  rw [hread, hfile, Option.getD_some]
  cases hedit : edit path text command with
  | error error => exact .rejected _ _ fun heq => absurd heq hcommand
  | ok texts =>
      obtain ⟨newText, oldText⟩ := texts
      obtain rfl := edit_saves hedit
      exact .edited _ _ _ _ hcommand hfile hvalid

theorem Synced.call_cases (hsynced : Synced host limit editor spec)
    (hwithin : spec.Within limit) (path : List Char) (command : EditorCommand) :
    CallCases host editor spec path command (editor.call host path command).1
      (editor.call host path command).2 (spec.call host path command) := by
  unfold FileEditor.call UndoStacks.call
  rw [hsynced.files]
  cases hvalid : validatePath host spec.files path command with
  | error error =>
      refine .rejected _ _ fun heq => ?_
      by_contra hne
      rw [heq, hsynced.undoable path hne] at hvalid
      cases hvalid
  | ok valid =>
      cases command with
      | create fileText => exact create_cases hvalid
      | undoEdit => exact hsynced.undo_cases hvalid
      | strReplace oldStr newStr =>
          exact hsynced.edit_cases hwithin (fun heq => nomatch heq)
            (fun _ heq => nomatch heq) hvalid
      | insert insertLine newStr =>
          exact hsynced.edit_cases hwithin (fun heq => nomatch heq)
            (fun _ heq => nomatch heq) hvalid

/-- A file is written, and no other path notices. -/
theorem Synced.change (hsynced : Synced host limit editor spec)
    (hvalid : validatePath host spec.files path command = .ok ())
    (hlimit : manager.maxHistoryPerFile = editor.historyManager.maxHistoryPerFile)
    (hbacks : Backs manager path (some text) stack)
    (hothers : ∀ other, other ≠ path → ∀ contents,
      editor.historyManager.Keeps other contents → manager.Keeps other contents) :
    Synced host limit
      { files := Function.update editor.files path (some text), historyManager := manager }
      (spec.change path text stack) where
  files := by rw [hsynced.files, UndoStacks.change]
  limit := hlimit.trans hsynced.limit
  backs := by
    intro other
    rcases eq_or_ne other path with rfl | hne
    · simp only [UndoStacks.change, Function.update_self]
      exact hbacks
    · simp only [UndoStacks.change, Function.update_of_ne hne]
      exact (hsynced.backs other).congr (hothers other hne)
  undoable := by
    intro other hstack
    rcases eq_or_ne other path with rfl | hne
    · exact validatePath_update text hvalid
    · simp only [UndoStacks.change, Function.update_of_ne hne] at hstack
      rw [← hsynced.undoable other hstack]
      exact validatePath_congr (Function.update_of_ne hne _ _)

theorem Synced.call (hsynced : Synced host limit editor spec) (hwithin : spec.Within limit)
    (hlater : (spec.call host path command).Within limit) :
    Synced host limit (editor.call host path command).2 (spec.call host path command) := by
  have hcases := hsynced.call_cases hwithin path command
  revert hlater
  generalize editor.call host path command = called at hcases ⊢
  generalize spec.call host path command = laterSpec at hcases ⊢
  obtain ⟨result, later⟩ := called
  intro hlater
  have hbacks := hsynced.backs path
  cases hcases with
  | rejected => exact hsynced
  | created text _ hvalid =>
      have hfile : spec.files path = none := (validatePath_eq_ok hvalid).2.mp ⟨_, rfl⟩
      have hstack : spec.previous path = [] := by
        by_contra hne
        obtain ⟨fileText, heq⟩ :=
          (validatePath_eq_ok (hsynced.undoable path hne)).2.mpr hfile
        cases heq
      rw [hfile, hstack] at hbacks
      refine hsynced.change hvalid rfl ?_ fun other hne contents hkeeps =>
        hkeeps.addHistory_other hne
      rw [hstack]
      refine hbacks.create ?_
      rw [hsynced.limit]
      exact Nat.zero_lt_of_lt (hlater.room path)
  | edited _ text newText _ hcommand hfile hvalid =>
      rw [hfile] at hbacks
      refine hsynced.change hvalid rfl (hbacks.edit ?_) fun other hne contents hkeeps =>
        hkeeps.addHistory_other hne
      have hroom := hlater.room path
      simp only [UndoStacks.change, Function.update_self] at hroom
      rw [hsynced.limit]
      exact hroom
  | undone old earlier result hstack hresult hvalid =>
      rw [hstack] at hbacks
      exact hsynced.change hvalid (FileHistoryManager.maxHistoryPerFile_popLastHistory _ _)
        hbacks.undo.2 fun other hne contents hkeeps => hkeeps.popLastHistory_other hne
  | nothing result hstack =>
      rw [hstack] at hbacks
      refine
        { files := hsynced.files
          limit := (FileHistoryManager.maxHistoryPerFile_popLastHistory _ _).trans hsynced.limit
          backs := fun other => ?_
          undoable := hsynced.undoable }
      rcases eq_or_ne other path with rfl | hne
      · rw [hstack]
        exact hbacks.undo_nil.2
      · exact (hsynced.backs other).congr fun contents hkeeps => hkeeps.popLastHistory_other hne

theorem Synced.obeys (hsynced : Synced host limit editor spec)
    {result : Except EditorError EditorResult} {later : FileEditor} {laterSpec : UndoStacks}
    (hcases : CallCases host editor spec path command result later laterSpec) :
    Obeys editor spec path command result later laterSpec := by
  have hupdate : ∀ (text : List Char) {stack other}, other ≠ path →
      Function.update editor.files path (some text) other = editor.files other ∧
        (spec.change path text stack).previous other = spec.previous other := fun text _ _ hne =>
    ⟨Function.update_of_ne hne _ _, Function.update_of_ne hne _ _⟩
  have hfiles : ∀ text : List Char, Function.update editor.files path (some text) =
      Function.update spec.files path (some text) := fun text => by rw [hsynced.files]
  cases hcases with
  | rejected _ error hundo =>
      exact
        { files := hsynced.files
          restores := fun old earlier heq hstack => by
            rw [hundo heq] at hstack
            cases hstack
          nothing := fun _ _ => rfl
          remembers := fun _ heq => nomatch heq
          rejects := fun _ _ => ⟨rfl, rfl⟩
          others := fun _ _ => ⟨rfl, rfl⟩ }
  | created text result hvalid =>
      exact
        { files := hfiles text
          restores := fun _ _ heq => nomatch heq
          nothing := fun heq => nomatch heq
          remembers := fun _ _ _ text hfile => by
            rw [hsynced.files, (validatePath_eq_ok hvalid).2.mp ⟨_, rfl⟩] at hfile
            cases hfile
          rejects := fun _ heq => nomatch heq
          others := fun _ hne => hupdate text hne }
  | edited _ text newText result hcommand hfile hvalid =>
      exact
        { files := hfiles newText
          restores := fun _ _ heq => absurd heq hcommand
          nothing := fun heq => absurd heq hcommand
          remembers := fun _ _ _ text hfile' => by
            rw [hsynced.files, hfile] at hfile'
            rw [← Option.some.inj hfile']
            exact Function.update_self _ _ _
          rejects := fun _ heq => nomatch heq
          others := fun _ hne => hupdate newText hne }
  | undone old earlier result hstack hresult hvalid =>
      exact
        { files := hfiles old
          restores := fun old' earlier' _ hstack' => by
            rw [hstack] at hstack'
            obtain ⟨rfl, rfl⟩ := List.cons.inj hstack'
            exact ⟨⟨result, rfl, hresult⟩, Function.update_self _ _ _, Function.update_self _ _ _⟩
          nothing := fun _ hnil => by
            rw [hstack] at hnil
            cases hnil
          remembers := fun _ _ hne => absurd rfl hne
          rejects := fun _ heq => nomatch heq
          others := fun _ hne => hupdate old hne }
  | nothing result hstack =>
      exact
        { files := hsynced.files
          restores := fun old earlier _ hstack' => by
            rw [hstack] at hstack'
            cases hstack'
          nothing := fun _ _ => rfl
          remembers := fun _ _ hne => absurd rfl hne
          rejects := fun _ _ => ⟨rfl, rfl⟩
          others := fun _ _ => ⟨rfl, rfl⟩ }

theorem synced_of_run {files : List Char → Option (List Char)}
    {calls : List (List Char × EditorCommand)}
    (hwithin : ∀ before, before <+: calls →
      ((UndoStacks.start files).run host before).Within limit) :
    Synced host limit ((init files limit).run host calls)
      ((UndoStacks.start files).run host calls) := by
  induction calls using List.reverseRecOn with
  | nil => exact synced_init host limit files
  | append_singleton calls call ih =>
      have hbefore := ih fun before hbefore =>
        hwithin before (hbefore.trans (List.prefix_append _ _))
      have hlater := hwithin _ (List.prefix_refl _)
      rw [UndoStacks.run, List.foldl_append] at hlater ⊢
      rw [run, List.foldl_append]
      exact hbefore.call (hwithin calls (List.prefix_append _ _)) hlater

/-- A host without directories. -/
def plainHost : HostPaths :=
  { isAbsolute := fun _ => true, isDir := fun _ => false
    suggestion := fun _ => "The path should be an absolute path.", openError := fun _ => none }

def oneFile : List Char → Option (List Char) :=
  Function.update (fun _ => none) "/a".toList (some "x".toList)

def editAndCreate : List (List Char × EditorCommand) :=
  [("/a".toList, .strReplace (some "x".toList) (some "".toList)),
    ("/b".toList, .create (some "y".toList))]

end FileEditor

namespace FileChecks

open FileEditor (init plainHost)

end FileChecks

end ShuttleFlow
