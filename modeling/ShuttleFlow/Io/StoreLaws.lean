import Mathlib.Data.List.Infix
import ShuttleFlow.Io.CacheRoom
import ShuttleFlow.Io.InMemoryFileStore
import ShuttleFlow.Library.Segments
import ShuttleFlow.Library.Transitions

/-! # The laws of a store

What the operations so far say about the files is kept in a record. The store in
memory goes by it as long as its cache has room and no other path merely begins
like the one that is listed or deleted.
-/

namespace ShuttleFlow

open PathText

/-! ## The record -/

/-- Everything is below the root. -/
def isBelow (directory path : String) : Bool :=
  if directory = "" then path ≠ "" else (directory.toList ++ ['/']).isPrefixOf path.toList

/-- What follows the directory and its slash. -/
def below (directory path : String) : List Char :=
  path.toList.drop (if directory = "" then 0 else directory.toList.length + 1)

/-- The immediate child of a directory that is the path or leads to it. -/
def child (directory path : String) : String :=
  if '/' ∈ below directory path then
    String.ofList ((if directory = "" then [] else directory.toList ++ ['/']) ++
      (below directory path).takeWhile (· ≠ '/') ++ ['/'])
  else path

abbrev StoreRecord := String → Option String

namespace StoreRecord

def after (record : StoreRecord) : StoreOperation → StoreRecord
  | .write path contents => Function.update record path (some contents)
  | .delete path => fun other =>
      if other = path ∨ isBelow path other then none else record other
  | _ => record

/-- What the operations so far say. -/
def ofOperations (operations : List StoreOperation) : StoreRecord :=
  operations.foldl after fun _ => none

/-- The outcome an operation is to have. A file lists itself. -/
def Answers (record : StoreRecord) : StoreOperation → StoreOutcome → Prop
  | .write _ _, outcome => outcome = .done
  | .delete _, outcome => outcome = .done
  | .read path, outcome =>
      outcome = match record path with
        | some contents => .contents contents
        | none => .fileNotFound
  | .list directory, outcome => ∃ paths, outcome = .paths paths ∧ paths.Nodup ∧
      ∀ entry, entry ∈ paths ↔ if (record directory).isSome then entry = directory
        else ∃ path, (record path).isSome ∧ isBelow directory path ∧ child directory path = entry

end StoreRecord

/-- Each operation has the outcome that those before it ask for. -/
def ObeysStoreLaws (trace : List (StoreOperation × StoreOutcome)) : Prop :=
  ∀ before operation outcome after, trace = before ++ (operation, outcome) :: after →
    (StoreRecord.ofOperations (before.map Prod.fst)).Answers operation outcome

namespace InMemoryFileStore

variable {lru : ListedLRUCache String}

def system : TransitionSystem (InMemoryFileStore lru) StoreOperation
    (StoreOperation × StoreOutcome) where
  step store operation :=
    let (outcome, next) := store.step operation
    some (next, [(operation, outcome)])

/-- No component is empty. -/
def normalized (path : String) : Bool :=
  path.toList.head? ≠ some '/' && path.toList.getLast? ≠ some '/' &&
    !decide (['/', '/'] <:+: path.toList)

/-- There is room for what is written, and what begins like a listed or deleted
path lies below it. -/
def withinLimits (store : InMemoryFileStore lru) : StoreOperation → Bool
  | .write path contents => store.files.hasRoom path contents
  | .read _ => true
  | .list directory => store.keys.all fun key =>
      !startsWith key directory || (isBelow directory key && normalized key)
  | .delete path => store.keys.all fun key =>
      !startsWith key path || key = path || isBelow path key

end InMemoryFileStore

/-! ## Paths -/

theorem startsWith_iff {path start : String} :
    startsWith path start ↔ start.toList <+: path.toList :=
  List.isPrefixOf_iff_prefix

/-- Where a path below a directory goes on. -/
theorem isBelow_iff {directory path : String} : isBelow directory path ↔
    directory = "" ∧ path ≠ "" ∧ below directory path = path.toList ∨
      directory ≠ "" ∧ path.toList = directory.toList ++ '/' :: below directory path := by
  by_cases hroot : directory = ""
  · simp [isBelow, below, hroot]
  · have hlength : (directory.toList ++ ['/']).length = directory.toList.length + 1 := by simp
    simp only [isBelow, below, hroot, if_false, List.isPrefixOf_iff_prefix, false_and, false_or,
      ne_eq, not_false_eq_true, true_and]
    constructor
    · rintro ⟨rest, hpath⟩
      rw [← hpath, ← hlength, List.drop_left]
      simp
    · intro hpath
      exact ⟨path.toList.drop (directory.toList.length + 1), by simpa using hpath.symm⟩

theorem isBelow.startsWith {directory path : String} (hbelow : isBelow directory path) :
    startsWith path directory := by
  rw [startsWith_iff]
  rcases isBelow_iff.mp hbelow with ⟨rfl, -, -⟩ | ⟨-, hpath⟩
  · exact List.nil_prefix
  · exact ⟨_, hpath.symm⟩

theorem not_isBelow_self (path : String) : ¬isBelow path path := by
  intro hbelow
  rcases isBelow_iff.mp hbelow with ⟨hroot, hpath, -⟩ | ⟨-, hpath⟩
  · exact hpath hroot
  · have hlength := congrArg List.length hpath
    simp only [List.length_append, List.length_cons] at hlength
    omega

namespace InMemoryFileStore

/-- A path as it is written without superfluous slashes. -/
structure Normalized (path : String) : Prop where
  head : path.toList.head? ≠ some '/'
  last : path.toList.getLast? ≠ some '/'
  single : ¬['/', '/'] <:+: path.toList

theorem normalized_iff {path : String} : normalized path ↔ Normalized path := by
  simp only [normalized, Bool.and_eq_true, decide_eq_true_eq, Bool.not_eq_true',
    decide_eq_false_iff_not, ne_eq]
  exact ⟨fun ⟨⟨hhead, hlast⟩, hsingle⟩ => ⟨hhead, hlast, hsingle⟩,
    fun ⟨hhead, hlast, hsingle⟩ => ⟨⟨hhead, hlast⟩, hsingle⟩⟩

variable {directory path : String}

theorem Normalized.below_head (hnormalized : Normalized path) (hbelow : isBelow directory path) :
    ∃ char rest, below directory path = char :: rest ∧ char ≠ '/' := by
  rcases isBelow_iff.mp hbelow with ⟨-, hne, hrest⟩ | ⟨-, hpath⟩
  · rw [hrest]
    cases hchars : path.toList with
    | nil => exact absurd (String.toList_eq_nil_iff.mp hchars) hne
    | cons char rest =>
        refine ⟨char, rest, rfl, fun hslash => hnormalized.head ?_⟩
        rw [hchars, hslash]
        rfl
  · cases hrest : below directory path with
    | nil =>
        refine absurd ?_ hnormalized.last
        rw [hpath, hrest]
        exact List.getLast?_concat
    | cons char rest =>
        refine ⟨char, rest, rfl, fun hslash => hnormalized.single ?_⟩
        rw [hpath, hrest, hslash]
        exact ⟨directory.toList, rest, by simp⟩

theorem Normalized.directory_last (hnormalized : Normalized path)
    (hbelow : isBelow directory path) : directory.toList.getLast? ≠ some '/' := by
  intro hlast
  obtain ⟨start, hstart⟩ := List.getLast?_eq_some_iff.mp hlast
  rcases isBelow_iff.mp hbelow with ⟨rfl, -, -⟩ | ⟨-, hpath⟩
  · cases hlast
  · refine hnormalized.single ?_
    rw [hpath, hstart]
    exact ⟨start, below directory path, by simp⟩

theorem Normalized.components_eq (hnormalized : Normalized path)
    (hbelow : isBelow directory path) :
    components directory path = (below directory path).splitOn '/' := by
  unfold components PathText.after
  obtain ⟨char, rest, hrest, hchar⟩ := hnormalized.below_head hbelow
  rcases isBelow_iff.mp hbelow with ⟨rfl, -, hsame⟩ | ⟨-, hpath⟩
  · have hfirst : path.toList.drop "".toList.length = char :: rest := hsame.symm.trans hrest
    rw [hfirst, hrest, List.splitOn_cons_eq_if_modifyHead, if_neg (by simpa using hchar)]
    split
    next heq =>
      cases hmore : rest.splitOn '/' <;> simp [hmore] at heq
    next => rfl
  · have hdrop : path.toList.drop directory.toList.length = '/' :: below directory path := by
      rw [hpath, List.drop_left]
    rw [hdrop, List.splitOn_cons_eq_if_modifyHead, if_pos (by simp)]

/-- The text of a directory's path, with its slash. -/
def directoryStart (directory : String) : List Char :=
  if directory = "" then [] else directory.toList ++ ['/']

theorem join_eq (hlast : directory.toList.getLast? ≠ some '/') (name : List Char) :
    join directory name = String.ofList (directoryStart directory ++ name) := by
  unfold join directoryStart
  by_cases hroot : directory = ""
  · simp [hroot]
  · simp [hroot, hlast]

theorem directoryPath_eq (hlast : directory.toList.getLast? ≠ some '/') {name : List Char}
    (hname : name ≠ []) (hplain : '/' ∉ name) :
    directoryPath directory name =
      String.ofList (directoryStart directory ++ name ++ ['/']) := by
  obtain ⟨start, char, rfl⟩ := (List.eq_nil_or_concat' name).resolve_left hname
  have hchar : char ≠ '/' := fun hslash => hplain (by simp [hslash])
  unfold directoryPath
  simp only [join_eq hlast, String.toList_ofList, ← List.append_assoc, List.getLast?_concat,
    Option.some.injEq, hchar, if_false]
  exact String.toList_inj.mp (by simp)

/-- What an iteration of `list` adds for a path below the directory. -/
theorem components_cases (hnormalized : Normalized path) (hbelow : isBelow directory path) :
    ('/' ∉ below directory path ∧ components directory path = [below directory path] ∧
      child directory path = path) ∨
    ('/' ∈ below directory path ∧ ∃ name second rest,
      components directory path = name :: second :: rest ∧
        directoryPath directory name = child directory path) := by
  rw [hnormalized.components_eq hbelow]
  by_cases hslash : '/' ∈ below directory path
  · obtain ⟨name, more, hsplit, hplain⟩ := List.eq_append_cons_of_mem hslash
    have htake : (below directory path).takeWhile (· ≠ '/') = name := by
      rw [hsplit, List.takeWhile_append_of_pos, List.takeWhile_cons_of_neg (by simp),
        List.append_nil]
      intro char hchar
      exact decide_eq_true fun hsame => hplain (hsame ▸ hchar)
    have hname : name ≠ [] := by
      rintro rfl
      obtain ⟨char, rest, hrest, hchar⟩ := hnormalized.below_head hbelow
      rw [hrest] at hsplit
      exact hchar (List.cons.inj hsplit).1
    obtain ⟨second, others, hothers⟩ := List.exists_cons_of_ne_nil (List.splitOn_ne_nil '/' more)
    refine .inr ⟨hslash, name, second, others, ?_, ?_⟩
    · rw [hsplit, List.splitOn_append_cons_self_of_not_mem hplain, hothers]
    · rw [directoryPath_eq (hnormalized.directory_last hbelow) hname hplain, child, if_pos hslash,
        htake]
      rfl
  · refine .inl ⟨hslash, List.splitOn_eq_singleton hslash, ?_⟩
    rw [child, if_neg hslash]

theorem child_last (hslash : '/' ∈ below directory path) :
    (child directory path).toList.getLast? = some '/' := by
  rw [child, if_pos hslash, String.toList_ofList, List.getLast?_concat]

/-- The loop of `list`, over paths that are distinct and not listed yet. -/
theorem listFrom_spec {keys : List String} (hnodup : keys.Nodup)
    (hkeys : ∀ key ∈ keys, startsWith key directory → isBelow directory key ∧ Normalized key)
    {files : List String} (hfiles : files.Nodup)
    (hnew : ∀ key ∈ keys, Normalized key → key ∉ files) :
    ∃ listed, listFrom directory files keys = some listed ∧ listed.Nodup ∧
      ∀ entry, entry ∈ listed ↔ entry ∈ files ∨
        ∃ key ∈ keys, startsWith key directory ∧ child directory key = entry := by
  induction keys generalizing files with
  | nil => exact ⟨files, rfl, hfiles, fun entry => by simp⟩
  | cons key rest ih =>
      obtain ⟨hkey, hrest⟩ := List.nodup_cons.mp hnodup
      have hlater : ∀ other ∈ rest, startsWith other directory →
          isBelow directory other ∧ Normalized other := fun other hother =>
        hkeys other (List.mem_cons_of_mem key hother)
      have hnewer : ∀ other ∈ rest, Normalized other → other ∉ files := fun other hother =>
        hnew other (List.mem_cons_of_mem key hother)
      unfold listFrom
      by_cases hstarts : startsWith key directory
      · obtain ⟨hbelow, hnormalized⟩ := hkeys key List.mem_cons_self hstarts
        -- whether or not it is there already, the child is listed afterwards
        have hgoesOn : ∀ {more : List String}, more.Nodup →
            (∀ entry, entry ∈ more ↔ entry ∈ files ∨ child directory key = entry) →
            (∀ other ∈ rest, Normalized other → child directory key ≠ other) →
            ∃ listed, listFrom directory more rest = some listed ∧ listed.Nodup ∧
              ∀ entry, entry ∈ listed ↔ entry ∈ files ∨
                ∃ path ∈ key :: rest, startsWith path directory ∧ child directory path = entry := by
          intro more hmore hsame hother
          obtain ⟨listed, hlist, hdistinct, hmem⟩ := ih hrest hlater hmore
            fun other hlaterOther hplain hlisted => by
              rcases (hsame other).mp hlisted with hold | heq
              · exact hnewer other hlaterOther hplain hold
              · exact hother other hlaterOther hplain heq
          refine ⟨listed, hlist, hdistinct, fun entry => (hmem entry).trans ?_⟩
          simp [hsame, hstarts, or_assoc]
        rw [if_pos hstarts]
        rcases components_cases hnormalized hbelow with
          ⟨-, hcomponents, hchild⟩ | ⟨hslash, name, second, more, hcomponents, hchild⟩
        · simp only [hcomponents]
          refine hgoesOn ?_ (fun entry => by simp [hchild, eq_comm]) ?_
          · rw [← List.concat_eq_append]
            exact hfiles.concat (hnew key List.mem_cons_self hnormalized)
          · intro other hother _ heq
            exact hkey (hchild ▸ heq ▸ hother)
        · have hlast : ∀ other ∈ rest, Normalized other → child directory key ≠ other := by
            intro other _ hplain heq
            exact hplain.last (heq ▸ child_last hslash)
          simp only [hcomponents, hchild]
          split
          next hthere =>
            refine hgoesOn hfiles (fun entry => ⟨.inl, fun hentry => ?_⟩) hlast
            rcases hentry with hold | rfl
            · exact hold
            · exact List.contains_iff_mem.mp hthere
          next hmissing =>
            refine hgoesOn ?_ (fun entry => by simp [eq_comm]) hlast
            rw [← List.concat_eq_append]
            exact hfiles.concat fun hmem => hmissing (List.contains_iff_mem.mpr hmem)
      · rw [if_neg hstarts]
        obtain ⟨listed, hlist, hdistinct, hmem⟩ := ih hrest hlater hfiles hnewer
        refine ⟨listed, hlist, hdistinct, fun entry => (hmem entry).trans ?_⟩
        simp [hstarts]

/-! ## Runs -/

/-- The store holds what the record says. -/
structure Holds (store : InMemoryFileStore lru) (record : StoreRecord) : Prop where
  counted : store.files.Counted
  files : ∀ path, store.files.get? path = record path

variable {store : InMemoryFileStore lru} {record : StoreRecord}

theorem Holds.mem_keys (hholds : Holds store record) :
    path ∈ store.keys ↔ (record path).isSome := by
  rw [← hholds.files]
  exact MemoryLRUCache.mem_keys_iff

theorem holds_init (maxSize maxMemory : Int) :
    Holds (init maxSize maxMemory : InMemoryFileStore lru) fun _ => none where
  counted := MemoryLRUCache.counted_init _ _
  files _ := MemoryLRUCache.get?_init _ _ _

theorem Holds.write (hholds : Holds store record) {contents : String}
    (hroom : store.files.hasRoom path contents) :
    Holds (store.write path contents) (record.after (.write path contents)) where
  counted := hholds.counted.setItem hroom
  files other := by
    simp only [InMemoryFileStore.write, hholds.counted.get?_setItem hroom, hholds.files,
      StoreRecord.after, Function.update_apply]

theorem Holds.read (hholds : Holds store record) (path : String) :
    Holds (store.read path).2 record ∧ record.Answers (.read path) (store.read path).1 := by
  simp only [StoreRecord.Answers, ← hholds.files path]
  unfold InMemoryFileStore.read
  cases store.files.get? path with
  | none => exact ⟨hholds, rfl⟩
  | some contents =>
      refine ⟨⟨hholds.counted.touch path, fun other => ?_⟩, rfl⟩
      exact (MemoryLRUCache.get?_touch _ _ _).trans (hholds.files other)

/-- Deleting keys one by one. -/
theorem delItems_spec {files : MemoryLRUCache lru.toLRUCache} (hcounted : files.Counted)
    (keys : List String) :
    let deleted := keys.foldl (fun files key => (files.delItem key).getD files) files
    deleted.Counted ∧
      ∀ path, deleted.get? path = if path ∈ keys then none else files.get? path := by
  induction keys generalizing files with
  | nil => exact ⟨hcounted, fun path => by simp⟩
  | cons key rest ih =>
      obtain ⟨hfirst, hget⟩ : ((files.delItem key).getD files).Counted ∧
          ∀ path, ((files.delItem key).getD files).get? path =
            if path = key then none else files.get? path := by
        cases hdelete : files.delItem key with
        | none =>
            refine ⟨hcounted, fun path => ?_⟩
            have hmissing : files.get? key = none := by
              simpa [MemoryLRUCache.delItem] using hdelete
            split
            next hsame => exact hsame ▸ hmissing
            next => rfl
        | some deleted => exact ⟨hcounted.delItem hdelete, (MemoryLRUCache.delItem_spec hdelete).2⟩
      obtain ⟨hlater, hgets⟩ := ih hfirst
      refine ⟨hlater, fun path => (hgets path).trans ?_⟩
      rw [hget]
      by_cases hsame : path = key <;> by_cases hmem : path ∈ rest <;> simp [hsame, hmem]

theorem Holds.delete (hholds : Holds store record)
    (hlimits : store.withinLimits (.delete path)) :
    Holds (store.delete path) (record.after (.delete path)) := by
  obtain ⟨hcounted, hget⟩ := delItems_spec hholds.counted
    (store.keys.filter fun key => startsWith key path)
  refine ⟨hcounted, fun other => (hget other).trans ?_⟩
  rw [hholds.files, StoreRecord.after]
  cases hrecorded : record other with
  | none => simp [hrecorded]
  | some contents =>
      have hkey : other ∈ store.keys := hholds.mem_keys.mpr (by simp [hrecorded])
      have hstarts : startsWith other path ↔ other = path ∨ isBelow path other := by
        constructor
        · intro hstarts
          simpa [hstarts] using List.all_eq_true.mp hlimits other hkey
        · rintro (rfl | hbelow)
          · exact startsWith_iff.mpr List.prefix_rfl
          · exact isBelow.startsWith hbelow
      simp [hkey, hstarts, hrecorded]

theorem Holds.list (hholds : Holds store record)
    (hlimits : store.withinLimits (.list directory)) :
    record.Answers (.list directory) (store.list directory) := by
  have hkeys : ∀ key ∈ store.keys, startsWith key directory →
      isBelow directory key ∧ Normalized key := by
    intro key hkey hstarts
    simpa [hstarts, normalized_iff] using List.all_eq_true.mp hlimits key hkey
  have hfile : (record directory).isSome = false := by
    by_contra hsome
    have hkey := hholds.mem_keys.mpr (Bool.eq_true_of_not_eq_false hsome)
    exact not_isBelow_self directory
      (hkeys directory hkey (startsWith_iff.mpr List.prefix_rfl)).1
  obtain ⟨listed, hlist, hdistinct, hmem⟩ := listFrom_spec (lru.nodup_keys store.files.entries)
    hkeys List.nodup_nil fun _ _ _ => List.not_mem_nil
  refine ⟨listed, ?_, hdistinct, fun entry => (hmem entry).trans ?_⟩
  · unfold InMemoryFileStore.list keys
    rw [hlist]
  · rw [hfile, if_neg Bool.false_ne_true]
    constructor
    · rintro (hnothing | ⟨key, hkey, hstarts, hchild⟩)
      · cases hnothing
      · exact ⟨key, hholds.mem_keys.mp hkey, (hkeys key hkey hstarts).1, hchild⟩
    · rintro ⟨key, hrecorded, hbelow, hchild⟩
      exact .inr ⟨key, hholds.mem_keys.mpr hrecorded, isBelow.startsWith hbelow, hchild⟩

theorem Holds.step (hholds : Holds store record) {operation : StoreOperation}
    (hlimits : store.withinLimits operation) :
    Holds (store.step operation).2 (record.after operation) ∧
      record.Answers operation (store.step operation).1 := by
  cases operation with
  | write path contents => exact ⟨hholds.write hlimits, rfl⟩
  | read path => exact hholds.read path
  | list directory => exact ⟨hholds, hholds.list hlimits⟩
  | delete path => exact ⟨hholds.delete hlimits, rfl⟩

end InMemoryFileStore

theorem ObeysStoreLaws.snoc {trace : List (StoreOperation × StoreOutcome)}
    (hobeys : ObeysStoreLaws trace) {operation : StoreOperation} {outcome : StoreOutcome}
    (hanswers : (StoreRecord.ofOperations (trace.map Prod.fst)).Answers operation outcome) :
    ObeysStoreLaws (trace ++ [(operation, outcome)]) := by
  intro before other found after htrace
  rcases Segments.marker_concat htrace with ⟨rfl, heq, -⟩ | ⟨earlier, heq, -⟩
  · cases heq
    exact hanswers
  · exact hobeys before other found earlier heq

namespace InMemoryFileStore

variable {lru : ListedLRUCache String} {store : InMemoryFileStore lru}

/-- Any operations, on a store of any size that is empty at first, as long as there
is room and no other path begins like the one that is listed or deleted. -/
theorem obeysStoreLaws_of_runs {maxSize maxMemory : Int}
    {trace : List (StoreOperation × StoreOutcome)}
    (hruns : (system.restrict withinLimits).Runs (init maxSize maxMemory) trace store) :
    ObeysStoreLaws trace := by
  have hboth : Holds store (.ofOperations (trace.map Prod.fst)) ∧ ObeysStoreLaws trace := by
    refine hruns.invariant_restrict
      (fun trace store => Holds store (.ofOperations (trace.map Prod.fst)) ∧ ObeysStoreLaws trace)
      ⟨holds_init maxSize maxMemory, fun before operation outcome after htrace => by simp at htrace⟩
      ?_
    intro trace store operation next seen hbefore hlimits hstep
    cases hstep
    obtain ⟨hholds, hanswers⟩ := hbefore.1.step hlimits
    refine ⟨?_, hbefore.2.snoc hanswers⟩
    rw [List.map_append, StoreRecord.ofOperations, List.foldl_append]
    exact hholds
  exact hboth.2

end InMemoryFileStore

section Files

/-- The files of two directories, one of which is deleted. -/
theorem InMemoryFileStore.obeysStoreLaws_of_runs_directories :
    ObeysStoreLaws
      [(.write "log/1" "first", .done), (.write "log/old/0" "none", .done),
        (.write "state" "idle", .done), (.list "log", .paths ["log/1", "log/old/"]),
        (.delete "log/old", .done), (.read "log/old/0", .fileNotFound),
        (.read "log/1", .contents "first")] :=
  Exists.elim (@TransitionSystem.Runs.exists_of_run _ _ _
    (InMemoryFileStore.system.restrict InMemoryFileStore.withinLimits)
    (InMemoryFileStore.init 100000 20971520 : InMemoryFileStore (.recency String))
    [.write "log/1" "first", .write "log/old/0" "none", .write "state" "idle", .list "log",
      .delete "log/old", .read "log/old/0", .read "log/1"] _ (by decide +kernel))
    fun store hruns => InMemoryFileStore.obeysStoreLaws_of_runs hruns

/-- A file is lost when one is deleted whose path its own merely continues. -/
theorem InMemoryFileStore.not_obeysStoreLaws_when_path_continues :
    ∃ trace, ∃ store : InMemoryFileStore (.recency String),
      InMemoryFileStore.system.Runs (.init 100000 20971520) trace store ∧
        ¬ObeysStoreLaws trace := by
  obtain ⟨store, hruns⟩ := @TransitionSystem.Runs.exists_of_run _ _ _ InMemoryFileStore.system
    (InMemoryFileStore.init 100000 20971520 : InMemoryFileStore (.recency String))
    [.write "event-1" "first", .write "event-10" "tenth", .delete "event-1", .read "event-10"]
    [(.write "event-1" "first", .done), (.write "event-10" "tenth", .done),
      (.delete "event-1", .done), (.read "event-10", .fileNotFound)] (by decide +kernel)
  refine ⟨_, store, hruns, fun hobeys => ?_⟩
  have hread : StoreOutcome.fileNotFound = .contents "tenth" :=
    hobeys [(.write "event-1" "first", .done), (.write "event-10" "tenth", .done),
      (.delete "event-1", .done)] (.read "event-10") .fileNotFound [] rfl
  cases hread

end Files

end ShuttleFlow
