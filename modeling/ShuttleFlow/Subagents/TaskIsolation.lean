import Mathlib.Data.List.Count
import Mathlib.Data.List.Nodup
import ShuttleFlow.Subagents.TaskManager

/-! # Tasks apart from each other

The ids of the tasks are the first numbers, and every task and conversation goes by one of them.
-/

namespace ShuttleFlow

namespace TaskManager

/-! ## Ids -/

/-- The number that hexadecimal digits show. -/
def hexNumber (digits : List Char) : Nat :=
  digits.foldl (fun number digit =>
    16 * number + (List.range 16).findIdx fun value => Nat.digitChar value = digit) 0

theorem hexNumber_concat (digits : List Char) {value : Nat} (hvalue : value < 16) :
    hexNumber (digits ++ [Nat.digitChar value]) = 16 * hexNumber digits + value := by
  have hdigit : ∀ value < 16,
      ((List.range 16).findIdx fun other => Nat.digitChar other = Nat.digitChar value) = value := by
    decide
  rw [hexNumber, List.foldl_append]
  exact congrArg (16 * hexNumber digits + ·) (hdigit value hvalue)

theorem hexNumber_toDigits (number : Nat) : hexNumber (Nat.toDigits 16 number) = number := by
  induction number using Nat.strongRecOn with
  | ind number ih =>
      by_cases hsmall : number < 16
      · rw [Nat.toDigits_of_lt_base hsmall]
        exact (hexNumber_concat [] hsmall).trans (Nat.zero_add _)
      · rw [Nat.toDigits_of_base_le (by decide) (not_lt.mp hsmall),
          hexNumber_concat _ (Nat.mod_lt _ (by decide)), ih (number / 16) (by omega)]
        omega

theorem hexNumber_leftpad (length : Nat) (digits : List Char) :
    hexNumber (List.leftpad length '0' digits) = hexNumber digits := by
  rw [List.leftpad]
  induction length - digits.length with
  | zero => rfl
  | succ count ih => exact ih

theorem taskId_inj {number other : Nat} : taskId number = taskId other ↔ number = other := by
  refine ⟨fun heq => ?_, congrArg _⟩
  have hdigits := List.append_cancel_left (String.ofList_injective heq)
  have hnumbers := congrArg hexNumber hdigits
  rw [hexNumber_leftpad, hexNumber_leftpad, hexNumber_toDigits, hexNumber_toDigits] at hnumbers
  exact hnumbers

/-- The ids of the first tasks. -/
def firstIds (count : Nat) : List String :=
  (List.range count).map fun number => taskId (number + 1)

theorem firstIds_succ (count : Nat) :
    firstIds (count + 1) = firstIds count ++ [taskId (count + 1)] := by
  rw [firstIds, List.range_succ, List.map_append]
  rfl

theorem nodup_firstIds (count : Nat) : (firstIds count).Nodup :=
  List.nodup_range.map fun _ _ heq => Nat.succ.inj (taskId_inj.mp heq)

theorem exists_of_mem_modify {α : Type} {f : α → α} {list : List α} {number : Nat} {value : α}
    (hmem : value ∈ list.modify number f) : ∃ old ∈ list, value = old ∨ value = f old := by
  obtain ⟨index, hindex⟩ := List.mem_iff_getElem?.mp hmem
  rw [List.getElem?_modify] at hindex
  obtain ⟨old, hold, rfl⟩ := Option.map_eq_some_iff.mp hindex
  refine ⟨old, List.mem_of_getElem? hold, ?_⟩
  split
  · exact .inr rfl
  · exact .inl rfl

/-! ## What every step keeps -/

variable {parentDir : Option String} {manager : TaskManager}

/-- A directory that may have been assigned. -/
def Used (parentDir : Option String) (temporaryDirs : Nat) : SubagentDirectory → Prop
  | .subagents dir => parentDir = some dir
  | .temporary number => parentDir = none ∧ number < temporaryDirs

theorem used_directory :
    Used parentDir (manager.temporaryDirs + if parentDir.isSome then 0 else 1)
      (manager.directory parentDir) := by
  cases parentDir with
  | none => exact ⟨rfl, Nat.lt_succ_self _⟩
  | some dir => rfl

/-- Only a directory of the parent is assigned again. -/
theorem Used.eq_directory_iff {dir : SubagentDirectory}
    (hused : Used parentDir manager.temporaryDirs dir) :
    dir = manager.directory parentDir ↔ parentDir.isSome := by
  cases dir with
  | subagents dir =>
      cases (show parentDir = some dir from hused)
      exact ⟨fun _ => rfl, fun _ => rfl⟩
  | temporary number =>
      obtain ⟨rfl, hlt⟩ := hused
      refine ⟨fun heq => ?_, fun hsome => nomatch hsome⟩
      exact absurd (SubagentDirectory.temporary.inj heq) (Nat.ne_of_lt hlt)

/-- Whatever the schedule, the ids count the tasks. -/
structure Numbered (parentDir : Option String) (manager : TaskManager) : Prop where
  ids : manager.generated = firstIds manager.generated.length
  keys : manager.tasks.keys = manager.generated
  objects : ∀ object ∈ manager.objects, object.id ∈ manager.generated
  conversations : ∀ conversation ∈ manager.conversations,
    conversation.taskId ∈ manager.generated
  directory : ∀ dir, manager.persistenceDir = some dir →
    Used parentDir manager.temporaryDirs dir

namespace Numbered

theorem init : Numbered parentDir {} where
  ids := rfl
  keys := rfl
  objects := nofun
  conversations := nofun
  directory := nofun

theorem nodup (hnumbered : Numbered parentDir manager) : manager.generated.Nodup := by
  rw [hnumbered.ids]
  exact nodup_firstIds _

theorem goTo (hnumbered : Numbered parentDir manager) (call : Nat) (found : TaskCall)
    (phase : TaskCallPhase) : Numbered parentDir (manager.goTo call found phase) :=
  ⟨hnumbered.ids, hnumbered.keys, hnumbered.objects, hnumbered.conversations,
    hnumbered.directory⟩

theorem nextId_eq (hnumbered : Numbered parentDir manager) :
    taskId (manager.tasks.keys.length + 1) = taskId (manager.generated.length + 1) := by
  rw [hnumbered.keys]

theorem nextId_notMem (hnumbered : Numbered parentDir manager) :
    taskId (manager.tasks.keys.length + 1) ∉ manager.generated := by
  have hnodup := nodup_firstIds (manager.generated.length + 1)
  rw [firstIds_succ, ← hnumbered.ids, ← hnumbered.nextId_eq] at hnodup
  exact fun hmem => (List.nodup_append.mp hnodup).2.2 _ hmem _ (List.mem_singleton_self _) rfl

theorem lookup_mem (hnumbered : Numbered parentDir manager) {id : String} {task : ManagedTask}
    (htask : manager.lookup id = some task) :
    id ∈ manager.generated ∧ task ∈ manager.objects := by
  obtain ⟨number, hnumber, hobject⟩ := Option.bind_eq_some_iff.mp htask
  refine ⟨?_, List.mem_of_getElem? hobject⟩
  rw [← hnumbered.keys]
  exact Dict.isSome_get?_iff.mp (Option.isSome_of_eq_some hnumber)

theorem createTask (hnumbered : Numbered parentDir manager) :
    Numbered parentDir manager.createTask where
  ids := by
    change manager.generated ++ [_] = firstIds (manager.generated ++ [_]).length
    rw [List.length_append, List.length_singleton, firstIds_succ, ← hnumbered.ids,
      hnumbered.nextId_eq]
  keys := by
    have hnew := hnumbered.nextId_notMem
    rw [← hnumbered.keys] at hnew
    exact (Dict.keys_set_of_notMem hnew _).trans (congrArg (· ++ [_]) hnumbered.keys)
  objects := by
    intro object hmem
    obtain hold | hnew := List.mem_append.mp hmem
    · exact List.mem_append_left _ (hnumbered.objects object hold)
    · cases List.mem_singleton.mp hnew
      exact List.mem_append_right _ (List.mem_singleton_self _)
  conversations := by
    intro conversation hmem
    obtain hold | hnew := List.mem_append.mp hmem
    · exact List.mem_append_left _ (hnumbered.conversations conversation hold)
    · cases List.mem_singleton.mp hnew
      exact List.mem_append_right _ (List.mem_singleton_self _)
  directory := hnumbered.directory

theorem resumeTask (hnumbered : Numbered parentDir manager) {id : String} {task : ManagedTask}
    (htask : manager.lookup id = some task) :
    Numbered parentDir (manager.resumeTask id task) := by
  obtain ⟨hid, hobject⟩ := hnumbered.lookup_mem htask
  refine ⟨hnumbered.ids, ?_, ?_, ?_, hnumbered.directory⟩
  · rw [← hnumbered.keys] at hid
    exact (Dict.keys_set_of_mem hid _).trans hnumbered.keys
  · intro object hmem
    obtain hold | hnew := List.mem_append.mp hmem
    · exact hnumbered.objects object hold
    · cases List.mem_singleton.mp hnew
      exact hnumbered.objects task hobject
  · intro conversation hmem
    obtain hold | hnew := List.mem_append.mp hmem
    · exact hnumbered.conversations conversation hold
    · cases List.mem_singleton.mp hnew
      exact hid

theorem assign (hnumbered : Numbered parentDir manager) :
    Numbered parentDir { manager with
      persistenceDir := some (manager.directory parentDir)
      temporaryDirs := manager.temporaryDirs + if parentDir.isSome then 0 else 1 } where
  ids := hnumbered.ids
  keys := hnumbered.keys
  objects := hnumbered.objects
  conversations := hnumbered.conversations
  directory := by
    intro dir hdir
    cases hdir
    exact used_directory

theorem setOutcome (hnumbered : Numbered parentDir manager) (task : Nat)
    (outcome : Except String String) : Numbered parentDir
      { manager with objects := manager.objects.modify task (setOutcome outcome) } where
  ids := hnumbered.ids
  keys := hnumbered.keys
  objects := by
    intro object hmem
    obtain ⟨old, hold, rfl | rfl⟩ := exists_of_mem_modify hmem
    · exact hnumbered.objects object hold
    · cases outcome <;> exact hnumbered.objects old hold
  conversations := hnumbered.conversations
  directory := hnumbered.directory

theorem closeConversation (hnumbered : Numbered parentDir manager) (number : Nat) :
    Numbered parentDir { manager with
      conversations := manager.conversations.modify number ({ · with isOpen := false }) } where
  ids := hnumbered.ids
  keys := hnumbered.keys
  objects := hnumbered.objects
  conversations := by
    intro conversation hmem
    obtain ⟨old, hold, rfl | rfl⟩ := exists_of_mem_modify hmem
    · exact hnumbered.conversations conversation hold
    · exact hnumbered.conversations old hold
  directory := hnumbered.directory

theorem evictTask (hnumbered : Numbered parentDir manager) {object : ManagedTask}
    (hobject : object ∈ manager.objects) (number : Nat) :
    Numbered parentDir { manager with
      tasks := manager.tasks.set object.id number
      objects := manager.objects ++ [{ object with conversation := none }] } where
  ids := hnumbered.ids
  keys := by
    have hid := hnumbered.objects object hobject
    rw [← hnumbered.keys] at hid
    exact (Dict.keys_set_of_mem hid _).trans hnumbered.keys
  objects := by
    intro other hmem
    obtain hold | hnew := List.mem_append.mp hmem
    · exact hnumbered.objects other hold
    · cases List.mem_singleton.mp hnew
      exact hnumbered.objects object hobject
  conversations := hnumbered.conversations
  directory := hnumbered.directory

end Numbered

/-! ## What isolation takes -/

section Isolation

theorem isolated_goTo (call : Nat) (found : TaskCall) (phase : TaskCallPhase) :
    Isolated (manager.goTo call found phase) ↔ Isolated manager :=
  ⟨fun h => ⟨h.ids, h.directory, h.single⟩, fun h => ⟨h.ids, h.directory, h.single⟩⟩

theorem openConversations_eq_zero {id : String}
    (hnone : ∀ conversation ∈ manager.conversations, conversation.taskId ≠ id) :
    manager.openConversations id = 0 := by
  refine List.countP_eq_zero.mpr fun conversation hmem hopen => ?_
  exact hnone conversation hmem (of_decide_eq_true (Bool.and_eq_true_iff.mp hopen).2)

/-- The directory of the parent may be assigned again and again. -/
theorem isolated_assign_iff (hnumbered : Numbered parentDir manager)
    (hisolated : Isolated manager) :
    Isolated { manager with
      persistenceDir := some (manager.directory parentDir)
      temporaryDirs := manager.temporaryDirs + if parentDir.isSome then 0 else 1 } ↔
      parentDir.isSome ∨ manager.conversations = [] := by
  refine ⟨fun hnext => ?_, fun hcondition => ⟨hisolated.ids, fun conversation hmem => ?_,
    hisolated.single⟩⟩
  · by_cases hempty : manager.conversations = []
    · exact .inr hempty
    obtain ⟨conversation, hmem⟩ := List.exists_mem_of_ne_nil _ hempty
    obtain ⟨hsome, hdir⟩ := hisolated.directory conversation hmem
    obtain ⟨dir, hassigned⟩ := Option.isSome_iff_exists.mp hsome
    have hused := hnumbered.directory dir (hdir.symm.trans hassigned)
    have hagain := (hnext.directory conversation hmem).2
    rw [hassigned] at hagain
    exact .inl (hused.eq_directory_iff.mp (Option.some.inj hagain))
  · obtain hparent | hempty := hcondition
    · obtain ⟨hsome, hdir⟩ := hisolated.directory conversation hmem
      refine ⟨hsome, hdir.trans ?_⟩
      obtain ⟨dir, hassigned⟩ := Option.isSome_iff_exists.mp hsome
      have hused := hnumbered.directory dir (hdir.symm.trans hassigned)
      rw [← hdir, hassigned, hused.eq_directory_iff.mpr hparent]
    · rw [hempty] at hmem
      cases hmem

/-- When a conversation is opened it takes the directory that there is. -/
theorem directory_concat_iff (hisolated : Isolated manager) (conversation : SubConversation)
    (hdir : conversation.persistenceDir = manager.persistenceDir) :
    (∀ other ∈ manager.conversations ++ [conversation], other.persistenceDir.isSome ∧
      other.persistenceDir = manager.persistenceDir) ↔ manager.persistenceDir.isSome := by
  refine ⟨fun hall => ?_, fun hsome other hmem => ?_⟩
  · rw [← hdir]
    exact (hall conversation (List.mem_append_right _ (List.mem_singleton_self _))).1
  · obtain hold | hnew := List.mem_append.mp hmem
    · exact hisolated.directory other hold
    · cases List.mem_singleton.mp hnew
      exact ⟨hdir ▸ hsome, hdir⟩

/-- A conversation that is opened for a task counts for that task. -/
theorem single_concat_iff (hisolated : Isolated manager) {conversation : SubConversation}
    (hopen : conversation.isOpen) :
    (∀ id, { manager with conversations := manager.conversations ++ [conversation]
      }.openConversations id ≤ 1) ↔ manager.openConversations conversation.taskId = 0 := by
  have hcount : ∀ id, { manager with conversations := manager.conversations ++ [conversation]
      }.openConversations id =
      manager.openConversations id + if conversation.taskId = id then 1 else 0 := by
    intro id
    rw [openConversations, List.countP_append, List.countP_singleton, hopen, Bool.true_and]
    simp only [decide_eq_true_eq]
    rfl
  refine ⟨fun hsingle => ?_, fun hzero id => ?_⟩
  · have hone := hsingle conversation.taskId
    rw [hcount, if_pos rfl] at hone
    omega
  · rw [hcount]
    split
    next heq =>
      rw [← heq, hzero]
    next => exact hisolated.single id

theorem isolated_createTask_iff (hnumbered : Numbered parentDir manager)
    (hisolated : Isolated manager) :
    Isolated manager.createTask ↔ manager.persistenceDir.isSome := by
  refine ⟨fun hnext => ?_, fun hsome => ⟨hnumbered.createTask.nodup, ?_, ?_⟩⟩
  · exact (directory_concat_iff hisolated _ rfl).mp hnext.directory
  · exact (directory_concat_iff hisolated _ rfl).mpr hsome
  · refine (single_concat_iff hisolated rfl).mpr (openConversations_eq_zero ?_)
    intro conversation hmem heq
    have hknown := hnumbered.conversations conversation hmem
    rw [heq] at hknown
    exact hnumbered.nextId_notMem hknown

theorem isolated_resumeTask_iff (hisolated : Isolated manager) (id : String)
    (task : ManagedTask) : Isolated (manager.resumeTask id task) ↔
      manager.persistenceDir.isSome ∧ manager.openConversations id = 0 := by
  refine ⟨fun hnext => ⟨?_, ?_⟩, fun ⟨hsome, hzero⟩ => ⟨hisolated.ids, ?_, ?_⟩⟩
  · exact (directory_concat_iff hisolated _ rfl).mp hnext.directory
  · exact (single_concat_iff hisolated rfl).mp hnext.single
  · exact (directory_concat_iff hisolated _ rfl).mpr hsome
  · exact (single_concat_iff hisolated rfl).mpr hzero

theorem Isolated.ofTasks (hisolated : Isolated manager) (objects : List ManagedTask)
    (tasks : Dict String Nat) : Isolated { manager with objects, tasks } :=
  ⟨hisolated.ids, hisolated.directory, hisolated.single⟩

theorem countP_modify_le {α : Type} {p : α → Bool} {f : α → α} (hp : ∀ value, p (f value) → p value)
    (list : List α) (number : Nat) : (list.modify number f).countP p ≤ list.countP p := by
  induction list generalizing number with
  | nil =>
      rw [List.modify_nil]
  | cons value rest ih =>
      cases number with
      | zero =>
          rw [List.modify_zero_cons, List.countP_cons, List.countP_cons]
          have := hp value
          split <;> split <;> grind
      | succ number =>
          rw [List.modify_succ_cons, List.countP_cons, List.countP_cons]
          exact Nat.add_le_add_right (ih number) _

/-- Closing a conversation opens none. -/
theorem Isolated.closeConversation (hisolated : Isolated manager) (number : Nat) :
    Isolated { manager with
      conversations := manager.conversations.modify number ({ · with isOpen := false }) } where
  ids := hisolated.ids
  directory := by
    intro conversation hmem
    obtain ⟨old, hold, rfl | rfl⟩ := exists_of_mem_modify hmem
    · exact hisolated.directory conversation hold
    · exact hisolated.directory old hold
  single := by
    intro id
    refine (countP_modify_le (fun conversation hopen => ?_) _ _).trans (hisolated.single id)
    cases hopen

end Isolation

/-! ## Steps -/

theorem ensureParent_step {call : Nat} {found : TaskCall} {next : TaskManager}
    (hnumbered : Numbered parentDir manager) (hisolated : Isolated manager)
    (hcall : manager.calls call = some found)
    (hnext : manager.ensureParent parentDir call found = some next) :
    Numbered parentDir next ∧
      (Isolated next ↔ manager.isClean parentDir (.ensureParent call)) := by
  unfold ensureParent at hnext
  split at hnext
  next hphase =>
    cases hnext
    refine ⟨hnumbered.goTo .., (isolated_goTo ..).trans (iff_of_true hisolated ?_)⟩
    simp [isClean, hcall, hphase]
  next hphase =>
    cases hnext
    have hset : Isolated { manager with hasParent := true } :=
      ⟨hisolated.ids, hisolated.directory, hisolated.single⟩
    have hsetNumbered : Numbered parentDir { manager with hasParent := true } :=
      ⟨hnumbered.ids, hnumbered.keys, hnumbered.objects, hnumbered.conversations,
        hnumbered.directory⟩
    refine ⟨hsetNumbered.goTo .., (isolated_goTo ..).trans (iff_of_true hset ?_)⟩
    simp [isClean, hcall, hphase]
  next hphase =>
    cases hnext
    refine ⟨hnumbered.assign.goTo .., (isolated_goTo ..).trans
      ((isolated_assign_iff hnumbered hisolated).trans ?_)⟩
    simp [isClean, hcall, hphase]
  next => cases hnext

theorem openTask_step {call : Nat} {found : TaskCall} {hasFactory : Bool} {next : TaskManager}
    (hnumbered : Numbered parentDir manager) (hisolated : Isolated manager)
    (hcall : manager.calls call = some found)
    (hnext : manager.openTask call found hasFactory = some next) :
    Numbered parentDir next ∧
      (Isolated next ↔ manager.isClean parentDir (.openTask call hasFactory)) := by
  unfold openTask at hnext
  split at hnext
  next => cases hnext
  next =>
    dsimp only at hnext
    split at hnext
    next hresumed =>
      split at hnext
      next hfactory =>
        cases hnext
        refine ⟨hnumbered.createTask.goTo .., (isolated_goTo ..).trans
          ((isolated_createTask_iff hnumbered hisolated).trans ?_)⟩
        simp [isClean, hcall, hresumed, hfactory]
      next hfactory =>
        cases hnext
        refine ⟨hnumbered.goTo .., (isolated_goTo ..).trans (iff_of_true hisolated ?_)⟩
        simp [isClean, hcall, hresumed, hfactory]
    next id hresumed =>
      split at hnext
      next hunknown =>
        cases hnext
        refine ⟨hnumbered.goTo .., (isolated_goTo ..).trans (iff_of_true hisolated ?_)⟩
        simp [isClean, hcall, hresumed, hunknown]
      next task htask =>
        split at hnext
        next hfactory =>
          cases hnext
          refine ⟨(hnumbered.resumeTask htask).goTo .., (isolated_goTo ..).trans
            ((isolated_resumeTask_iff hisolated id task).trans ?_)⟩
          simp [isClean, hcall, hresumed, hfactory, htask]
        next hfactory =>
          cases hnext
          refine ⟨hnumbered.goTo .., (isolated_goTo ..).trans (iff_of_true hisolated ?_)⟩
          simp [isClean, hcall, hresumed, hfactory]

/-- Running a task and leaving it gets in no other task's way. -/
theorem closing_step {call : Nat} {found : TaskCall} {next : TaskManager}
    (hnumbered : Numbered parentDir manager) (hisolated : Isolated manager)
    (hnext : (∃ outcome, manager.runTask call found outcome = some next) ∨
      manager.closeConversation call found = some next ∨
      manager.evictTask call found = some next) :
    Numbered parentDir next ∧ Isolated next := by
  obtain ⟨outcome, hrun⟩ | hclose | hevict := hnext
  · unfold runTask at hrun
    split at hrun
    next task _ =>
      cases hrun
      exact ⟨(hnumbered.setOutcome task outcome).goTo ..,
        (isolated_goTo ..).mpr (hisolated.ofTasks _ _)⟩
    next => cases hrun
  · unfold closeConversation at hclose
    split at hclose
    next task _ =>
      obtain ⟨object, -, rfl⟩ := Option.map_eq_some_iff.mp hclose
      dsimp only
      split
      next => exact ⟨hnumbered.goTo .., (isolated_goTo ..).mpr hisolated⟩
      next number _ =>
        exact ⟨(hnumbered.closeConversation number).goTo ..,
          (isolated_goTo ..).mpr (hisolated.closeConversation number)⟩
    next => cases hclose
  · unfold evictTask at hevict
    split at hevict
    next task _ =>
      obtain ⟨object, hobject, rfl⟩ := Option.map_eq_some_iff.mp hevict
      exact ⟨(hnumbered.evictTask (List.mem_of_getElem? hobject) _).goTo ..,
        (isolated_goTo ..).mpr (hisolated.ofTasks _ _)⟩
    next => cases hevict

theorem apply_step {label : TaskManagerStep} {next : TaskManager}
    (hnumbered : Numbered parentDir manager) (hisolated : Isolated manager)
    (hnext : manager.apply parentDir label = some next) :
    Numbered parentDir next ∧ (Isolated next ↔ manager.isClean parentDir label) := by
  cases label with
  | startTask call resume =>
      obtain ⟨-, hnext⟩ := Option.ite_none_left_eq_some.mp hnext
      cases hnext
      refine ⟨⟨hnumbered.ids, hnumbered.keys, hnumbered.objects, hnumbered.conversations,
        hnumbered.directory⟩, iff_of_true ?_ rfl⟩
      exact ⟨hisolated.ids, hisolated.directory, hisolated.single⟩
  | ensureParent call =>
      obtain ⟨found, hcall, hnext⟩ := Option.bind_eq_some_iff.mp hnext
      exact ensureParent_step hnumbered hisolated hcall hnext
  | openTask call hasFactory =>
      obtain ⟨found, hcall, hnext⟩ := Option.bind_eq_some_iff.mp hnext
      exact openTask_step hnumbered hisolated hcall hnext
  | runTask call outcome =>
      obtain ⟨found, hcall, hnext⟩ := Option.bind_eq_some_iff.mp hnext
      obtain ⟨hkept, hapart⟩ := closing_step hnumbered hisolated (.inl ⟨outcome, hnext⟩)
      exact ⟨hkept, iff_of_true hapart rfl⟩
  | closeConversation call =>
      obtain ⟨found, hcall, hnext⟩ := Option.bind_eq_some_iff.mp hnext
      obtain ⟨hkept, hapart⟩ := closing_step hnumbered hisolated (.inr (.inl hnext))
      exact ⟨hkept, iff_of_true hapart rfl⟩
  | evictTask call =>
      obtain ⟨found, hcall, hnext⟩ := Option.bind_eq_some_iff.mp hnext
      obtain ⟨hkept, hapart⟩ := closing_step hnumbered hisolated (.inr (.inr hnext))
      exact ⟨hkept, iff_of_true hapart rfl⟩

/-- As long as every step is clean the tasks are isolated, and a step that is not ends it. -/
theorem isolated_of_runs (parentDir : Option String) {trace : List Unit} {manager : TaskManager}
    (hruns : ((system parentDir).restrict fun manager => manager.isClean parentDir).Runs {} trace
      manager) :
    Isolated manager ∧ ∀ label next, manager.apply parentDir label = some next →
      (Isolated next ↔ manager.isClean parentDir label) := by
  have hkept : Numbered parentDir manager ∧ Isolated manager := by
    refine hruns.invariant_restrict
      (fun _ manager => Numbered parentDir manager ∧ Isolated manager)
      ⟨.init, ⟨List.nodup_nil, nofun, fun _ => Nat.zero_le _⟩⟩ ?_
    intro _ manager label next _ hkept hclean hstep
    obtain ⟨middle, hnext, heq⟩ := Option.map_eq_some_iff.mp hstep
    cases heq
    obtain ⟨hnumbered, hiff⟩ := apply_step hkept.1 hkept.2 hnext
    exact ⟨hnumbered, hiff.mpr hclean⟩
  exact ⟨hkept.2, fun label next hnext => (apply_step hkept.1 hkept.2 hnext).2⟩

/-- The steps by which a call gets to the tasks as the first one. -/
def setUp (call : Nat) : List TaskManagerStep :=
  [.startTask call none, .ensureParent call, .ensureParent call, .ensureParent call]

/-- The steps of a task, from its conversation to its end. -/
def toEnd (call : Nat) : List TaskManagerStep :=
  [.openTask call true, .runTask call (.ok "done"), .closeConversation call, .evictTask call]

theorem isolated_of_runs_resumed : ∃ trace manager,
    ((system none).restrict fun manager => manager.isClean none).Runs {} trace manager ∧
      manager.generated = ["task_00000001", "task_00000002"] ∧
      manager.conversations.length = 3 ∧ Isolated manager := by
  have hresult : (((system none).restrict fun manager => manager.isClean none).run {}
      (setUp 0 ++ toEnd 0 ++ [.startTask 1 none, .ensureParent 1, .openTask 1 true,
        .startTask 2 (some "task_00000001"), .ensureParent 2] ++ toEnd 2)).map
      (fun result => (result.1.generated, result.1.conversations.length)) =
      some (["task_00000001", "task_00000002"], 3) := by decide +kernel
  obtain ⟨⟨manager, trace⟩, hrun, hend⟩ := Option.map_eq_some_iff.mp hresult
  obtain ⟨hids, hlength⟩ := Prod.mk.inj hend
  have hruns := TransitionSystem.Runs.of_run _ hrun
  exact ⟨trace, manager, hruns, hids, hlength, (isolated_of_runs none hruns).1⟩

/-- Of two calls the second may come before the directory, and a task may be resumed while it
runs. -/
theorem not_isolated_when_parallel :
    (¬ ∀ trace manager, (system none).Runs {} trace manager →
      ∀ conversation ∈ manager.conversations, conversation.persistenceDir.isSome) ∧
    ¬ ∀ trace manager, (system none).Runs {} trace manager →
      ∀ id, manager.openConversations id ≤ 1 := by
  constructor
  · intro hall
    have hresult : ((system none).run {}
        [.startTask 0 none, .ensureParent 0, .ensureParent 0, .startTask 1 none, .ensureParent 1,
          .openTask 1 true]).map
        (fun result => result.1.conversations.all (·.persistenceDir.isSome)) = some false := by
      decide +kernel
    obtain ⟨⟨manager, trace⟩, hrun, hend⟩ := Option.map_eq_some_iff.mp hresult
    have hdirectory := hall trace manager (.of_run _ hrun)
    exact Bool.noConfusion ((List.all_eq_true.mpr hdirectory).symm.trans hend)
  · intro hall
    have hresult : ((system none).run {}
        (setUp 0 ++ [.openTask 0 true, .startTask 1 (some "task_00000001"), .ensureParent 1,
          .openTask 1 true])).map
        (fun result => result.1.openConversations "task_00000001") = some 2 := by
      decide +kernel
    obtain ⟨⟨manager, trace⟩, hrun, hend⟩ := Option.map_eq_some_iff.mp hresult
    have hsingle := hall trace manager (.of_run _ hrun) "task_00000001"
    dsimp only at hend
    omega

end TaskManager

end ShuttleFlow
