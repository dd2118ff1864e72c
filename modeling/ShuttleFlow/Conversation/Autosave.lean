import Mathlib.Data.List.Induction
import Mathlib.Logic.Function.Basic

/-! # Saving the state of a conversation

An assignment that changes a field saves the base state at once. Inside of `with` blocks it is
put off until the outermost block is left. A save may fail, and leave anything in its file.
-/

namespace ShuttleFlow

/-- Values as Python compares them. -/
structure Comparison (Value : Type) where
  same : Value → Value → Bool
  refl : ∀ value, same value value = true
  trans : ∀ {first second third}, same first second = true → same second third = true →
    same first third = true

/-- A state with autosave. The base state is what its file holds, if it holds one. -/
structure AutosavedState (Field Value : Type) where
  fields : Field → Value
  baseState : Option (Field → Value)
  saveDepth : Int
  dirty : Bool

inductive BaseSave (Field Value : Type)
  | succeeds
  | raises (left : Option (Field → Value))

inductive StateCall (Field Value : Type)
  | setattr (name : Field) (value : Value) (outcome : BaseSave Field Value)
  | enter
  | exit (outcome : BaseSave Field Value)

namespace AutosavedState

variable {Field Value : Type} [DecidableEq Field] (comparison : Comparison Value)

/-- `_save_base_state`, and whether it has succeeded. -/
def saveBaseState (outcome : BaseSave Field Value) (state : AutosavedState Field Value) :
    AutosavedState Field Value × Bool :=
  match outcome with
  | .succeeds => ({ state with baseState := some state.fields }, true)
  | .raises left => ({ state with baseState := left }, false)

/-- `__setattr__` of a public field, and whether a save that it attempts succeeds. -/
def setattr (name : Field) (value : Value) (outcome : BaseSave Field Value)
    (state : AutosavedState Field Value) : AutosavedState Field Value × Option Bool :=
  let old := state.fields name
  let assigned := { state with fields := Function.update state.fields name value }
  if comparison.same old value then (assigned, none)
  else if 0 < state.saveDepth then ({ assigned with dirty := true }, none)
  else
    let saved := assigned.saveBaseState outcome
    (saved.1, some saved.2)

/-- `__enter__`. -/
def enter (state : AutosavedState Field Value) : AutosavedState Field Value :=
  { state with saveDepth := state.saveDepth + 1 }

/-- `__exit__`. After a save that raises the state stays dirty. -/
def exit (outcome : BaseSave Field Value) (state : AutosavedState Field Value) :
    AutosavedState Field Value × Option Bool :=
  let left := { state with saveDepth := state.saveDepth - 1 }
  if left.saveDepth = 0 ∧ left.dirty = true then
    let saved := left.saveBaseState outcome
    (if saved.2 then { saved.1 with dirty := false } else saved.1, some saved.2)
  else (left, none)

def call (state : AutosavedState Field Value) :
    StateCall Field Value → AutosavedState Field Value × Option Bool
  | .setattr name value outcome => state.setattr comparison name value outcome
  | .enter => (state.enter, none)
  | .exit outcome => state.exit outcome

/-- The state after `create`, with its initial snapshot. -/
def created (fields : Field → Value) : AutosavedState Field Value :=
  { fields, baseState := some fields, saveDepth := 0, dirty := false }

end AutosavedState

/-- A state, and whether the most recent attempt to save it has succeeded. -/
structure AutosaveRun (Field Value : Type) where
  state : AutosavedState Field Value
  lastSaved : Bool

namespace AutosaveRun

variable {Field Value : Type} [DecidableEq Field] (comparison : Comparison Value)

def start (fields : Field → Value) : AutosaveRun Field Value :=
  { state := .created fields, lastSaved := true }

def call (run : AutosaveRun Field Value) (call : StateCall Field Value) :
    AutosaveRun Field Value :=
  let called := run.state.call comparison call
  { state := called.1, lastSaved := called.2.getD run.lastSaved }

def callAll (run : AutosaveRun Field Value) (calls : List (StateCall Field Value)) :
    AutosaveRun Field Value :=
  calls.foldl (call comparison) run

/-! ## What is asked of a run -/

/-- The file holds the fields as they are in memory. -/
def Persisted (state : AutosavedState Field Value) : Prop :=
  ∃ base, state.baseState = some base ∧
    ∀ name, comparison.same (base name) (state.fields name) = true

/-- An assignment that changes a field outside of all blocks, or the end of an outermost block. -/
def Opportunity (state : AutosavedState Field Value) : StateCall Field Value → Prop
  | .setattr name value _ =>
      comparison.same (state.fields name) value = false ∧ state.saveDepth ≤ 0
  | .enter => False
  | .exit _ => state.saveDepth = 1

/-- A save that has failed is attempted again as soon as there is an opportunity. -/
def Retries (run : AutosaveRun Field Value) (call : StateCall Field Value) : Prop :=
  run.lastSaved = false → Opportunity comparison run.state call →
    (run.state.call comparison call).2 ≠ none

/-- What holds in each state of a run, and of each of its calls. -/
structure AutosaveLaw (fields : Field → Value) (calls : List (StateCall Field Value)) : Prop where
  persisted : ∀ before after, calls = before ++ after →
    ((start fields).callAll comparison before).state.saveDepth = 0 →
      ((start fields).callAll comparison before).lastSaved = true →
        Persisted comparison ((start fields).callAll comparison before).state
  retries : ∀ before call after, calls = before ++ call :: after →
    Retries comparison ((start fields).callAll comparison before) call

/-- A field has been changed in a block, and no outermost block has been left since with a save that
succeeded. -/
def ChangedInBlock (fields : Field → Value) (calls : List (StateCall Field Value)) : Prop :=
  ∃ before name value outcome after, calls = before ++ .setattr name value outcome :: after ∧
    0 < ((start fields).callAll comparison before).state.saveDepth ∧
    comparison.same (((start fields).callAll comparison before).state.fields name) value = false ∧
    ∀ first last, after = first ++ .exit .succeeds :: last →
      ((start fields).callAll comparison
        (before ++ .setattr name value outcome :: first)).state.saveDepth ≠ 1

/-- No outermost block is left without a change in a block while a save that failed is pending. -/
def ForgetsNothing (fields : Field → Value) (calls : List (StateCall Field Value)) : Prop :=
  ∀ before outcome after, calls = before ++ .exit outcome :: after →
    ((start fields).callAll comparison before).state.saveDepth = 1 →
      ((start fields).callAll comparison before).lastSaved = false →
        ChangedInBlock comparison fields before

/-! ## One call -/

section Calls

variable {comparison} {state : AutosavedState Field Value} {run : AutosaveRun Field Value}
  {name : Field} {value : Value} {outcome : BaseSave Field Value}

omit [DecidableEq Field] in
theorem persisted_of_saved (state : AutosavedState Field Value)
    (hbase : state.baseState = some state.fields) : Persisted comparison state :=
  ⟨state.fields, hbase, fun name => comparison.refl (state.fields name)⟩

/-- An assignment that changes nothing needs no save. -/
theorem Persisted.assign {next : AutosavedState Field Value}
    (hpersisted : Persisted comparison state)
    (hsame : comparison.same (state.fields name) value = true)
    (hfields : next.fields = Function.update state.fields name value)
    (hbase : next.baseState = state.baseState) : Persisted comparison next := by
  obtain ⟨base, hstate, hall⟩ := hpersisted
  refine ⟨base, hbase.trans hstate, fun other => ?_⟩
  rw [hfields]
  by_cases hother : other = name
  · subst hother
    rw [Function.update_self]
    exact comparison.trans (hall other) hsame
  · rw [Function.update_of_ne hother]
    exact hall other

omit [DecidableEq Field] in
theorem Persisted.of_eq {next : AutosavedState Field Value}
    (hpersisted : Persisted comparison state)
    (hfields : next.fields = state.fields) (hbase : next.baseState = state.baseState) :
    Persisted comparison next := by
  obtain ⟨base, hstate, hall⟩ := hpersisted
  exact ⟨base, hbase.trans hstate, fun name => hfields ▸ hall name⟩

theorem setattr_of_same (hsame : comparison.same (state.fields name) value = true) :
    state.setattr comparison name value outcome =
      ({ state with fields := Function.update state.fields name value }, none) := by
  rw [AutosavedState.setattr, if_pos hsame]

theorem setattr_inside (hchanged : comparison.same (state.fields name) value = false)
    (hdepth : 0 < state.saveDepth) :
    state.setattr comparison name value outcome =
      ({ state with fields := Function.update state.fields name value, dirty := true }, none) := by
  simp only [AutosavedState.setattr, hchanged, Bool.false_eq_true, if_false, if_pos hdepth]

theorem setattr_outside (hchanged : comparison.same (state.fields name) value = false)
    (hdepth : state.saveDepth ≤ 0) :
    state.setattr comparison name value outcome =
      let saved := AutosavedState.saveBaseState outcome
        { state with fields := Function.update state.fields name value }
      (saved.1, some saved.2) := by
  simp only [AutosavedState.setattr, hchanged, Bool.false_eq_true, if_false,
    if_neg (Int.not_lt.mpr hdepth)]

omit [DecidableEq Field] in
theorem exit_clean (hclean : ¬ (state.saveDepth = 1 ∧ state.dirty = true)) :
    state.exit outcome = ({ state with saveDepth := state.saveDepth - 1 }, none) := by
  rw [AutosavedState.exit]
  refine if_neg fun hflush => hclean ⟨?_, hflush.2⟩
  have hdepth : state.saveDepth - 1 = 0 := hflush.1
  omega

omit [DecidableEq Field] in
theorem exit_dirty (hdepth : state.saveDepth = 1) (hdirty : state.dirty = true) :
    state.exit outcome =
      match outcome with
      | .succeeds => ({ state with
          baseState := some state.fields, saveDepth := 0, dirty := false }, some true)
      | .raises left => ({ state with baseState := left, saveDepth := 0 }, some false) := by
  have hleft : state.saveDepth - 1 = 0 := by omega
  cases outcome with
  | succeeds => simp [AutosavedState.exit, AutosavedState.saveBaseState, hleft, hdirty]
  | raises left => simp [AutosavedState.exit, AutosavedState.saveBaseState, hleft, hdirty]

/-- What a save that has succeeded is good for. Only a change in a block is not in the file. -/
structure Sound (comparison : Comparison Value) (run : AutosaveRun Field Value) : Prop where
  clean : run.lastSaved = true → run.state.dirty = false → Persisted comparison run.state
  outside : run.lastSaved = true → run.state.saveDepth ≤ 0 → Persisted comparison run.state

omit [DecidableEq Field] in
theorem sound_start (fields : Field → Value) : Sound comparison (start fields) where
  clean _ _ := persisted_of_saved _ rfl
  outside _ _ := persisted_of_saved _ rfl

theorem Sound.call (hsound : Sound comparison run) (call : StateCall Field Value) :
    Sound comparison (run.call comparison call) := by
  cases call with
  | setattr name value outcome =>
      by_cases hsame : comparison.same (run.state.fields name) value = true
      · rw [AutosaveRun.call, AutosavedState.call, setattr_of_same hsame]
        exact ⟨fun hsaved hdirty => (hsound.clean hsaved hdirty).assign hsame rfl rfl,
          fun hsaved hdepth => (hsound.outside hsaved hdepth).assign hsame rfl rfl⟩
      · have hchanged := Bool.eq_false_iff.mpr hsame
        by_cases hdepth : 0 < run.state.saveDepth
        · rw [AutosaveRun.call, AutosavedState.call, setattr_inside hchanged hdepth]
          constructor
          · intro _ hdirty
            cases hdirty
          · intro _ houtside
            exact absurd hdepth (Int.not_lt.mpr houtside)
        · rw [AutosaveRun.call, AutosavedState.call,
            setattr_outside hchanged (Int.not_lt.mp hdepth)]
          cases outcome with
          | succeeds =>
              exact ⟨fun _ _ => persisted_of_saved _ rfl, fun _ _ => persisted_of_saved _ rfl⟩
          | raises left =>
              constructor
              · intro hsaved
                cases hsaved
              · intro hsaved
                cases hsaved
  | enter =>
      constructor
      · intro hsaved hdirty
        exact (hsound.clean hsaved hdirty).of_eq rfl rfl
      · intro hsaved hdepth
        have hbefore : run.state.saveDepth ≤ 0 :=
          Int.le_trans (Int.le_add_one (Int.le_refl _)) hdepth
        exact (hsound.outside hsaved hbefore).of_eq rfl rfl
  | exit outcome =>
      by_cases hflush : run.state.saveDepth = 1 ∧ run.state.dirty = true
      · rw [AutosaveRun.call, AutosavedState.call, exit_dirty hflush.1 hflush.2]
        cases outcome with
        | succeeds =>
            exact ⟨fun _ _ => persisted_of_saved _ rfl, fun _ _ => persisted_of_saved _ rfl⟩
        | raises left =>
            constructor
            · intro hsaved
              cases hsaved
            · intro hsaved
              cases hsaved
      · rw [AutosaveRun.call, AutosavedState.call, exit_clean hflush]
        constructor
        · intro hsaved hdirty
          exact (hsound.clean hsaved hdirty).of_eq rfl rfl
        · intro hsaved hdepth
          -- at the end of a block there has been a flush, or nothing has been changed in it
          by_cases hlast : run.state.saveDepth = 1
          · have hdirty : run.state.dirty = false :=
              Bool.eq_false_iff.mpr fun hdirty => hflush ⟨hlast, hdirty⟩
            exact (hsound.clean hsaved hdirty).of_eq rfl rfl
          · have hbefore : run.state.saveDepth ≤ 0 := by
              change run.state.saveDepth - 1 ≤ 0 at hdepth
              omega
            exact (hsound.outside hsaved hbefore).of_eq rfl rfl

/-- What makes a state dirty, and what lets it stay so. -/
theorem dirty_call_iff (call : StateCall Field Value) :
    (run.call comparison call).state.dirty = true ↔
      (∃ name value outcome, call = .setattr name value outcome ∧ 0 < run.state.saveDepth ∧
        comparison.same (run.state.fields name) value = false) ∨
      run.state.dirty = true ∧ ¬ (call = .exit .succeeds ∧ run.state.saveDepth = 1) := by
  cases call with
  | setattr name value outcome =>
      by_cases hsame : comparison.same (run.state.fields name) value = true
      · simp [AutosaveRun.call, AutosavedState.call, setattr_of_same hsame, hsame]
      · have hchanged := Bool.eq_false_iff.mpr hsame
        by_cases hdepth : 0 < run.state.saveDepth
        · simp [AutosaveRun.call, AutosavedState.call, setattr_inside hchanged hdepth, hchanged,
            hdepth]
        · rw [AutosaveRun.call, AutosavedState.call,
            setattr_outside hchanged (Int.not_lt.mp hdepth)]
          cases outcome with
          | succeeds => simp [AutosavedState.saveBaseState, hdepth]
          | raises left => simp [AutosavedState.saveBaseState, hdepth]
  | enter => simp [AutosaveRun.call, AutosavedState.call, AutosavedState.enter]
  | exit outcome =>
      by_cases hflush : run.state.saveDepth = 1 ∧ run.state.dirty = true
      · rw [AutosaveRun.call, AutosavedState.call, exit_dirty hflush.1 hflush.2]
        cases outcome with
        | succeeds => simp [hflush.1]
        | raises left => simp [hflush.2]
      · rw [AutosaveRun.call, AutosavedState.call, exit_clean hflush]
        simp only [StateCall.exit.injEq, reduceCtorEq, false_and, exists_false, false_or]
        constructor
        · intro hdirty
          exact ⟨hdirty, fun hlast => hflush ⟨hlast.2, hdirty⟩⟩
        · exact And.left

end Calls

/-! ## Runs -/

section Runs

variable {comparison} {fields : Field → Value} {calls : List (StateCall Field Value)}

theorem callAll_concat (run : AutosaveRun Field Value) (calls : List (StateCall Field Value))
    (call : StateCall Field Value) :
    run.callAll comparison (calls ++ [call]) =
      (run.callAll comparison calls).call comparison call := by
  rw [callAll, List.foldl_append]
  rfl

theorem sound_callAll (fields : Field → Value) (calls : List (StateCall Field Value)) :
    Sound comparison ((start fields).callAll comparison calls) := by
  induction calls using List.reverseRecOn with
  | nil => exact sound_start fields
  | append_singleton calls call ih =>
      rw [callAll_concat]
      exact ih.call call

theorem not_changedInBlock_nil : ¬ ChangedInBlock comparison fields [] := by
  intro hchanged
  obtain ⟨before, name, value, outcome, after, hcalls, -⟩ := hchanged
  exact absurd hcalls.symm (List.append_ne_nil_of_right_ne_nil _ (List.cons_ne_nil _ _))

/-- A change in a block is the last call, or it has come before and there is no flush after it. -/
theorem changedInBlock_concat_iff (call : StateCall Field Value) :
    ChangedInBlock comparison fields (calls ++ [call]) ↔
      (∃ name value outcome, call = .setattr name value outcome ∧
        0 < ((start fields).callAll comparison calls).state.saveDepth ∧
        comparison.same (((start fields).callAll comparison calls).state.fields name) value =
          false) ∨
      ChangedInBlock comparison fields calls ∧
        ¬ (call = .exit .succeeds ∧
          ((start fields).callAll comparison calls).state.saveDepth = 1) := by
  constructor
  · intro hchanged
    obtain ⟨before, name, value, outcome, after, hcalls, hdepth, hvalue, hkept⟩ := hchanged
    cases after using List.reverseRecOn with
    | nil =>
        left
        obtain ⟨rfl, hcall⟩ := List.append_inj' hcalls rfl
        exact ⟨name, value, outcome, List.head_eq_of_cons_eq hcall, hdepth, hvalue⟩
    | append_singleton after last _ =>
        right
        rw [← List.cons_append, ← List.append_assoc] at hcalls
        obtain ⟨rfl, hcall⟩ := List.append_inj' hcalls rfl
        obtain rfl := List.head_eq_of_cons_eq hcall
        refine ⟨⟨before, name, value, outcome, after, rfl, hdepth, hvalue, ?_⟩, ?_⟩
        · intro first rest hafter
          apply hkept first (rest ++ [call])
          rw [hafter, List.append_assoc, List.cons_append]
        · intro hflush
          obtain ⟨rfl, hlast⟩ := hflush
          exact hkept after [] rfl hlast
  · rintro (⟨name, value, outcome, rfl, hdepth, hvalue⟩ | ⟨hchanged, hflush⟩)
    · refine ⟨calls, name, value, outcome, [], rfl, hdepth, hvalue, ?_⟩
      intro first last hnil
      exact absurd hnil.symm (List.append_ne_nil_of_right_ne_nil _ (List.cons_ne_nil _ _))
    · obtain ⟨before, name, value, outcome, after, rfl, hdepth, hvalue, hkept⟩ := hchanged
      refine ⟨before, name, value, outcome, after ++ [call], ?_, hdepth, hvalue, ?_⟩
      · rw [List.append_assoc, List.cons_append]
      · intro first last hafter
        cases last using List.reverseRecOn with
        | nil =>
            obtain ⟨rfl, hcall⟩ := List.append_inj' hafter rfl
            intro hlast
            exact hflush ⟨List.head_eq_of_cons_eq hcall, hlast⟩
        | append_singleton last final _ =>
            rw [← List.cons_append, ← List.append_assoc] at hafter
            obtain ⟨hafter, -⟩ := List.append_inj' hafter rfl
            exact hkept first last hafter

/-- The flag tells what it stands for. -/
theorem dirty_callAll_iff (fields : Field → Value) (calls : List (StateCall Field Value)) :
    ((start fields).callAll comparison calls).state.dirty = true ↔
      ChangedInBlock comparison fields calls := by
  induction calls using List.reverseRecOn with
  | nil => exact iff_of_false Bool.false_ne_true not_changedInBlock_nil
  | append_singleton calls call ih =>
      rw [callAll_concat, dirty_call_iff, changedInBlock_concat_iff, ih]

end Runs

/-- The law holds of a run exactly if it forgets no save. -/
theorem autosaveLaw_iff (comparison : Comparison Value) (fields : Field → Value)
    (calls : List (StateCall Field Value)) :
    AutosaveLaw comparison fields calls ↔ ForgetsNothing comparison fields calls := by
  constructor
  · intro hlaw before outcome after hcalls hdepth hfailed
    rw [← dirty_callAll_iff]
    by_contra hclean
    apply hlaw.retries before (.exit outcome) after hcalls hfailed hdepth
    rw [AutosavedState.call, exit_clean fun hflush => hclean hflush.2]
  · intro hforgets
    constructor
    · intro before after _ hdepth hsaved
      exact (sound_callAll fields before).outside hsaved (Int.le_of_eq hdepth)
    · intro before call after hcalls hfailed hopportunity
      cases call with
      | setattr name value outcome =>
          rw [AutosavedState.call, setattr_outside hopportunity.1 hopportunity.2]
          exact Option.some_ne_none _
      | enter => exact hopportunity.elim
      | exit outcome =>
          have hdirty := (dirty_callAll_iff fields before).mpr
            (hforgets before outcome after hcalls hopportunity hfailed)
          rw [AutosavedState.call, exit_dirty hopportunity hdirty]
          cases outcome with
          | succeeds => exact Option.some_ne_none _
          | raises left => exact Option.some_ne_none _

/-- One field with two values. -/
def boolComparison : Comparison Bool where
  same first second := first == second
  refl := by decide
  trans := by decide

/-- A field is assigned, the save raises, and an empty block is entered and left. -/
def forgottenSave : List (StateCall Unit Bool) :=
  [.setattr () true (.raises (some fun _ => false)), .enter, .exit .succeeds]

theorem not_autosaveLaw_forgottenSave :
    ¬ AutosaveLaw boolComparison (fun _ => false) forgottenSave := by
  intro hlaw
  exact hlaw.retries [.setattr () true (.raises (some fun _ => false)), .enter] (.exit .succeeds) []
    rfl rfl rfl rfl

end AutosaveRun

end ShuttleFlow
