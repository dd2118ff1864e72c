import Mathlib.Logic.Function.Basic
import ShuttleFlow.Library.Segments
import ShuttleFlow.Library.Transitions

/-! # Sections under an exclusive lock

Each section reads what is shared, and may then write it. What was read is a copy. A process
may end in the middle of a section, which frees the lock.
-/

namespace ShuttleFlow

/-- What becomes of what is shared, where a section may write nothing. -/
structure Section (Shared Reply : Type) where
  reply : Reply
  written : Option Shared := none

namespace CriticalSections

inductive Phase (Operation Shared : Type)
  | idle
  | waiting (operation : Operation)
  | entered (operation : Operation)
  | loaded (operation : Operation) (copy : Shared)
  | finished

inductive Label (Process Operation : Type)
  | request (process : Process) (operation : Operation)
  | acquire (process : Process)
  | load (process : Process)
  | finish (process : Process)
  | release (process : Process)
  | crash (process : Process)

/-- What was replied to an operation. -/
structure Completion (Operation Reply : Type) where
  operation : Operation
  reply : Reply

structure State (Process Operation Shared : Type) where
  shared : Shared
  holder : Option Process := none
  phase : Process → Phase Operation Shared := fun _ => .idle

variable {Process Operation Shared Reply : Type}

def Phase.isInside : Phase Operation Shared → Bool
  | idle | waiting _ => false
  | entered _ | loaded _ _ | finished => true

variable [DecidableEq Process]

def State.move (state : State Process Operation Shared) (process : Process)
    (phase : Phase Operation Shared) : State Process Operation Shared :=
  { state with phase := Function.update state.phase process phase }

variable (perform : Operation → Shared → Section Shared Reply)

def step (state : State Process Operation Shared) : Label Process Operation →
    Option (State Process Operation Shared × List (Completion Operation Reply))
  | .request process operation =>
      match state.phase process with
      | .idle => some (state.move process (.waiting operation), [])
      | _ => none
  | .acquire process =>
      match state.phase process, state.holder with
      | .waiting operation, none =>
          some ({ state.move process (.entered operation) with holder := some process }, [])
      | _, _ => none
  | .load process =>
      match state.phase process with
      | .entered operation => some (state.move process (.loaded operation state.shared), [])
      | _ => none
  | .finish process =>
      match state.phase process with
      | .loaded operation copy =>
          let result := perform operation copy
          some ({ state.move process .finished with
            shared := result.written.getD state.shared }, [⟨operation, result.reply⟩])
      | _ => none
  | .release process =>
      match state.phase process with
      | .finished => some ({ state.move process .idle with holder := none }, [])
      | _ => none
  | .crash process =>
      some ({ state.move process .idle with
        holder := if state.holder = some process then none else state.holder }, [])

def system : TransitionSystem (State Process Operation Shared) (Label Process Operation)
    (Completion Operation Reply) where
  step := step perform

/-- The operations one after the other. -/
inductive Serial (start : Shared) : List (Completion Operation Reply) → Shared → Prop
  | refl : Serial start [] start
  | step {trace : List (Completion Operation Reply)} {shared : Shared} (operation : Operation) :
      Serial start trace shared →
      Serial start (trace ++ [⟨operation, (perform operation shared).reply⟩])
        ((perform operation shared).written.getD shared)

/-- Each reply is that of its operation after those before. -/
theorem Serial.split {perform : Operation → Shared → Section Shared Reply} {start last : Shared}
    {trace before later : List (Completion Operation Reply)}
    {completion : Completion Operation Reply} (hserial : Serial perform start trace last)
    (hsplit : trace = before ++ completion :: later) :
    ∃ shared, Serial perform start before shared ∧
      completion.reply = (perform completion.operation shared).reply := by
  induction hserial generalizing later with
  | refl => cases List.nil_eq_append_iff.mp hsplit |>.2
  | @step trace shared operation hserial ih =>
      obtain ⟨rest, htrace⟩ | ⟨middle, hbefore, hlast⟩ := Segments.marker_cases hsplit
      · exact ih htrace
      · cases middle with
        | nil =>
            rw [List.append_nil] at hbefore
            obtain rfl := (List.cons.inj hlast).1
            exact ⟨shared, hbefore ▸ hserial, rfl⟩
        | cons _ middle =>
            cases (List.nil_eq_append_iff.mp (List.cons.inj hlast).2).2

/-- Who is inside holds the lock, and has an exact copy. -/
structure Exclusive (state : State Process Operation Shared) : Prop where
  holder : ∀ process, (state.phase process).isInside → state.holder = some process
  copy : ∀ process operation copy, state.phase process = .loaded operation copy →
    copy = state.shared

variable {perform} {start : Shared} {state next : State Process Operation Shared}
  {trace seen : List (Completion Operation Reply)}

omit [DecidableEq Process] in
theorem Exclusive.isInside_unique (hexclusive : Exclusive state) {process other : Process}
    (hprocess : (state.phase process).isInside) (hother : (state.phase other).isInside) :
    other = process :=
  Option.some.inj ((hexclusive.holder other hother).symm.trans
    (hexclusive.holder process hprocess))

/-- One process moves. What is shared and the holder stay as others inside know them. -/
theorem Exclusive.move (hexclusive : Exclusive state) {shared : Shared} {holder : Option Process}
    {process : Process} {phase : Phase Operation Shared}
    (hholder : phase.isInside → holder = some process)
    (hcopy : ∀ operation copy, phase = .loaded operation copy → copy = shared)
    (hothers : ∀ other, other ≠ process → (state.phase other).isInside →
      holder = state.holder ∧ shared = state.shared) :
    Exclusive
      { shared, holder, phase := Function.update state.phase process phase : State _ _ _ } := by
  constructor
  · intro other hinside
    change (Function.update state.phase process phase other).isInside at hinside
    by_cases hother : other = process
    · subst hother
      rw [Function.update_self] at hinside
      exact hholder hinside
    · rw [Function.update_of_ne hother] at hinside
      exact (hothers other hother hinside).1.trans (hexclusive.holder other hinside)
  · intro other operation copy hphase
    change Function.update state.phase process phase other = _ at hphase
    by_cases hother : other = process
    · subst hother
      rw [Function.update_self] at hphase
      exact hcopy operation copy hphase
    · rw [Function.update_of_ne hother] at hphase
      have hinside : (state.phase other).isInside := by rw [hphase]; rfl
      exact (hexclusive.copy other operation copy hphase).trans
        (hothers other hother hinside).2.symm

/-- Steps inside sections leave no trace, except for the last of them. -/
theorem Exclusive.step (hexclusive : Exclusive state) {label : Label Process Operation}
    (hnext : CriticalSections.step perform state label = some (next, seen)) :
    Exclusive next ∧ (seen = [] ∧ next.shared = state.shared ∨
      ∃ operation, seen = [⟨operation, (perform operation state.shared).reply⟩] ∧
        next.shared = (perform operation state.shared).written.getD state.shared) := by
  cases label with
  | request process operation =>
      simp only [CriticalSections.step] at hnext
      split at hnext
      next =>
        cases hnext
        exact ⟨hexclusive.move nofun nofun fun other _ _ => ⟨rfl, rfl⟩, .inl ⟨rfl, rfl⟩⟩
      next => cases hnext
  | acquire process =>
      simp only [CriticalSections.step] at hnext
      split at hnext
      next operation _ hfree =>
        cases hnext
        refine ⟨hexclusive.move (fun _ => rfl) nofun fun other _ hinside => ?_, .inl ⟨rfl, rfl⟩⟩
        cases hfree.symm.trans (hexclusive.holder other hinside)
      next => cases hnext
  | load process =>
      simp only [CriticalSections.step] at hnext
      split at hnext
      next operation hphase =>
        cases hnext
        have hinside : (state.phase process).isInside := by rw [hphase]; rfl
        refine ⟨hexclusive.move (fun _ => hexclusive.holder process hinside) ?_
          fun other _ _ => ⟨rfl, rfl⟩, .inl ⟨rfl, rfl⟩⟩
        intro _ copy hcopy
        cases hcopy
        rfl
      next => cases hnext
  | finish process =>
      simp only [CriticalSections.step] at hnext
      split at hnext
      next operation copy hphase =>
        cases hnext
        have hinside : (state.phase process).isInside := by rw [hphase]; rfl
        have hcopy : copy = state.shared := hexclusive.copy process operation copy hphase
        subst hcopy
        refine ⟨hexclusive.move (fun _ => hexclusive.holder process hinside) nofun
          fun other hother hin => absurd (hexclusive.isInside_unique hinside hin) hother,
          .inr ⟨operation, rfl, rfl⟩⟩
      next => cases hnext
  | release process =>
      simp only [CriticalSections.step] at hnext
      split at hnext
      next hphase =>
        cases hnext
        have hinside : (state.phase process).isInside := by rw [hphase]; rfl
        exact ⟨hexclusive.move nofun nofun
          fun other hother hin => absurd (hexclusive.isInside_unique hinside hin) hother,
          .inl ⟨rfl, rfl⟩⟩
      next => cases hnext
  | crash process =>
      cases hnext
      refine ⟨hexclusive.move nofun nofun fun other hother hinside => ⟨?_, rfl⟩,
        .inl ⟨rfl, rfl⟩⟩
      refine if_neg fun hholder => hother ?_
      exact Option.some.inj ((hexclusive.holder other hinside).symm.trans hholder)

/-- In every run the sections are performed one after the other. -/
theorem serial_of_runs (hruns : (system perform).Runs { shared := start } trace state) :
    Serial perform start trace state.shared := by
  refine (hruns.invariant (fun trace state =>
    Serial perform start trace state.shared ∧ Exclusive state) ⟨.refl, nofun, nofun⟩ ?_).1
  intro trace state label next seen hinvariant hnext
  obtain ⟨hexclusive, hsilent | hperformed⟩ := hinvariant.2.step hnext
  · rw [hsilent.1, hsilent.2, List.append_nil]
    exact ⟨hinvariant.1, hexclusive⟩
  · obtain ⟨operation, rfl, hshared⟩ := hperformed
    rw [hshared]
    exact ⟨hinvariant.1.step operation, hexclusive⟩

end CriticalSections

end ShuttleFlow
