import Mathlib.Data.List.Basic

/-! # Transition systems

A step may be impossible. A possible step leads to one state, and shows the
outside a few observations.
-/

namespace ShuttleFlow

structure TransitionSystem (State Label Observation : Type) where
  step : State → Label → Option (State × List Observation)

namespace TransitionSystem

variable {State Label Observation : Type}

/-- The runs from a state, with all that was observed, in order. -/
inductive Runs (system : TransitionSystem State Label Observation) (start : State) :
    List Observation → State → Prop
  | refl : Runs system start [] start
  | step {trace seen : List Observation} {state next : State} (label : Label) :
      Runs system start trace state → system.step state label = some (next, seen) →
      Runs system start (trace ++ seen) next

def run (system : TransitionSystem State Label Observation) (state : State) :
    List Label → Option (State × List Observation)
  | [] => some (state, [])
  | label :: rest =>
      match system.step state label with
      | none => none
      | some (middle, seen) =>
          (run system middle rest).map fun result => (result.1, seen ++ result.2)

/-- Only some of the steps. -/
def restrict (system : TransitionSystem State Label Observation) (allowed : State → Label → Bool) :
    TransitionSystem State Label Observation where
  step state label := if allowed state label then system.step state label else none

variable {system : TransitionSystem State Label Observation} {start : State}

namespace Runs

/-- What holds at first and survives each step holds all along. -/
theorem invariant (Invariant : List Observation → State → Prop) (hstart : Invariant [] start)
    (hstep : ∀ trace state label next seen, Invariant trace state →
      system.step state label = some (next, seen) → Invariant (trace ++ seen) next)
    {trace : List Observation} {state : State} (hruns : system.Runs start trace state) :
    Invariant trace state := by
  induction hruns with
  | refl => exact hstart
  | step label _ hnext ih => exact hstep _ _ label _ _ ih hnext

/-- In a restricted run each step was allowed. -/
theorem invariant_restrict {allowed : State → Label → Bool}
    (Invariant : List Observation → State → Prop) (hstart : Invariant [] start)
    (hstep : ∀ trace state label next seen, Invariant trace state → allowed state label →
      system.step state label = some (next, seen) → Invariant (trace ++ seen) next)
    {trace : List Observation} {state : State}
    (hruns : (system.restrict allowed).Runs start trace state) : Invariant trace state := by
  refine hruns.invariant Invariant hstart fun trace state label next seen hinvariant hnext => ?_
  by_cases hallowed : allowed state label
  · exact hstep trace state label next seen hinvariant hallowed ((if_pos hallowed).symm.trans hnext)
  · cases (if_neg hallowed).symm.trans hnext

theorem trans {trace later : List Observation} {state last : State}
    (hruns : system.Runs start trace state) (hlater : system.Runs state later last) :
    system.Runs start (trace ++ later) last := by
  induction hlater with
  | refl =>
      rw [List.append_nil]
      exact hruns
  | step label _ hnext ih =>
      rw [← List.append_assoc]
      exact ih.step label hnext

theorem single {label : Label} {seen : List Observation} {next : State}
    (hstep : system.step start label = some (next, seen)) : system.Runs start seen next :=
  Runs.refl.step label hstep

theorem single_restrict {allowed : State → Label → Bool} {label : Label}
    {seen : List Observation} {next : State} (hallowed : allowed start label)
    (hstep : system.step start label = some (next, seen)) :
    (system.restrict allowed).Runs start seen next :=
  single ((if_pos hallowed).trans hstep)

/-- A restricted run is a run. -/
theorem of_restrict {allowed : State → Label → Bool} {trace : List Observation} {state : State}
    (hruns : (system.restrict allowed).Runs start trace state) :
    system.Runs start trace state := by
  induction hruns with
  | refl => exact .refl
  | step label _ hnext ih =>
      rw [restrict, Option.ite_none_right_eq_some] at hnext
      exact ih.step label hnext.2

theorem of_run (labels : List Label) {trace : List Observation} {state : State}
    (hrun : system.run start labels = some (state, trace)) : system.Runs start trace state := by
  induction labels generalizing start trace with
  | nil =>
      cases hrun
      exact .refl
  | cons label rest ih =>
      rw [run] at hrun
      split at hrun
      · cases hrun
      next middle seen hstep =>
        obtain ⟨⟨last, later⟩, hrest, heq⟩ := Option.map_eq_some_iff.mp hrun
        cases heq
        exact Runs.trans (Runs.refl.step label hstep) (ih hrest)

theorem exists_of_run (labels : List Label) {trace : List Observation}
    (hrun : (system.run start labels).map Prod.snd = some trace) :
    ∃ state, system.Runs start trace state := by
  obtain ⟨⟨state, seen⟩, hstate, rfl⟩ := Option.map_eq_some_iff.mp hrun
  exact ⟨state, of_run labels hstate⟩

end Runs

end TransitionSystem

end ShuttleFlow
