import Mathlib.Tactic.Common

/-! # Loops

A loop whose body either leaves it or goes on. A measure that the body decreases
bounds how often it goes on.
-/

namespace ShuttleFlow

/-- The outcome of one pass through the body of a loop. -/
inductive Pass (Exit State : Type)
  | leave (exit : Exit)
  | goOn (state : State)

/-- Run the body again and again; it knows how often it has been run. -/
def runPasses {Exit State : Type} (body : Nat → State → Pass Exit State) :
    Nat → Nat → State → Option Exit
  | 0, _, _ => none
  | fuel + 1, turn, state =>
      match body turn state with
      | .leave exit => some exit
      | .goOn next => runPasses body fuel (turn + 1) next

/-- The state after some passes, if none of them leaves the loop. -/
def afterPasses {Exit State : Type} (body : Nat → State → Pass Exit State) :
    Nat → Nat → State → Option State
  | 0, _, state => some state
  | count + 1, turn, state =>
      match body turn state with
      | .leave _ => none
      | .goOn next => afterPasses body count (turn + 1) next

variable {Exit State : Type} {body : Nat → State → Pass Exit State}

/-- More fuel does not change how the loop is left. -/
theorem runPasses_add {fuel turn : Nat} {state : State} {exit : Exit}
    (hloop : runPasses body fuel turn state = some exit) (extra : Nat) :
    runPasses body (fuel + extra) turn state = some exit := by
  induction fuel generalizing turn state with
  | zero => cases hloop
  | succ fuel ih =>
      rw [Nat.succ_add]
      unfold runPasses at hloop ⊢
      cases hbody : body turn state with
      | leave last => simpa only [hbody] using hloop
      | goOn next =>
          simp only [hbody] at hloop ⊢
          exact ih hloop

/-- However much fuel there is, the loop is left in one way. -/
theorem runPasses_unique {fuel other turn : Nat} {state : State} {exit last : Exit}
    (hloop : runPasses body fuel turn state = some exit)
    (hother : runPasses body other turn state = some last) : exit = last := by
  have hmore := runPasses_add hloop other
  rw [Nat.add_comm, runPasses_add hother fuel] at hmore
  exact (Option.some.inj hmore).symm

/-- Passes that do not leave the loop can be made beforehand. -/
theorem runPasses_afterPasses {count turn : Nat} {state middle : State}
    (hafter : afterPasses body count turn state = some middle) (fuel : Nat) :
    runPasses body (count + fuel) turn state = runPasses body fuel (turn + count) middle := by
  induction count generalizing turn state with
  | zero =>
      cases hafter
      rw [Nat.zero_add, Nat.add_zero]
  | succ count ih =>
      cases hbody : body turn state with
      | leave last =>
          simp only [afterPasses, hbody] at hafter
          cases hafter
      | goOn next =>
          simp only [afterPasses, hbody] at hafter
          rw [Nat.succ_add, ← Nat.succ_add_eq_add_succ, ← ih hafter]
          simp only [runPasses, hbody]

/-- A pass keeps the invariant, or leaves as promised. -/
def Pass.Keeps (Invariant : State → Prop) (Post : Exit → Prop) : Pass Exit State → Prop
  | .leave exit => Post exit
  | .goOn next => Invariant next

/-- However the loop is left, it is left as promised. -/
theorem runPasses_sound {Invariant : State → Prop} {Post : Exit → Prop}
    (hbody : ∀ turn state, Invariant state → (body turn state).Keeps Invariant Post)
    {fuel turn : Nat} {state : State} {exit : Exit} (hstate : Invariant state)
    (hloop : runPasses body fuel turn state = some exit) : Post exit := by
  induction fuel generalizing turn state with
  | zero => cases hloop
  | succ fuel ih =>
      have hpass := hbody turn state hstate
      unfold runPasses at hloop
      cases hnext : body turn state with
      | leave last =>
          rw [hnext] at hpass hloop
          cases hloop
          exact hpass
      | goOn next =>
          rw [hnext] at hpass hloop
          exact ih hpass hloop

/-- A pass keeps the invariant and decreases the measure, or leaves as promised. -/
def Progresses (Invariant : State → Prop) (measure : State → Nat) (Post : Exit → Prop)
    (state : State) : Pass Exit State → Prop
  | .leave exit => Post exit
  | .goOn next => Invariant next ∧ measure next < measure state

theorem Progresses.of_measure_le {Invariant : State → Prop} {measure : State → Nat}
    {Post : Exit → Prop} {first state : State} {pass : Pass Exit State}
    (hpass : Progresses Invariant measure Post state pass)
    (hle : measure state ≤ measure first) : Progresses Invariant measure Post first pass := by
  cases pass with
  | leave exit => exact hpass
  | goOn next => exact ⟨hpass.1, Nat.lt_of_lt_of_le hpass.2 hle⟩

/-- The loop is left before the measure is used up. -/
theorem runPasses_exits {Invariant : State → Prop} {measure : State → Nat} {Post : Exit → Prop}
    (hbody : ∀ turn state, Invariant state →
      Progresses Invariant measure Post state (body turn state))
    {bound : Nat} (turn : Nat) {state : State} (hstate : Invariant state)
    (hbound : measure state ≤ bound) :
    ∃ exit, Post exit ∧ runPasses body (bound + 1) turn state = some exit := by
  induction bound generalizing turn state with
  | zero =>
      have hpass := hbody turn state hstate
      unfold runPasses
      cases hnext : body turn state with
      | leave exit =>
          rw [hnext] at hpass
          exact ⟨exit, hpass, rfl⟩
      | goOn next =>
          rw [hnext] at hpass
          exact absurd hpass.2 (by omega)
  | succ bound ih =>
      have hpass := hbody turn state hstate
      unfold runPasses
      cases hnext : body turn state with
      | leave exit =>
          rw [hnext] at hpass
          exact ⟨exit, hpass, rfl⟩
      | goOn next =>
          rw [hnext] at hpass
          exact ih (turn + 1) hpass.1 (by have := hpass.2; omega)

end ShuttleFlow
