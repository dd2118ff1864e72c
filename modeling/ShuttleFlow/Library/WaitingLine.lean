import Mathlib.Data.List.Induction
import Mathlib.Logic.Relation
import Mathlib.Order.Defs.Unbundled

/-! # First come, first served

A guest arrives at the end of a line, is served at its head, or leaves it. A
guest who finds nobody in line may be served at once.
-/

namespace ShuttleFlow

variable {Guest : Type} [DecidableEq Guest]

inductive Visit (Guest : Type) where
  | arrive (guest : Guest)
  | serve (guest : Guest)
  | leave (guest : Guest)
  | walkIn
  deriving DecidableEq

namespace Visit

def move (line : List Guest) : Visit Guest → List Guest
  | .arrive guest => line ++ [guest]
  | .serve guest => line.erase guest
  | .leave guest => line.erase guest
  | .walkIn => line

@[simp] theorem move_serve_head (guest : Guest) (rest : List Guest) :
    move (guest :: rest) (.serve guest) = rest := List.erase_cons_head ..

@[simp] theorem move_leave_head (guest : Guest) (rest : List Guest) :
    move (guest :: rest) (.leave guest) = rest := List.erase_cons_head ..

theorem move_leave_of_ne {first guest : Guest} (hne : first ≠ guest) (rest : List Guest) :
    move (first :: rest) (.leave guest) = first :: move rest (.leave guest) :=
  List.erase_cons_tail (by simpa using hne)

/-- Who is in line after some visits. -/
def line (visits : List (Visit Guest)) : List Guest := visits.foldl move []

@[simp] theorem line_nil : line ([] : List (Visit Guest)) = [] := rfl

@[simp] theorem line_snoc (visits : List (Visit Guest)) (visit : Visit Guest) :
    line (visits ++ [visit]) = move (line visits) visit := by
  rw [line, line, List.foldl_append, List.foldl_cons, List.foldl_nil]

/-- May this visit come next? -/
def Allowed (visits : List (Visit Guest)) : Visit Guest → Prop
  | .arrive guest => guest ∉ line visits
  | .serve guest => (line visits).head? = some guest
  | .leave guest => guest ∈ line visits
  | .walkIn => line visits = []

inductive InOrder : List (Visit Guest) → Prop
  | nil : InOrder []
  | snoc {visits : List (Visit Guest)} {visit : Visit Guest} :
      InOrder visits → Allowed visits visit → InOrder (visits ++ [visit])

namespace InOrder

theorem of_append {visits later : List (Visit Guest)} (horder : InOrder (visits ++ later)) :
    InOrder visits := by
  induction later using List.reverseRecOn with
  | nil => simpa using horder
  | append_singleton later visit ih =>
      refine ih ?_
      rw [← List.append_assoc] at horder
      generalize hall : visits ++ later ++ [visit] = all at horder
      cases horder with
      | nil => simp at hall
      | snoc hbefore _ =>
          obtain ⟨rfl, -⟩ := List.append_inj' hall rfl
          exact hbefore

theorem allowed {visits later : List (Visit Guest)} {visit : Visit Guest}
    (horder : InOrder (visits ++ visit :: later)) : Allowed visits visit := by
  have hsnoc : InOrder (visits ++ [visit]) := by
    rw [List.append_cons] at horder
    exact horder.of_append
  generalize hall : visits ++ [visit] = all at hsnoc
  cases hsnoc with
  | nil => simp at hall
  | snoc _ hallowed =>
      obtain ⟨rfl, heq⟩ := List.append_inj' hall rfl
      cases heq
      exact hallowed

/-- Only those who were there before a waiting guest can be in line before it. -/
theorem line_of_waiting {visits later : List (Visit Guest)} {guest : Guest}
    (hnew : guest ∉ line visits) (hserve : Visit.serve guest ∉ later)
    (hleave : Visit.leave guest ∉ later) :
    ∃ ahead behind, line (visits ++ .arrive guest :: later) = ahead ++ guest :: behind ∧
      guest ∉ ahead ∧ ahead ⊆ line visits := by
  induction later using List.reverseRecOn with
  | nil => exact ⟨line visits, [], by simp [move], hnew, List.Subset.refl _⟩
  | append_singleton later visit ih =>
      simp only [List.mem_append, List.mem_singleton, not_or] at hserve hleave
      obtain ⟨ahead, behind, hline, hahead, hsub⟩ := ih hserve.1 hleave.1
      rw [← List.cons_append, ← List.append_assoc, line_snoc, hline]
      have herase : ∀ other, other ≠ guest → ∃ ahead' behind',
          (ahead ++ guest :: behind).erase other = ahead' ++ guest :: behind' ∧
            guest ∉ ahead' ∧ ahead' ⊆ line visits := by
        intro other hother
        by_cases hmem : other ∈ ahead
        · refine ⟨ahead.erase other, behind, List.erase_append_left _ hmem, ?_, ?_⟩
          · exact fun hguest => hahead (List.mem_of_mem_erase hguest)
          · exact fun waiting hwaiting => hsub (List.mem_of_mem_erase hwaiting)
        · refine ⟨ahead, behind.erase other, ?_, hahead, hsub⟩
          rw [List.erase_append_right _ hmem, List.erase_cons_tail (by simpa using hother.symm)]
      cases visit with
      | arrive other =>
          exact ⟨ahead, behind ++ [other], by simp [move], hahead, hsub⟩
      | serve other =>
          exact herase other fun heq => hserve.2 (heq ▸ rfl)
      | leave other =>
          exact herase other fun heq => hleave.2 (heq ▸ rfl)
      | walkIn => exact ⟨ahead, behind, rfl, hahead, hsub⟩

theorem mem_of_mem_line {visits : List (Visit Guest)} {guest : Guest}
    (hmem : guest ∈ line visits) : Visit.arrive guest ∈ visits := by
  induction visits using List.reverseRecOn with
  | nil => simp at hmem
  | append_singleton visits visit ih =>
      rw [line_snoc] at hmem
      rw [List.mem_append, List.mem_singleton]
      cases visit with
      | arrive other =>
          rcases List.mem_append.mp hmem with hold | hnew
          · exact .inl (ih hold)
          · exact .inr (by rw [List.mem_singleton.mp hnew])
      | serve other => exact .inl (ih (List.mem_of_mem_erase hmem))
      | leave other => exact .inl (ih (List.mem_of_mem_erase hmem))
      | walkIn => exact .inl (ih hmem)

/-- While a guest waits, only those who came before it are served. -/
theorem serve_of_waiting {visits later rest : List (Visit Guest)} {guest other : Guest}
    (horder : InOrder (visits ++ .arrive guest :: (later ++ .serve other :: rest)))
    (hserve : Visit.serve guest ∉ later) (hleave : Visit.leave guest ∉ later) :
    other = guest ∨ Visit.arrive other ∈ visits := by
  have hnew : guest ∉ line visits := horder.allowed
  obtain ⟨ahead, behind, hline, -, hsub⟩ := line_of_waiting hnew hserve hleave
  rw [← List.cons_append, ← List.append_assoc] at horder
  have hhead : (line (visits ++ .arrive guest :: later)).head? = some other := horder.allowed
  rw [hline] at hhead
  cases ahead with
  | nil => exact .inl (by simpa [eq_comm] using hhead)
  | cons first ahead =>
      obtain rfl : first = other := by simpa using hhead
      exact .inr (mem_of_mem_line (hsub List.mem_cons_self))

/-- While a guest waits, nobody walks in. -/
theorem not_walkIn_of_waiting {visits later rest : List (Visit Guest)} {guest : Guest}
    (horder : InOrder (visits ++ .arrive guest :: (later ++ .walkIn :: rest)))
    (hserve : Visit.serve guest ∉ later) (hleave : Visit.leave guest ∉ later) : False := by
  have hnew : guest ∉ line visits := horder.allowed
  obtain ⟨ahead, behind, hline, -, -⟩ := line_of_waiting hnew hserve hleave
  rw [← List.cons_append, ← List.append_assoc] at horder
  have hempty : line (visits ++ .arrive guest :: later) = [] := horder.allowed
  rw [hline] at hempty
  simp at hempty

end InOrder

end Visit

omit [DecidableEq Guest] in
/-- Whoever waits for somebody who waits stands before him, so nobody waits for himself. -/
theorem not_transGen_self_of_rank {Rank : Type} {waits : Guest → Guest → Prop}
    (before : Rank → Rank → Prop) [IsTrans Rank before] [Std.Irrefl before] (rank : Guest → Rank)
    (hrank : ∀ first second third, waits first second → waits second third →
      before (rank first) (rank second)) (guest : Guest) :
    ¬Relation.TransGen waits guest guest := by
  have hbefore : ∀ last, Relation.TransGen waits guest last → ∀ other, waits last other →
      before (rank guest) (rank last) := by
    intro last hlast
    induction hlast with
    | single hwaits => exact fun other => hrank _ _ other hwaits
    | tail _ hwaits ih =>
        exact fun other hother => IsTrans.trans _ _ _ (ih _ hwaits) (hrank _ _ other hwaits hother)
  intro hcycle
  obtain ⟨other, hother, -⟩ := Relation.TransGen.head'_iff.mp hcycle
  exact irrefl _ (hbefore guest hcycle other hother)

end ShuttleFlow
