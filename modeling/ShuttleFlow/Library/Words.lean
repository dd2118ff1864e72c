import Mathlib.Data.List.Infix
import Mathlib.Tactic.Tauto
import ShuttleFlow.Library.Patterns

/-! # Words in texts -/

namespace ShuttleFlow

variable {α κ : Type}

/-- The first word may end in the beginning of the second. -/
def Overlaps (first second : List κ) : Prop :=
  ∃ shared, shared ≠ [] ∧ shared ≠ first ∧ shared ≠ second ∧ shared <:+ first ∧ shared <+: second

instance [DecidableEq κ] (first second : List κ) : Decidable (Overlaps first second) :=
  decidable_of_iff (∃ shared ∈ first.tails,
      shared ≠ [] ∧ shared ≠ first ∧ shared ≠ second ∧ shared <+: second) <| by
    refine exists_congr fun shared => ?_
    rw [List.mem_tails]
    tauto

/-- A word that is nowhere partly inside another one. It may be a part of it. -/
structure StaysOut (word other : List κ) : Prop where
  not_overlaps : ¬ Overlaps word other
  not_overlapped : ¬ Overlaps other word
  not_infix : ¬ other <:+: word

instance [DecidableEq κ] (word other : List κ) : Decidable (StaysOut word other) :=
  decidable_of_iff (¬ Overlaps word other ∧ ¬ Overlaps other word ∧ ¬ other <:+: word)
    ⟨fun hstays => ⟨hstays.1, hstays.2.1, hstays.2.2⟩,
      fun hstays => ⟨hstays.not_overlaps, hstays.not_overlapped, hstays.not_infix⟩⟩

theorem Overlaps.map {first second : List α} (f : α → κ) (hoverlaps : ∃ shared, shared ≠ [] ∧
    shared.length < first.length ∧ shared.length < second.length ∧ shared <:+ first ∧
      shared <+: second) :
    Overlaps (first.map f) (second.map f) := by
  obtain ⟨shared, hne, hfirst, hsecond, hsuffix, hinitial⟩ := hoverlaps
  refine ⟨shared.map f, fun hnil => hne (List.map_eq_nil_iff.mp hnil), fun heq => ?_,
    fun heq => ?_, hsuffix.map f, hinitial.map f⟩
  · have hlength := congrArg List.length heq
    rw [List.length_map, List.length_map] at hlength
    omega
  · have hlength := congrArg List.length heq
    rw [List.length_map, List.length_map] at hlength
    omega

/-- Where a part of a text reaches into a block that its word stays out of, it is inside. -/
theorem StaysOut.inside {f : α → κ} {part block before after left right : List α}
    (hstays : StaysOut (part.map f) (block.map f))
    (hsplit : left ++ block ++ right = before ++ part ++ after)
    (hleft : before.length < left.length + block.length)
    (hright : left.length < before.length + part.length) :
    ∃ start rest, block = start ++ part ++ rest := by
  have hwithin : ¬ block <:+: part := fun hwithin => hstays.not_infix (hwithin.map f)
  rw [List.append_assoc, List.append_assoc] at hsplit
  rcases List.append_eq_append_iff.mp hsplit with ⟨start, rfl, hrest⟩ | ⟨start, rfl, hrest⟩
  · -- The part begins inside the block.
    rw [List.length_append] at hleft
    rcases List.append_eq_append_iff.mp hrest with ⟨middle, rfl, -⟩ | ⟨shared, rfl, hpart⟩
    · rw [List.length_append] at hleft
      omega
    rcases List.append_eq_append_iff.mp hpart with ⟨more, rfl, -⟩ | ⟨more, rfl, -⟩
    · exact ⟨start, more, (List.append_assoc _ _ _).symm⟩
    cases more with
    | nil => exact ⟨start, [], by rw [List.append_nil, List.append_nil]⟩
    | cons item more =>
        cases start with
        | nil => exact absurd ⟨[], item :: more, rfl⟩ hwithin
        | cons first start =>
            rw [List.length_append] at hleft
            refine absurd (Overlaps.map f ⟨shared, ?_, ?_, ?_, ?_, ?_⟩) hstays.not_overlapped
            · exact List.length_pos_iff.mp (by omega)
            · rw [List.length_append, List.length_cons]
              omega
            · rw [List.length_append, List.length_cons]
              omega
            · exact List.suffix_append _ _
            · exact List.prefix_append _ _
  · -- The block begins inside the part.
    rw [List.length_append] at hright
    rcases List.append_eq_append_iff.mp hrest with ⟨middle, rfl, -⟩ | ⟨shared, rfl, hblock⟩
    · rw [List.length_append] at hright
      omega
    rcases List.append_eq_append_iff.mp hblock with ⟨more, rfl, -⟩ | ⟨more, rfl, -⟩
    · exact absurd ⟨start, more, List.append_assoc _ _ _⟩ hwithin
    cases start with
    | nil => exact ⟨[], more, rfl⟩
    | cons first start =>
        cases more with
        | nil =>
            exact absurd ⟨first :: start, [], by rw [List.append_nil, List.append_nil]⟩ hwithin
        | cons item more =>
            rw [List.length_append] at hright
            refine absurd (Overlaps.map f ⟨shared, ?_, ?_, ?_, ?_, ?_⟩) hstays.not_overlaps
            · exact List.length_pos_iff.mp (by omega)
            · rw [List.length_append, List.length_cons]
              omega
            · rw [List.length_append, List.length_cons]
              omega
            · exact List.suffix_append _ _
            · exact List.prefix_append _ _

/-- A word, in a text of items that have letters. -/
def word (letter : α → κ) [DecidableEq κ] (letters : List κ) : Pattern α (List α) where
  find text :=
    if letters ≠ [] ∧ (text.take letters.length).map letter = letters then
      some (text.take letters.length)
    else none
  covers found := found
  covers_ne_nil hfind hnil := by
    rw [Option.ite_none_right_eq_some] at hfind
    obtain ⟨⟨hne, hletters⟩, hfound⟩ := hfind
    cases hfound
    rw [hnil] at hletters
    exact hne hletters.symm
  covers_initial hfind := by
    rw [Option.ite_none_right_eq_some] at hfind
    cases hfind.2
    exact List.take_prefix _ _

end ShuttleFlow
