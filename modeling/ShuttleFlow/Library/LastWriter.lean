import Mathlib.Data.Setoid.Basic
import ShuttleFlow.Library.Segments

/-! # Records whose columns are written

A write replaces the record, and sets some of its columns. What the other columns hold is to
stay, so that each column holds what was last set.
-/

namespace ShuttleFlow.LastWriter

variable {Record Column : Type}

/-- A write, with the record before and after it. -/
structure Write (Record Column : Type) where
  before : Record
  after : Record
  sets : Column → Bool

/-- Each write replaces the record that the one before it left. -/
inductive Linked (start : Record) : List (Write Record Column) → Record → Prop
  | nil : Linked start [] start
  | snoc {writes : List (Write Record Column)} {write : Write Record Column} :
      Linked start writes write.before → Linked start (writes ++ [write]) write.after

variable {agrees : Column → Setoid Record} {start final : Record}
  {writes : List (Write Record Column)} {column : Column}

/-- The columns that a write does not set stay. -/
def Framed (agrees : Column → Setoid Record) (writes : List (Write Record Column)) : Prop :=
  ∀ write ∈ writes, ∀ column, write.sets column = false →
    agrees column write.before write.after

theorem Linked.agree_of_unset (hlinked : Linked start writes final)
    (hframed : Framed agrees writes) (hunset : ∀ write ∈ writes, write.sets column = false) :
    agrees column start final := by
  induction hlinked with
  | nil => exact (agrees column).refl' start
  | @snoc writes write hbefore ih =>
      have hlast : write ∈ writes ++ [write] :=
        List.mem_append_right _ (List.mem_singleton_self write)
      have hearlier : agrees column start write.before := by
        apply ih
        · intro earlier hearlier
          exact hframed earlier (List.mem_append_left _ hearlier)
        · intro earlier hearlier
          exact hunset earlier (List.mem_append_left _ hearlier)
      exact (agrees column).trans' hearlier (hframed write hlast column (hunset write hlast))

/-- A column holds what the last write that set it left there. -/
theorem Linked.agree_of_last (hlinked : Linked start writes final)
    (hframed : Framed agrees writes) {before after : List (Write Record Column)}
    {write : Write Record Column} (hsplit : writes = before ++ write :: after)
    (hlast : ∀ later ∈ after, later.sets column = false) :
    agrees column write.after final := by
  induction hlinked generalizing after with
  | nil => simp at hsplit
  | @snoc writes newest hbefore ih =>
      rcases Segments.marker_concat hsplit with ⟨-, rfl, -⟩ | ⟨rest, hrest, rfl⟩
      · exact (agrees column).refl' _
      · have hnewest : newest ∈ rest ++ [newest] :=
          List.mem_append_right _ (List.mem_singleton_self newest)
        have hbetween : agrees column write.after newest.before := by
          apply ih _ hrest
          · intro later hlater
            exact hlast later (List.mem_append_left _ hlater)
          · intro earlier hearlier
            exact hframed earlier (List.mem_append_left _ hearlier)
        exact (agrees column).trans' hbetween (hframed newest
          (List.mem_append_right _ (List.mem_singleton_self newest)) column (hlast newest hnewest))

end ShuttleFlow.LastWriter
