import ShuttleFlow.Terminal.QueryPatterns

/-! # Output that comes in chunks

A filter that gets its output in chunks holds back the same end of it as one that gets it all at
once. But it takes queries out of each released part separately, so that a query that lies across
two parts stays. Such a query only comes about when another one is taken out.
-/

namespace ShuttleFlow

namespace TerminalQueryFilter

open Removal

/-- What a call releases for a chunk, when `seen` came in before. -/
def released (seen chunk : List Char) : List Char :=
  (holdBack (seen ++ chunk)).1.drop (holdBack seen).1.length

/-- No query lies across the end of what a call has released, in any pass. -/
def Joinless : (seen : List Char) → (chunks : List (List Char)) → Prop
  | _, [] => True
  | seen, chunk :: rest =>
      Unjoined queryPatterns (holdBack seen).1 (released seen chunk) ∧ Joinless (seen ++ chunk) rest

/-! ## What is complete stays complete -/

variable {text seen chunk : List Char}

theorem atEnd_append (hend : atEnd text = false) (more : List Char) :
    atEnd (text ++ more) = false := by
  cases text with
  | nil => cases hend
  | cons first rest =>
      refine decide_eq_false ?_
      rintro (hnil | hnewline)
      · cases hnil
      · rw [List.cons_append, List.cons.injEq, List.append_eq_nil_iff] at hnewline
        obtain ⟨rfl, rfl, -⟩ := hnewline
        cases hend

theorem mayContinue_append (hend : atEnd text = false) (hcomplete : mayContinue text = false)
    (more : List Char) : mayContinue (text ++ more) = false := by
  unfold mayContinue at hcomplete ⊢
  split at hcomplete
  next params =>
    have hne : (params.dropWhile fun c => c.isDigit || c = ';' || c = '>').isEmpty = false := by
      rw [List.isEmpty_eq_false_iff]
      intro hnil
      rw [hnil] at hcomplete
      cases hcomplete
    simp only [List.cons_append, List.dropWhile_append, hne, Bool.false_eq_true, if_false]
    exact atEnd_append hcomplete more
  next content =>
    have hbel : bel ∈ content := by simpa using hcomplete
    simp [hbel]
  next content =>
    have hclosed : [esc, '\\'] <:+: content := by simpa using hcomplete
    simpa using List.infix_append_of_infix_left hclosed
  next hcsi hosc hdcs =>
    cases text with
    | nil => cases hend
    | cons first rest =>
        rw [List.cons_append]
        split
        next params heq =>
          cases heq
          exact absurd rfl (hcsi rest)
        next content heq =>
          cases heq
          exact absurd rfl (hosc rest)
        next content heq =>
          cases heq
          exact absurd rfl (hdcs rest)
        next => rfl

theorem isIncomplete_append (hne : text ≠ []) (hcomplete : isIncomplete text = false)
    (more : List Char) : isIncomplete (text ++ more) = false := by
  cases text with
  | nil => exact absurd rfl hne
  | cons first rest =>
      rw [isIncomplete, Bool.and_eq_false_iff] at hcomplete
      rw [List.cons_append, isIncomplete, Bool.and_eq_false_iff]
      refine hcomplete.imp_right fun hrest => ?_
      rw [Bool.or_eq_false_iff] at hrest ⊢
      exact ⟨atEnd_append hrest.1 more, mayContinue_append hrest.1 hrest.2 more⟩

/-- More output only adds to what is released. -/
theorem holdBack_append (text more : List Char) :
    holdBack (text ++ more) =
      ((holdBack text).1 ++ (holdBack ((holdBack text).2 ++ more)).1,
        (holdBack ((holdBack text).2 ++ more)).2) := by
  induction text with
  | nil => rfl
  | cons first rest ih =>
      cases hincomplete : isIncomplete (first :: rest) with
      | true => simp only [holdBack, hincomplete, if_true, List.nil_append]
      | false =>
          have hlater := isIncomplete_append (List.cons_ne_nil first rest) hincomplete more
          rw [holdBack_cons (by rw [hincomplete]; exact Bool.false_ne_true)]
          rw [List.cons_append] at hlater ⊢
          rw [holdBack_cons (by rw [hlater]; exact Bool.false_ne_true), ih, List.cons_append]

theorem holdBack_released (seen chunk : List Char) :
    (holdBack seen).1 ++ released seen chunk = (holdBack (seen ++ chunk)).1 ∧
      holdBack ((holdBack seen).2 ++ chunk) =
        (released seen chunk, (holdBack (seen ++ chunk)).2) := by
  rw [released, holdBack_append seen chunk]
  simp

/-! ## Chunks and the whole output -/

theorem filterTerminalQueries_eq (output : List Char) :
    filterTerminalQueries output =
      filterCompleteQueries (holdBack output).1 ++ filterCompleteQueries (holdBack output).2 := by
  simp only [filterTerminalQueries, filter, List.nil_append, flush]

/-- The chunks give what the whole output gives, or they give more. -/
theorem filterChunks_cases (chunks : List (List Char)) (seen : List Char) :
    Joinless seen chunks ∧
        filterCompleteQueries (holdBack seen).1 ++ filterChunks (holdBack seen).2 chunks =
          filterTerminalQueries (seen ++ chunks.flatten) ∨
      ¬Joinless seen chunks ∧
        (filterTerminalQueries (seen ++ chunks.flatten)).length <
          (filterCompleteQueries (holdBack seen).1).length +
            (filterChunks (holdBack seen).2 chunks).length := by
  induction chunks generalizing seen with
  | nil =>
      rw [List.flatten_nil, List.append_nil, filterTerminalQueries_eq, filterChunks, flush]
      exact .inl ⟨trivial, rfl⟩
  | cons chunk rest ih =>
      obtain ⟨hreleased, hheld⟩ := holdBack_released seen chunk
      have hfilter : filter (holdBack seen).2 chunk =
          (filterCompleteQueries (released seen chunk), (holdBack (seen ++ chunk)).2) := by
        rw [filter, hheld]
      have hrest := ih (seen ++ chunk)
      rw [← hreleased, List.append_assoc, ← List.flatten_cons] at hrest
      rw [filterChunks, hfilter]
      simp only [Joinless, List.length_append]
      have hparts := eraseAll_append_cases passes_queryPatterns (holdBack seen).1
        (released seen chunk)
      simp only [← filterCompleteQueries_eq] at hparts
      rcases hparts with ⟨hunjoined, hparts⟩ | ⟨hjoined, hless⟩
      · rw [hparts, List.append_assoc, List.length_append] at hrest
        rcases hrest with ⟨hjoinless, hrest⟩ | ⟨hjoins, hrest⟩
        · exact .inl ⟨⟨hunjoined, hjoinless⟩, hrest⟩
        · exact .inr ⟨fun hall => hjoins hall.2, by omega⟩
      · refine .inr ⟨fun hall => hjoined hall.1, ?_⟩
        rcases hrest with ⟨-, hrest⟩ | ⟨-, hrest⟩
        · rw [← hrest, List.length_append]
          omega
        · omega

/-- Chunks make no difference exactly if no query lies across the ends of what is released. -/
theorem filterChunks_eq_iff_joinless (chunks : List (List Char)) :
    filterChunks [] chunks = filterTerminalQueries chunks.flatten ↔ Joinless [] chunks := by
  rcases filterChunks_cases chunks [] with ⟨hjoinless, heq⟩ | ⟨hjoins, hless⟩
  · exact iff_of_true heq hjoinless
  · refine iff_of_false (fun heq => ?_) hjoins
    rw [List.nil_append, ← heq] at hless
    exact absurd hless (by simp [holdBack, filterCompleteQueries_of_notMem])

/-- A query is taken out of another one, and the last letter comes in the next chunk. -/
theorem filterChunks_ne_split :
    filterChunks [] [esc :: '[' :: esc :: "[6n".toList, ['c']] ≠
      filterTerminalQueries [esc :: '[' :: esc :: "[6n".toList, ['c']].flatten := by
  decide +kernel

end TerminalQueryFilter

end ShuttleFlow
