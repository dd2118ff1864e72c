import ShuttleFlow.Terminal.QueryPatterns

/-! # Output without queries

Taking a query out of the output may join what stands around it to another query. Where that does
not happen, no query is left in what a filter has emitted, whatever the chunks were. Held back is
the beginning of a query, unless the first incomplete sequence is one of those that no query
begins with.
-/

namespace ShuttleFlow

namespace TerminalQueryFilter

open Removal

/-- What the calls of a filter have emitted so far, and what it holds back. -/
structure FilterState where
  emitted : List Char := []
  pending : List Char := []
  deriving DecidableEq

namespace FilterState

def call (state : FilterState) (chunk : List Char) : FilterState :=
  let filtered := filter state.pending chunk
  { emitted := state.emitted ++ filtered.1, pending := filtered.2 }

def afterChunks (chunks : List (List Char)) : FilterState :=
  chunks.foldl call {}

end FilterState

/-! ## Beginnings of queries -/

/-- What a query can begin with, but is no query yet. -/
inductive Opening : List Char → Prop
  | escape : Opening [esc]
  | csi (params : List Char) (hparams : params ∈ ["", "6", "0", ">", ">0"].map String.toList) :
      Opening (esc :: '[' :: params)
  | oscDigits (digits : List Char) (hdigits : ∀ c ∈ digits, c.isDigit = true) :
      Opening (esc :: ']' :: digits)
  | osc (digits parameter ending : List Char) (hne : digits ≠ [])
      (hdigits : ∀ c ∈ digits, c.isDigit = true) (hparameter : IsParameter parameter)
      (hending : ending ∈ ["".toList, [';'], [';', '?'], [';', '?', esc]]) :
      Opening (esc :: ']' :: (digits ++ (parameter ++ ending)))
  | dcs (rest : List Char) (hrest : rest ∈ ["".toList, ['$']]) : Opening (esc :: 'P' :: rest)
  | dcsSetting (setting ending : List Char) (hsetting : esc ∉ setting)
      (hending : ending ∈ ["".toList, [esc]]) :
      Opening (esc :: 'P' :: '$' :: 'q' :: (setting ++ ending))

theorem queries_eq :
    queries = {word | ∃ pattern ∈ queryPatterns, word ∈ matched pattern} := by
  ext word
  simp only [queries, queryPatterns, Set.mem_union, Set.mem_ofPred_eq, List.mem_cons,
    List.not_mem_nil, or_false, exists_eq_or_imp, exists_eq_left, matched_dsr, matched_osc,
    matched_da, matched_da2, matched_decrqss, or_assoc]

theorem mem_queries_of_mem_csiWords {word : List Char} (hword : word ∈ csiWords) :
    word ∈ queries := by
  simp only [csiWords, List.mem_cons, List.not_mem_nil, or_false] at hword
  rcases hword with rfl | rfl | rfl | rfl | rfl
  · exact .inl (.inl (.inl (.inl (List.mem_singleton_self _))))
  · exact .inl (.inl (.inr List.mem_cons_self))
  · exact .inl (.inl (.inr (List.mem_cons_of_mem _ (List.mem_singleton_self _))))
  · exact .inl (.inr List.mem_cons_self)
  · exact .inl (.inr (List.mem_cons_of_mem _ (List.mem_singleton_self _)))

theorem mem_queries_of_mem_oscQueries {word : List Char} (hword : word ∈ oscQueries) :
    word ∈ queries := .inl (.inl (.inl (.inr hword)))

/-- Every opening goes on to a query. -/
theorem Opening.exists_query {text : List Char} (hopening : Opening text) :
    ∃ rest, rest ≠ [] ∧ text ++ rest ∈ queries := by
  cases hopening with
  | escape => exact ⟨"[6n".toList, by simp, mem_queries_of_mem_csiWords (by decide)⟩
  | csi params hparams =>
      have hwords : ∀ params ∈ ["", "6", "0", ">", ">0"].map String.toList,
          esc :: '[' :: (params ++ "6n".toList) ∈ csiWords ∨
          esc :: '[' :: (params ++ ['n']) ∈ csiWords ∨
          esc :: '[' :: (params ++ ['c']) ∈ csiWords := by decide
      rcases hwords params hparams with hword | hword | hword
      · exact ⟨"6n".toList, by simp, mem_queries_of_mem_csiWords hword⟩
      · exact ⟨['n'], by simp, mem_queries_of_mem_csiWords hword⟩
      · exact ⟨['c'], by simp, mem_queries_of_mem_csiWords hword⟩
  | oscDigits digits hdigits =>
      refine ⟨['0', ';', '?', bel], by simp, mem_queries_of_mem_oscQueries
        ⟨digits ++ ['0'], [], [';', '?', bel], by simp, by simp, ?_, trivial, by decide⟩⟩
      intro c hc
      rcases List.mem_append.mp hc with hc | hc
      · exact hdigits c hc
      · rw [List.mem_singleton.mp hc]
        rfl
  | osc digits parameter ending hne hdigits hparameter hending =>
      have hends : ∀ ending ∈ ["".toList, [';'], [';', '?'], [';', '?', esc]],
          ∃ whole ∈ queryEnds, ending <+: whole ∧ ending.length < whole.length := by decide
      obtain ⟨whole, hwhole, ⟨rest, rfl⟩, hlength⟩ := hends ending hending
      refine ⟨rest, ?_, mem_queries_of_mem_oscQueries
        ⟨digits, parameter, ending ++ rest, by simp, hne, hdigits, hparameter, hwhole⟩⟩
      rintro rfl
      simp at hlength
  | dcs rest hrest =>
      have hrests : ∀ rest ∈ ["".toList, ['$']], ∃ more, rest ++ more = ['$', 'q'] := by
        intro rest hrest
        rcases List.mem_cons.mp hrest with rfl | hrest
        · exact ⟨['$', 'q'], rfl⟩
        · exact ⟨['q'], by rw [List.mem_singleton.mp hrest]; rfl⟩
      obtain ⟨more, hmore⟩ := hrests rest hrest
      refine ⟨more ++ [esc, '\\'], by simp, .inr ⟨[], ?_, List.not_mem_nil⟩⟩
      rw [List.cons_append, List.cons_append, ← List.append_assoc, hmore]
      rfl
  | dcsSetting setting ending hsetting hending =>
      have hends : ∀ ending ∈ ["".toList, [esc]], ∃ rest, rest ≠ [] ∧
          ending ++ rest = [esc, '\\'] := by
        intro ending hending
        rcases List.mem_cons.mp hending with rfl | hending
        · exact ⟨[esc, '\\'], by simp, rfl⟩
        · exact ⟨['\\'], by simp, by rw [List.mem_singleton.mp hending]; rfl⟩
      obtain ⟨rest, hrest, hwhole⟩ := hends ending hending
      refine ⟨rest, hrest, .inr ⟨setting, ?_, hsetting⟩⟩
      rw [← hwhole]
      simp

/-! ## Calls -/

/-- The call joins no query, and holds back the beginning of one. -/
structure Harmless (state : FilterState) (chunk : List Char) : Prop where
  unjoined : Unjoined queryPatterns state.emitted (holdBack (state.pending ++ chunk)).1
  closed : Sealed ∅ queryPatterns (state.emitted ++ (holdBack (state.pending ++ chunk)).1)
  held : (holdBack (state.pending ++ chunk)).2 = [] ∨ Opening (holdBack (state.pending ++ chunk)).2

/-- No query is left, and only the beginning of one is held back. -/
structure Clean (state : FilterState) : Prop where
  noQuery : ¬Contains queries state.emitted
  held : ∃ rest, rest ≠ [] ∧ state.pending ++ rest ∈ queries
  flushed : ¬Contains queries (state.emitted ++ flush state.pending)
  idempotent : filterTerminalQueries (state.emitted ++ flush state.pending) =
    state.emitted ++ flush state.pending

variable {text : List Char} {state : FilterState}

theorem filterCompleteQueries_eq_self (hnone : ¬Contains queries text) :
    filterCompleteQueries text = text := by
  rw [filterCompleteQueries_eq, eraseAll_eq_self passes_queryPatterns hnone]

theorem holdBack_parts (text : List Char) : (holdBack text).1 ++ (holdBack text).2 = text := by
  induction text with
  | nil => rfl
  | cons first rest ih =>
      rw [holdBack]
      split
      · rfl
      · rw [List.cons_append, ih]

theorem filterTerminalQueries_eq_self (hnone : ¬Contains queries text) :
    filterTerminalQueries text = text := by
  have hparts := holdBack_parts text
  have hpart : ∀ part, part <:+: text → filterCompleteQueries part = part := by
    refine fun part hin => filterCompleteQueries_eq_self ?_
    rintro ⟨word, hword, hinfix⟩
    exact hnone ⟨word, hword, hinfix.trans hin⟩
  have hfront : (holdBack text).1 <:+: text := by
    conv_rhs => rw [← hparts]
    exact List.infix_append_left
  have hback : (holdBack text).2 <:+: text := by
    conv_rhs => rw [← hparts]
    exact List.infix_append_right
  simp only [filterTerminalQueries, filter, List.nil_append, flush]
  rw [hpart _ hfront, hpart _ hback, hparts]

/-- The held back beginning of a query adds no query. -/
theorem clean_of_noQuery (hnone : ¬Contains queries state.emitted)
    (hheld : ∃ rest, rest ≠ [] ∧ state.pending ++ rest ∈ queries) : Clean state := by
  obtain ⟨rest, hrest, hword⟩ := hheld
  have hpending := separate_queries.not_contains_front hword hrest
  have hflushed : ¬Contains queries (state.emitted ++ flush state.pending) := by
    rw [flush, filterCompleteQueries_eq_self hpending, contains_append_iff, not_or, not_or]
    exact ⟨hnone, hpending, separate_queries.not_across_front hword⟩
  exact ⟨hnone, ⟨rest, hrest, hword⟩, hflushed, filterTerminalQueries_eq_self hflushed⟩

theorem clean_start : Clean {} := by
  refine clean_of_noQuery ?_ ⟨esc :: "[6n".toList, by simp, mem_queries_of_mem_csiWords (by decide)⟩
  rintro ⟨word, hword, hinfix⟩
  obtain ⟨kind, body, ending, rfl, -⟩ := shaped_of_mem_queries hword
  cases List.infix_nil.mp hinfix

theorem emitted_call (state : FilterState) (chunk : List Char) :
    (state.call chunk).emitted =
      state.emitted ++ eraseAll queryPatterns (holdBack (state.pending ++ chunk)).1 := by
  simp only [FilterState.call, filter, ← filterCompleteQueries_eq]

theorem pending_call (state : FilterState) (chunk : List Char) :
    (state.call chunk).pending = (holdBack (state.pending ++ chunk)).2 := by
  simp only [FilterState.call, filter]

/-- A harmless call keeps the output clean. -/
theorem Clean.call {chunk : List Char} (hclean : Clean state) (hharmless : Harmless state chunk) :
    Clean (state.call chunk) := by
  refine clean_of_noQuery ?_ ?_
  · have hcases := eraseAll_append_cases passes_queryPatterns state.emitted
      (holdBack (state.pending ++ chunk)).1
    have hwhole := hcases.resolve_right fun hjoined => hjoined.1 hharmless.unjoined
    have hnone := not_contains_eraseAll passes_queryPatterns
      (by rintro ⟨word, hword, -⟩; exact hword) hharmless.closed
    rw [hwhole.2, eraseAll_eq_self passes_queryPatterns hclean.noQuery, ← queries_eq,
      Set.empty_union] at hnone
    rw [emitted_call]
    exact hnone
  · rw [pending_call]
    rcases hharmless.held with hnil | hopening
    · rw [hnil]
      exact ⟨esc :: "[6n".toList, by simp, mem_queries_of_mem_csiWords (by decide)⟩
    · exact hopening.exists_query

/-- When all calls are harmless, the output is clean after each of them. -/
theorem clean_of_harmless (chunks : List (List Char))
    (hharmless : ∀ seen chunk, seen ++ [chunk] <+: chunks →
      Harmless (FilterState.afterChunks seen) chunk) :
    ∀ seen, seen <+: chunks → Clean (FilterState.afterChunks seen) := by
  intro seen
  induction seen using List.reverseRecOn with
  | nil => exact fun _ => clean_start
  | append_singleton seen chunk ih =>
      intro hseen
      have hclean := ih ((List.prefix_append seen [chunk]).trans hseen)
      rw [FilterState.afterChunks, List.foldl_append]
      exact hclean.call (hharmless seen chunk hseen)

/-! ## Chunks with one query -/

section Single

variable {first second : List Char} {words : Set (List Char)}
  {patterns : List (Pattern Char (List Char))}

theorem esc_mem_of_mem_queries {word : List Char} (hword : word ∈ queries) :
    word.head? = some esc := by
  obtain ⟨kind, body, ending, rfl, -⟩ := shaped_of_mem_queries hword
  rfl

theorem not_across_of_notMem (hwords : words ⊆ queries) (hfirst : esc ∉ first) :
    ¬Across words first second := by
  rintro ⟨left, right, hleft, -, hsuffix, -, hword⟩
  have hhead := esc_mem_of_mem_queries (hwords hword)
  rw [List.head?_append_of_ne_nil left hleft] at hhead
  exact hfirst (hsuffix.subset (List.mem_of_mem_head? hhead))

theorem unjoined_of_notMem (hpasses : Passes queries patterns) (hfirst : esc ∉ first) :
    Unjoined patterns first second := by
  induction patterns generalizing first second with
  | nil => trivial
  | cons pattern patterns ih =>
      exact ⟨not_across_of_notMem (hpasses.matched_subset pattern List.mem_cons_self) hfirst,
        ih hpasses.tail fun hmem => hfirst ((erase_sublist first).subset hmem)⟩

/-- A text with one escape character has at most one query, and taking it out joins nothing. -/
theorem sealed_of_count_le (hpasses : Passes queries patterns) (hwords : words ⊆ queries)
    (hcount : text.count esc ≤ 1) : Sealed words patterns text := by
  induction patterns generalizing words text with
  | nil => trivial
  | cons pattern patterns ih =>
      have hmatched := hpasses.matched_subset pattern List.mem_cons_self
      have hall := Set.union_subset hwords hmatched
      refine ⟨?_, ih hpasses.tail hall (((erase_sublist text).count_le esc).trans hcount)⟩
      rintro ⟨before, found, after, rfl, hfound, hacross⟩
      have hesc := List.mem_of_mem_head? (esc_mem_of_mem_queries (hmatched hfound))
      have hpos := List.count_pos_iff.mpr hesc
      rw [List.count_append, List.count_append] at hcount
      have hbefore : esc ∉ before := by
        rw [← List.count_eq_zero]
        omega
      exact not_across_of_notMem hall
        (fun hmem => hbefore ((erase_sublist before).subset hmem)) hacross

end Single

/-- A query that comes in two chunks. -/
theorem clean_split :
    Clean (FilterState.afterChunks [['a', esc], "[6nb".toList]) := by
  refine clean_of_harmless [['a', esc], "[6nb".toList] (fun seen chunk hseen => ?_) _
    (List.prefix_refl _)
  have hcases : seen = [] ∧ chunk = ['a', esc] ∨
      seen = [['a', esc]] ∧ chunk = "[6nb".toList := by
    cases seen with
    | nil => exact .inl ⟨rfl, (List.cons_prefix_cons.mp hseen).1⟩
    | cons first seen =>
        obtain ⟨hfirst, htail⟩ := List.cons_prefix_cons.mp hseen
        cases seen with
        | nil => exact .inr ⟨by rw [hfirst], (List.cons_prefix_cons.mp htail).1⟩
        | cons second seen =>
            have hlength := (List.cons_prefix_cons.mp htail).2.length_le
            simp at hlength
  rcases hcases with ⟨rfl, rfl⟩ | ⟨rfl, rfl⟩
  · exact ⟨unjoined_of_notMem passes_queryPatterns (by decide),
      sealed_of_count_le passes_queryPatterns (Set.empty_subset _) (by decide), .inr .escape⟩
  · exact ⟨unjoined_of_notMem passes_queryPatterns (by decide +kernel),
      sealed_of_count_le passes_queryPatterns (Set.empty_subset _) (by decide +kernel),
      .inl (by decide +kernel)⟩

/-- Taking out one query joins another one, and a title is held back that is complete. -/
theorem not_clean_joined :
    Contains queries (FilterState.afterChunks [esc :: '[' :: esc :: "[6n6n".toList]).emitted ∧
      ¬∃ rest, (FilterState.afterChunks [esc :: "]0;t".toList ++ esc :: "\\ text".toList]).pending ++
        rest ∈ queries := by
  constructor
  · have hemitted : (FilterState.afterChunks [esc :: '[' :: esc :: "[6n6n".toList]).emitted =
        esc :: "[6n".toList := by decide +kernel
    rw [hemitted]
    exact ⟨_, mem_queries_of_mem_csiWords (by decide), List.infix_refl _⟩
  · rintro ⟨rest, hword⟩
    have hpending : (FilterState.afterChunks
        [esc :: "]0;t".toList ++ esc :: "\\ text".toList]).pending =
          esc :: "]0;t".toList ++ esc :: "\\ text".toList := by decide +kernel
    rw [hpending, List.append_assoc] at hword
    rcases (shaped_of_mem_queries hword).tail_cases (List.cons_ne_nil _ _) with hhead | hst
    · exact hhead rfl
    · have hlength := congrArg List.length hst
      simp at hlength

end TerminalQueryFilter

end ShuttleFlow
