import ShuttleFlow.Library.Removal
import ShuttleFlow.Terminal.QueryFilter

/-! # The words that are queries

Each pattern matches certain words. All of them begin with the escape character and one of three
letters. The escape character comes back at most in the terminator, which begins no query, so
no query overlaps another.
-/

namespace ShuttleFlow

namespace TerminalQueryFilter

open Removal

def dsrQueries : Set (List Char) := {word | word ∈ [esc :: "[6n".toList]}

def daQueries : Set (List Char) := {word | word ∈ [esc :: "[0c".toList, esc :: "[c".toList]}

def da2Queries : Set (List Char) := {word | word ∈ [esc :: "[>0c".toList, esc :: "[>c".toList]}

/-- The optional part of an OSC query. -/
def IsParameter : List Char → Prop
  | [] => True
  | first :: rest => first = ';' ∧ ∀ c ∈ rest, c ≠ ';' ∧ c ≠ bel ∧ c ≠ esc

def queryEnds : List (List Char) := [[';', '?', bel], [';', '?', esc, '\\']]

def oscQueries : Set (List Char) :=
  {word | ∃ digits parameter ending, word = esc :: ']' :: (digits ++ (parameter ++ ending)) ∧
    digits ≠ [] ∧ (∀ c ∈ digits, c.isDigit = true) ∧ IsParameter parameter ∧ ending ∈ queryEnds}

def decrqssQueries : Set (List Char) :=
  {word | ∃ setting, word = esc :: 'P' :: '$' :: 'q' :: (setting ++ [esc, '\\']) ∧ esc ∉ setting}

/-- In the order in which they are taken out. -/
def queryPatterns : List (Pattern Char (List Char)) :=
  [dsrPattern, oscQueryPattern, daPattern, da2Pattern, decrqssPattern]

def queries : Set (List Char) :=
  dsrQueries ∪ oscQueries ∪ daQueries ∪ da2Queries ∪ decrqssQueries

theorem filterCompleteQueries_eq (text : List Char) :
    filterCompleteQueries text = eraseAll queryPatterns text := rfl

/-! ## Fixed words -/

variable {text rest word : List Char} {length : Nat}

theorem measures_wordLength {words : List (List Char)}
    (hfree : ∀ word ∈ words, ∀ other ∈ words, word <+: other → word = other) :
    Measures (wordLength words) {word | word ∈ words} := by
  intro text length
  rw [wordLength, Option.map_eq_some_iff]
  constructor
  · rintro ⟨word, hfind, hlength⟩
    have hstarts : word <+: text := by simpa using List.find?_some hfind
    exact ⟨word, List.mem_of_find?_eq_some hfind, hstarts, hlength⟩
  · rintro ⟨word, hword, hstarts, hlength⟩
    cases hfind : words.find? fun word => word <+: text with
    | none => exact absurd (decide_eq_true hstarts) (List.find?_eq_none.mp hfind word hword)
    | some other =>
        have hother := List.mem_of_find?_eq_some hfind
        have hbegins : other <+: text := by simpa using List.find?_some hfind
        -- two words that begin the same text are one
        have hsame : other = word := by
          rcases List.prefix_or_prefix_of_prefix hbegins hstarts with hle | hle
          · exact hfree other hother word hword hle
          · exact (hfree word hword other hother hle).symm
        exact ⟨other, rfl, by rw [hsame, hlength]⟩

theorem measures_dsr : Measures (wordLength [esc :: "[6n".toList]) dsrQueries :=
  measures_wordLength (by decide)

theorem measures_da :
    Measures (wordLength [esc :: "[0c".toList, esc :: "[c".toList]) daQueries :=
  measures_wordLength (by decide)

theorem measures_da2 :
    Measures (wordLength [esc :: "[>0c".toList, esc :: "[>c".toList]) da2Queries :=
  measures_wordLength (by decide)

theorem matched_dsr : matched dsrPattern = dsrQueries :=
  measures_dsr.matched_eq (by simp [dsrQueries])

theorem matched_da : matched daPattern = daQueries :=
  measures_da.matched_eq (by simp [daQueries])

theorem matched_da2 : matched da2Pattern = da2Queries :=
  measures_da2.matched_eq (by simp [da2Queries])

/-! ## OSC queries -/

theorem queryEnd_iff : queryEnd text = some length ↔
    ∃ ending ∈ queryEnds, ending <+: text ∧ ending.length = length := by
  unfold queryEnd
  split
  next first rest =>
    by_cases hbel : first = bel
    · subst hbel
      simp [queryEnds, List.cons_prefix_cons, (by decide : esc ≠ bel), eq_comm]
    · have hbel' : bel ≠ first := fun heq => hbel heq.symm
      rw [if_neg hbel]
      split
      next hst =>
        obtain ⟨rfl, hslash⟩ := hst
        obtain ⟨behind, rfl⟩ := List.head?_eq_some_iff.mp hslash
        simp [queryEnds, List.cons_prefix_cons, hbel', eq_comm]
      next hst =>
        refine iff_of_false (fun hnone => by cases hnone) ?_
        rintro ⟨ending, hending, hstarts, -⟩
        simp only [queryEnds, List.mem_cons, List.not_mem_nil, or_false] at hending
        rcases hending with rfl | rfl
        · simp [List.cons_prefix_cons, hbel'] at hstarts
        · simp only [List.cons_prefix_cons, true_and] at hstarts
          obtain ⟨rfl, hslash⟩ := hstarts
          cases rest with
          | nil => simp at hslash
          | cons second rest =>
              rw [List.cons_prefix_cons] at hslash
              exact hst ⟨rfl, by rw [List.head?_cons, hslash.1]⟩
  next hno =>
    refine iff_of_false (fun hnone => by cases hnone) ?_
    rintro ⟨ending, hending, ⟨behind, rfl⟩, -⟩
    simp only [queryEnds, List.mem_cons, List.not_mem_nil, or_false] at hending
    rcases hending with rfl | rfl
    · exact hno bel behind rfl
    · exact hno esc ('\\' :: behind) rfl

/-- How much stands behind the digits of a query: a parameter, if there is one, and the end. -/
def tailLength (behind : List Char) : Option Nat :=
  ((subParameter behind).bind fun parameter =>
    (queryEnd (behind.drop (1 + parameter.length))).map (1 + parameter.length + ·)).or
      (queryEnd behind)

theorem subParameter_append {parameter : List Char} {last : Char}
    (hparameter : ∀ c ∈ parameter, c ≠ ';' ∧ c ≠ bel ∧ c ≠ esc)
    (hlast : last = ';' ∨ last = bel ∨ last = esc) :
    subParameter (';' :: (parameter ++ last :: rest)) = some parameter := by
  have hstops : decide (last ≠ ';' ∧ last ≠ bel ∧ last ≠ esc) = false := by
    rw [decide_eq_false_iff_not]
    rintro ⟨hsemicolon, hbel, hesc⟩
    exact hlast.elim hsemicolon (·.elim hbel hesc)
  rw [subParameter, List.takeWhile_append_of_pos fun c hc => decide_eq_true (hparameter c hc),
    List.takeWhile_cons, hstops]
  simp

theorem exists_of_subParameter {behind parameter : List Char}
    (hsub : subParameter behind = some parameter) :
    (∀ c ∈ parameter, c ≠ ';' ∧ c ≠ bel ∧ c ≠ esc) ∧
      ∃ last, behind = ';' :: (parameter ++ last) := by
  unfold subParameter at hsub
  split at hsub
  next tail =>
    cases hsub
    have hsplit := @List.takeWhile_append_dropWhile _
      (fun c => decide (c ≠ ';' ∧ c ≠ bel ∧ c ≠ esc)) tail
    exact ⟨fun c hc => by simpa using List.mem_takeWhile_imp hc, _, by rw [hsplit]⟩
  next => cases hsub

theorem queryEnd_append {ending : List Char} (hending : ending ∈ queryEnds) :
    queryEnd (ending ++ rest) = some ending.length :=
  queryEnd_iff.mpr ⟨ending, hending, List.prefix_append ending rest, rfl⟩

/-- The query marker alone is not read as a parameter. -/
theorem tailLength_ending {ending : List Char} (hending : ending ∈ queryEnds) :
    tailLength (ending ++ rest) = some ending.length := by
  have hend := @queryEnd_append rest ending hending
  have hnone : ∀ last behind, last = bel ∨ last = esc → queryEnd (last :: behind) = none := by
    rintro last behind (rfl | rfl) <;> rfl
  have hquestion : ∀ c ∈ ['?'], c ≠ ';' ∧ c ≠ bel ∧ c ≠ esc := by
    intro c hc
    rw [List.mem_singleton.mp hc]
    decide
  rw [tailLength, hend]
  simp only [queryEnds, List.mem_cons, List.not_mem_nil, or_false] at hending
  rcases hending with rfl | rfl
  · have hparameter := @subParameter_append rest ['?'] bel hquestion (.inr (.inl rfl))
    rw [List.singleton_append] at hparameter
    simp only [List.cons_append, List.nil_append, hparameter, Option.bind_some,
      List.length_singleton, List.drop_succ_cons, List.drop_zero, hnone bel rest (.inl rfl)]
    rfl
  · have hparameter := @subParameter_append ('\\' :: rest) ['?'] esc hquestion (.inr (.inr rfl))
    rw [List.singleton_append] at hparameter
    simp only [List.cons_append, List.nil_append, hparameter, Option.bind_some,
      List.length_singleton, List.drop_succ_cons, List.drop_zero,
      hnone esc ('\\' :: rest) (.inr rfl)]
    rfl

theorem tailLength_parameter {parameter ending : List Char}
    (hparameter : IsParameter parameter) (hending : ending ∈ queryEnds) :
    tailLength (parameter ++ (ending ++ rest)) = some (parameter.length + ending.length) := by
  cases parameter with
  | nil =>
      rw [List.nil_append, tailLength_ending hending, List.length_nil, Nat.zero_add]
  | cons first parameter =>
      obtain ⟨rfl, hparameter⟩ := hparameter
      obtain ⟨behind, hbehind⟩ : ∃ behind, ending = ';' :: behind := by
        simp only [queryEnds, List.mem_cons, List.not_mem_nil, or_false] at hending
        rcases hending with rfl | rfl
        · exact ⟨_, rfl⟩
        · exact ⟨_, rfl⟩
      have hsub : subParameter (';' :: (parameter ++ (ending ++ rest))) = some parameter := by
        rw [hbehind, List.cons_append]
        exact subParameter_append hparameter (.inl rfl)
      have hdrop : (';' :: (parameter ++ (ending ++ rest))).drop (1 + parameter.length) =
          ending ++ rest := by
        rw [Nat.add_comm, List.drop_succ_cons, List.drop_left]
      rw [List.cons_append, tailLength, hsub, Option.bind_some, hdrop, queryEnd_append hending,
        Option.map_some, Option.some_or, List.length_cons, Nat.add_comm 1]

theorem exists_of_tailLength {behind : List Char} (hlength : tailLength behind = some length) :
    ∃ parameter ending, IsParameter parameter ∧ ending ∈ queryEnds ∧
      parameter ++ ending <+: behind ∧ parameter.length + ending.length = length := by
  rw [tailLength, Option.or_eq_some_iff] at hlength
  rcases hlength with hwith | ⟨-, hend⟩
  · obtain ⟨parameter, hsub, hmap⟩ := Option.bind_eq_some_iff.mp hwith
    obtain ⟨number, hend, rfl⟩ := Option.map_eq_some_iff.mp hmap
    obtain ⟨ending, hending, ⟨last, hlast⟩, rfl⟩ := queryEnd_iff.mp hend
    obtain ⟨hparameter, behind', rfl⟩ := exists_of_subParameter hsub
    rw [Nat.add_comm, List.drop_succ_cons, List.drop_left] at hlast
    refine ⟨';' :: parameter, ending, ⟨rfl, hparameter⟩, hending, ⟨last, ?_⟩, ?_⟩
    · rw [← hlast, List.cons_append, List.cons_append, List.append_assoc]
    · rw [List.length_cons, Nat.add_comm 1]
  · obtain ⟨ending, hending, hstarts, rfl⟩ := queryEnd_iff.mp hend
    exact ⟨[], ending, trivial, hending, hstarts, Nat.zero_add _⟩

theorem oscQueryLength_cons (rest : List Char) :
    oscQueryLength (esc :: ']' :: rest) =
      if rest.takeWhile Char.isDigit = [] then none
      else (tailLength (rest.dropWhile Char.isDigit)).map
        (2 + (rest.takeWhile Char.isDigit).length + ·) := by
  simp only [oscQueryLength, ne_eq, not_true_eq_false, false_or, tailLength]

theorem takeWhile_digits {digits last : List Char} (hdigits : ∀ c ∈ digits, c.isDigit = true)
    (hlast : ∀ c ∈ last.head?, c.isDigit = false) :
    (digits ++ last).takeWhile Char.isDigit = digits ∧
      (digits ++ last).dropWhile Char.isDigit = last := by
  rw [List.takeWhile_append_of_pos hdigits, List.dropWhile_append_of_pos hdigits]
  cases last with
  | nil => exact ⟨List.append_nil digits, rfl⟩
  | cons first last =>
      have hfirst := hlast first rfl
      simp [hfirst]

theorem measures_osc : Measures oscQueryLength oscQueries := by
  intro text length
  constructor
  · intro hlength
    obtain ⟨first, rest, rfl⟩ : ∃ first rest, text = first :: ']' :: rest := by
      unfold oscQueryLength at hlength
      split at hlength
      next first rest => exact ⟨first, rest, rfl⟩
      next => cases hlength
    have hfirst : first = esc := by
      by_contra hne
      simp [oscQueryLength, hne] at hlength
    subst hfirst
    rw [oscQueryLength_cons] at hlength
    split at hlength
    next => cases hlength
    next hdigits =>
      obtain ⟨number, htail, rfl⟩ := Option.map_eq_some_iff.mp hlength
      obtain ⟨parameter, ending, hparameter, hending, ⟨last, hlast⟩, rfl⟩ :=
        exists_of_tailLength htail
      refine ⟨_, ⟨_, parameter, ending, rfl, hdigits,
        fun c hc => List.mem_takeWhile_imp hc, hparameter, hending⟩, ⟨last, ?_⟩, ?_⟩
      · rw [List.cons_append, List.cons_append, List.append_assoc, hlast,
          List.takeWhile_append_dropWhile]
      · simp only [List.length_cons, List.length_append]
        omega
  · rintro ⟨word, ⟨digits, parameter, ending, rfl, hne, hdigits, hparameter, hending⟩,
      ⟨last, rfl⟩, rfl⟩
    have hhead : ∀ c ∈ (parameter ++ (ending ++ last)).head?, c.isDigit = false := by
      intro c hc
      cases parameter with
      | nil =>
          simp only [queryEnds, List.mem_cons, List.not_mem_nil, or_false] at hending
          rcases hending with rfl | rfl <;> cases hc <;> rfl
      | cons first parameter =>
          cases hc
          rw [hparameter.1]
          rfl
    obtain ⟨htake, hdrop⟩ := takeWhile_digits hdigits hhead
    have hword : esc :: ']' :: (digits ++ (parameter ++ ending)) ++ last =
        esc :: ']' :: (digits ++ (parameter ++ (ending ++ last))) := by simp
    rw [hword, oscQueryLength_cons, htake, hdrop, if_neg hne, tailLength_parameter hparameter
      hending, Option.map_some]
    simp only [List.length_cons, List.length_append, Option.some.injEq]
    omega

/-! ## DECRQSS queries -/

theorem measures_decrqss : Measures decrqssLength decrqssQueries := by
  intro text length
  constructor
  · intro hlength
    unfold decrqssLength at hlength
    split at hlength
    next first rest =>
      split at hlength
      next hmatch =>
        obtain ⟨rfl, last, hlast⟩ := hmatch
        cases hlength
        refine ⟨_, ⟨rest.takeWhile (· ≠ esc), rfl, fun hmem => ?_⟩, ⟨last, ?_⟩, ?_⟩
        · have hstays := List.mem_takeWhile_imp hmem
          simp at hstays
        · rw [List.cons_append, List.cons_append, List.cons_append, List.cons_append,
            List.append_assoc, hlast, List.takeWhile_append_dropWhile]
        · simp only [List.length_cons, List.length_append, List.length_nil]
          omega
      next => cases hlength
    next => cases hlength
  · rintro ⟨word, ⟨setting, rfl, hsetting⟩, ⟨last, rfl⟩, rfl⟩
    have hpos : ∀ c ∈ setting, decide (c ≠ esc) = true := by
      intro c hc
      refine decide_eq_true ?_
      rintro rfl
      exact hsetting hc
    have htext : esc :: 'P' :: '$' :: 'q' :: (setting ++ [esc, '\\']) ++ last =
        esc :: 'P' :: '$' :: 'q' :: (setting ++ (esc :: '\\' :: last)) := by simp
    rw [htext, decrqssLength]
    simp only [List.takeWhile_append_of_pos hpos, List.dropWhile_append_of_pos hpos]
    simp [List.cons_prefix_cons, Nat.add_comm 4]

/-! ## Queries do not overlap -/

/-- How every query is built. The escape character begins it, and may begin its terminator. -/
def Shaped (word : List Char) : Prop :=
  ∃ kind body ending, word = esc :: kind :: (body ++ ending) ∧ kind ∈ ['[', ']', 'P'] ∧
    esc ∉ kind :: body ∧ (ending = [] ∨ ending = [esc, '\\'])

def csiWords : List (List Char) :=
  [esc :: "[6n".toList, esc :: "[0c".toList, esc :: "[c".toList, esc :: "[>0c".toList,
    esc :: "[>c".toList]

theorem shaped_of_mem_csiWords (hword : word ∈ csiWords) : Shaped word := by
  have hshaped : ∀ word ∈ csiWords, word = esc :: '[' :: (word.drop 2 ++ []) ∧
      esc ∉ '[' :: word.drop 2 := by decide
  obtain ⟨hword, hbody⟩ := hshaped word hword
  exact ⟨'[', word.drop 2, [], hword, by decide, hbody, .inl rfl⟩

theorem shaped_of_mem_oscQueries (hword : word ∈ oscQueries) : Shaped word := by
  obtain ⟨digits, parameter, ending, rfl, -, hdigits, hparameter, hending⟩ := hword
  have hdigits : esc ∉ digits := fun hmem => absurd (hdigits esc hmem) (by decide)
  have hparameter : esc ∉ parameter := by
    cases parameter with
    | nil => exact List.not_mem_nil
    | cons first parameter =>
        obtain ⟨rfl, hparameter⟩ := hparameter
        rw [List.mem_cons, not_or]
        exact ⟨by decide, fun hmem => (hparameter esc hmem).2.2 rfl⟩
  simp only [queryEnds, List.mem_cons, List.not_mem_nil, or_false] at hending
  rcases hending with rfl | rfl
  · refine ⟨']', digits ++ (parameter ++ [';', '?', bel]), [], by simp, by decide, ?_, .inl rfl⟩
    simp [hdigits, hparameter, (by decide : esc ≠ ']' ∧ esc ≠ ';' ∧ esc ≠ '?' ∧ esc ≠ bel)]
  · refine ⟨']', digits ++ (parameter ++ [';', '?']), [esc, '\\'], by simp, by decide, ?_, .inr rfl⟩
    simp [hdigits, hparameter, (by decide : esc ≠ ']' ∧ esc ≠ ';' ∧ esc ≠ '?')]

theorem shaped_of_mem_decrqssQueries (hword : word ∈ decrqssQueries) : Shaped word := by
  obtain ⟨setting, rfl, hsetting⟩ := hword
  refine ⟨'P', '$' :: 'q' :: setting, [esc, '\\'], by simp, by decide, ?_, .inr rfl⟩
  simp [hsetting, (by decide : esc ≠ 'P' ∧ esc ≠ '$' ∧ esc ≠ 'q')]

theorem mem_queries_cases (hword : word ∈ queries) :
    word ∈ csiWords ∨ word ∈ oscQueries ∨ word ∈ decrqssQueries := by
  rcases hword with (((hword | hword) | hword) | hword) | hword
  · exact .inl ((by decide : [esc :: "[6n".toList] ⊆ csiWords) hword)
  · exact .inr (.inl hword)
  · exact .inl ((by decide : [esc :: "[0c".toList, esc :: "[c".toList] ⊆ csiWords) hword)
  · exact .inl ((by decide : [esc :: "[>0c".toList, esc :: "[>c".toList] ⊆ csiWords) hword)
  · exact .inr (.inr hword)

theorem shaped_of_mem_queries (hword : word ∈ queries) : Shaped word := by
  rcases mem_queries_cases hword with hword | hword | hword
  · exact shaped_of_mem_csiWords hword
  · exact shaped_of_mem_oscQueries hword
  · exact shaped_of_mem_decrqssQueries hword

/-- Behind its beginning, a query has the escape character in its terminator only. -/
theorem Shaped.tail_cases {front back : List Char} (hword : Shaped (front ++ back))
    (hfront : front ≠ []) : esc ∉ back.head? ∨ back = [esc, '\\'] := by
  obtain ⟨kind, body, ending, heq, -, hbody, hending⟩ := hword
  cases front with
  | nil => exact absurd rfl hfront
  | cons first front =>
      rw [List.cons_append, List.cons.injEq, ← List.cons_append] at heq
      rcases List.append_eq_append_iff.mp heq.2 with ⟨middle, hin, rfl⟩ | ⟨middle, -, rfl⟩
      · cases middle with
        | nil => rcases hending with rfl | rfl <;> simp
        | cons head middle =>
            left
            intro hhead
            cases hhead
            exact hbody (hin ▸ List.mem_append_right _ List.mem_cons_self)
      · rcases hending with hnil | hst
        · rw [(List.append_eq_nil_iff.mp hnil).2]
          exact .inl (by simp)
        · cases middle with
          | nil => exact .inr hst
          | cons head middle =>
              left
              intro hhead
              rw [List.cons_append, List.cons.injEq] at hst
              have hmem : esc ∈ middle ++ back :=
                List.mem_append_right _ (List.mem_of_mem_head? hhead)
              rw [hst.2] at hmem
              exact absurd hmem (by decide)

theorem nil_notMem_of_shaped {words : Set (List Char)}
    (hshaped : ∀ word ∈ words, Shaped word) : [] ∉ words := by
  intro hnil
  obtain ⟨kind, body, ending, heq, -⟩ := hshaped [] hnil
  cases heq

theorem exact_osc : Exact oscQueryPattern :=
  measures_osc.exact (nil_notMem_of_shaped fun _ => shaped_of_mem_oscQueries)

theorem exact_decrqss : Exact decrqssPattern :=
  measures_decrqss.exact (nil_notMem_of_shaped fun _ => shaped_of_mem_decrqssQueries)

theorem matched_osc : matched oscQueryPattern = oscQueries :=
  measures_osc.matched_eq (nil_notMem_of_shaped fun _ => shaped_of_mem_oscQueries)

theorem matched_decrqss : matched decrqssPattern = decrqssQueries :=
  measures_decrqss.matched_eq (nil_notMem_of_shaped fun _ => shaped_of_mem_decrqssQueries)

/-- The letter behind the escape character tells the kinds of queries apart. -/
theorem second_of_mem_queries (hword : word ∈ queries) :
    word[1]? = some '[' ∧ word ∈ csiWords ∨ word[1]? = some ']' ∧ word ∈ oscQueries ∨
      word[1]? = some 'P' ∧ word ∈ decrqssQueries := by
  rcases mem_queries_cases hword with hword | hword | hword
  · exact .inl ⟨(by decide : ∀ word ∈ csiWords, word[1]? = some '[') word hword, hword⟩
  · obtain ⟨digits, parameter, ending, rfl, hrest⟩ := hword
    exact .inr (.inl ⟨rfl, digits, parameter, ending, rfl, hrest⟩)
  · obtain ⟨setting, rfl, hsetting⟩ := hword
    exact .inr (.inr ⟨rfl, setting, rfl, hsetting⟩)

theorem eq_of_prefix_of_mem_queries {other : List Char} (hword : word ∈ queries)
    (hother : other ∈ queries) (hstarts : word <+: other) : word = other := by
  have hsecond : ∀ letter, word[1]? = some letter → other[1]? = some letter := by
    intro letter hletter
    obtain ⟨rest, rfl⟩ := hstarts
    rw [List.getElem?_append_left (List.getElem?_eq_some_iff.mp hletter).1, hletter]
  have hcsi : ∀ word ∈ csiWords, ∀ other ∈ csiWords, word <+: other → word = other := by decide
  have hsame : ∀ {letter letter'}, word[1]? = some letter → other[1]? = some letter' →
      letter = letter' := fun hletter hletter' =>
    Option.some.inj ((hsecond _ hletter).symm.trans hletter')
  rcases second_of_mem_queries hword with ⟨hletter, hword⟩ | ⟨hletter, hword⟩ | ⟨hletter, hword⟩
  · rcases second_of_mem_queries hother with ⟨-, hother⟩ | ⟨hletter', -⟩ | ⟨hletter', -⟩
    · exact hcsi word hword other hother hstarts
    · exact absurd (hsame hletter hletter') (by decide)
    · exact absurd (hsame hletter hletter') (by decide)
  · rcases second_of_mem_queries hother with ⟨hletter', -⟩ | ⟨-, hother⟩ | ⟨hletter', -⟩
    · exact absurd (hsame hletter hletter') (by decide)
    · exact exact_osc.eq_of_prefix (matched_osc ▸ hword) (matched_osc ▸ hother) hstarts
    · exact absurd (hsame hletter hletter') (by decide)
  · rcases second_of_mem_queries hother with ⟨hletter', -⟩ | ⟨hletter', -⟩ | ⟨-, hother⟩
    · exact absurd (hsame hletter hletter') (by decide)
    · exact absurd (hsame hletter hletter') (by decide)
    · exact exact_decrqss.eq_of_prefix (matched_decrqss ▸ hword) (matched_decrqss ▸ hother)
        hstarts

theorem separate_queries : Separate queries where
  prefixFree := eq_of_prefix_of_mem_queries
  apart := by
    intro word other front back hword hother hsplit hfront hback
    obtain ⟨kind, body, ending, rfl, hkind, -, -⟩ := shaped_of_mem_queries hword
    rw [hsplit] at hother
    cases back with
    | nil => exact absurd rfl hback
    | cons first back =>
        rcases (shaped_of_mem_queries hother).tail_cases hfront with hfirst | hst
        · have hne : first ≠ esc := fun heq => hfirst (by rw [heq]; rfl)
          exact ⟨fun hstarts => hne (List.cons_prefix_cons.mp hstarts).1.symm,
            fun hstarts => hne (List.cons_prefix_cons.mp hstarts).1⟩
        · have hkind : kind ≠ '\\' := by
            rintro rfl
            exact absurd hkind (by decide)
          rw [hst, List.cons_prefix_cons, List.cons_prefix_cons, List.cons_prefix_cons,
            List.cons_prefix_cons]
          exact ⟨fun hstarts => hkind hstarts.2.1, fun hstarts => hkind hstarts.2.1.symm⟩

theorem passes_queryPatterns : Passes queries queryPatterns where
  separate := separate_queries
  exact := by
    simp only [queryPatterns, List.forall_mem_cons]
    exact ⟨measures_dsr.exact (by simp [dsrQueries]), exact_osc,
      measures_da.exact (by simp [daQueries]), measures_da2.exact (by simp [da2Queries]),
      exact_decrqss, by simp⟩
  matched_subset := by
    simp only [queryPatterns, List.forall_mem_cons, matched_dsr, matched_osc, matched_da,
      matched_da2, matched_decrqss]
    exact ⟨fun _ hword => .inl (.inl (.inl (.inl hword))),
      fun _ hword => .inl (.inl (.inl (.inr hword))), fun _ hword => .inl (.inl (.inr hword)),
      fun _ hword => .inl (.inr hword), fun _ hword => .inr hword, by simp⟩

end TerminalQueryFilter

end ShuttleFlow
