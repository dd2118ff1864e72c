import Mathlib.Data.Rat.Floor
import ShuttleFlow.Condenser.CondensationProgress
import ShuttleFlow.Library.PythonText

/-! # The attempts of a hard context reset

Each attempt puts the texts of all events in a prompt. After a failure the longest text has to be
shorter than before by a factor. Texts are shorter than `2 ^ 53`, so that a float holds their
lengths.
-/

namespace ShuttleFlow

/-- `hard_context_reset_context_scaling`, and how products of floats are rounded. -/
structure ContextScaling where
  factor : ℚ
  factor_pos : 0 < factor
  factor_lt_one : factor < 1
  round : ℚ → ℚ
  round_mono : Monotone round
  round_natCast : ∀ length : ℕ, round length = length

namespace ContextScaling

/-- The truncated product. -/
def scale (scaling : ContextScaling) (length : Nat) : Nat :=
  ⌊scaling.round (length * scaling.factor)⌋₊

theorem scale_le (scaling : ContextScaling) (length : Nat) : scaling.scale length ≤ length := by
  have hproduct : (length : ℚ) * scaling.factor ≤ length :=
    mul_le_of_le_one_right (Nat.cast_nonneg length) scaling.factor_lt_one.le
  have hround := scaling.round_mono hproduct
  rw [scaling.round_natCast] at hround
  exact Nat.floor_le_of_le hround

end ContextScaling

/-- An attempt: the limit on the length of a text, and the texts in the prompt. -/
structure ResetAttempt where
  maxEventStrLength : Option Nat
  eventStrings : List (List Char)

namespace LLMSummarizingCondenser

variable (scaling : ContextScaling) (str : LLMConvertibleEvent → List Char)
  (attempt : Nat → Option SummaryReply) (events : List LLMConvertibleEvent)

/-- The texts of an attempt. No limit and a limit of zero are the same for `maybe_truncate`. -/
def resetAttempt (maxEventStrLength : Option Nat) : ResetAttempt where
  maxEventStrLength
  eventStrings := events.map fun event =>
    PythonText.maybeTruncate (str event) (maxEventStrLength.getD 0) defaultTruncateNotice

/-- The length of the longest text. There is none where `max` raises. -/
def longest? : Option Nat := (events.map fun event => (str event).length).max?

/-- The loop of `hard_context_reset` with the attempts that it makes. There is no result if an
exception gets out of it. -/
def resetFrom : Nat → Nat → Option Nat → List ResetAttempt × Option (Option CondensationPlan)
  | 0, _, _ => ([], some none)
  | remaining + 1, count, maxEventStrLength =>
      let made := resetAttempt str events maxEventStrLength
      match generateCondensation (attempt count) events 0 with
      | .ok plan => ([made], some (some plan))
      | .error _ =>
          match maxEventStrLength.or (longest? str events) with
          | none => ([made], none)
          | some length =>
              let later := resetFrom remaining (count + 1) (some (scaling.scale length))
              (made :: later.1, later.2)

/-- `hard_context_reset`. -/
def hardContextResetAttempts (condenser : LLMSummarizingCondenser) (view : View) :
    List ResetAttempt × Option (Option CondensationPlan) :=
  resetFrom scaling str attempt view.events condenser.hardContextResetMaxRetries 0 none

/-! ## The limits -/

variable {scaling str attempt events}

/-- The limit of an attempt by its number. The first one has none. -/
def limitAt (scaling : ContextScaling) (length : Nat) : Nat → Option Nat
  | 0 => none
  | count + 1 => some (scaling.scale^[count + 1] length)

theorem limitAt_succ (scaling : ContextScaling) (length count : Nat) :
    ∃ longest, (limitAt scaling length count).or (some length) = some longest ∧
      limitAt scaling length (count + 1) = some (scaling.scale longest) := by
  cases count with
  | zero => exact ⟨length, rfl, rfl⟩
  | succ count =>
      refine ⟨_, rfl, ?_⟩
      rw [limitAt, Function.iterate_succ_apply']

theorem generateCondensation_some (hevents : events ≠ []) (reply : SummaryReply) :
    ∃ plan, generateCondensation (some reply) events 0 = .ok plan := by
  simp only [generateCondensation, if_neg hevents]
  exact ⟨_, rfl⟩

theorem generateCondensation_none (hevents : events ≠ []) :
    generateCondensation none events 0 = .error .completion := by
  simp only [generateCondensation, if_neg hevents]

section Loop

variable {length remaining count : Nat}

theorem resetFrom_of_some (hevents : events ≠ []) {reply : SummaryReply}
    (hattempt : attempt count = some reply) (limit : Option Nat) :
    ∃ plan, resetFrom scaling str attempt events (remaining + 1) count limit =
      ([resetAttempt str events limit], some (some plan)) := by
  obtain ⟨plan, hplan⟩ := generateCondensation_some hevents reply
  rw [resetFrom, hattempt, hplan]
  exact ⟨plan, rfl⟩

theorem resetFrom_of_none (hevents : events ≠ []) (hlength : longest? str events = some length)
    (hattempt : attempt count = none) :
    resetFrom scaling str attempt events (remaining + 1) count (limitAt scaling length count) =
      (resetAttempt str events (limitAt scaling length count) ::
          (resetFrom scaling str attempt events remaining (count + 1)
            (limitAt scaling length (count + 1))).1,
        (resetFrom scaling str attempt events remaining (count + 1)
          (limitAt scaling length (count + 1))).2) := by
  obtain ⟨longest, hlongest, hnext⟩ := limitAt_succ scaling length count
  rw [resetFrom, hattempt, generateCondensation_none hevents, hlength, hlongest, hnext]

/-- The attempts that are made are those behind failures, as many as are allowed. -/
theorem getElem?_resetFrom (hevents : events ≠ []) (hlength : longest? str events = some length)
    {index : Nat} {made : ResetAttempt} :
    (resetFrom scaling str attempt events remaining count
        (limitAt scaling length count)).1[index]? = some made ↔
      index < remaining ∧ (∀ earlier < index, attempt (count + earlier) = none) ∧
        made = resetAttempt str events (limitAt scaling length (count + index)) := by
  induction remaining generalizing count index with
  | zero => simp [resetFrom]
  | succ remaining ih =>
      cases hattempt : attempt count with
      | some reply =>
          obtain ⟨plan, hplan⟩ : ∃ plan, resetFrom scaling str attempt events (remaining + 1) count
              (limitAt scaling length count) = ([resetAttempt str events
                (limitAt scaling length count)], some (some plan)) :=
            resetFrom_of_some hevents hattempt _
          rw [hplan]
          cases index with
          | zero => simp [eq_comm]
          | succ index =>
              -- the attempt before has not failed
              have hfails : ¬ ∀ earlier < index + 1, attempt (count + earlier) = none := by
                intro hall
                have hfirst := hall 0 (Nat.succ_pos index)
                rw [Nat.add_zero, hattempt] at hfirst
                cases hfirst
              refine iff_of_false ?_ fun hmade => hfails hmade.2.1
              rw [List.getElem?_cons_succ, List.getElem?_nil]
              exact (Option.some_ne_none made).symm
      | none =>
          rw [resetFrom_of_none hevents hlength hattempt]
          cases index with
          | zero => simp [eq_comm]
          | succ index =>
              rw [List.getElem?_cons_succ, ih, Nat.add_lt_add_iff_right, Nat.forall_lt_succ_left',
                Nat.add_zero]
              simp [hattempt, Nat.add_comm, Nat.add_left_comm]

theorem resetFrom_snd (hevents : events ≠ []) (hlength : longest? str events = some length) :
    (resetFrom scaling str attempt events remaining count (limitAt scaling length count)).2 =
      some ((List.range' count remaining).findSome? fun count =>
        (generateCondensation (attempt count) events 0).toOption) := by
  induction remaining generalizing count with
  | zero => rfl
  | succ remaining ih =>
      rw [List.range'_succ, List.findSome?_cons]
      cases hattempt : attempt count with
      | some reply =>
          obtain ⟨plan, hplan⟩ := generateCondensation_some hevents reply
          rw [resetFrom, hattempt, hplan]
          rfl
      | none =>
          rw [resetFrom_of_none hevents hlength hattempt, ih, generateCondensation_none hevents]
          rfl

end Loop

/-! ## The lengths of the texts -/

theorem length_maybeTruncate (content notice : List Char) (truncateAfter : Nat) :
    (PythonText.maybeTruncate content truncateAfter notice).length =
      if truncateAfter = 0 then content.length else min content.length truncateAfter := by
  rw [PythonText.maybeTruncate]
  by_cases hzero : truncateAfter = 0
  · rw [if_pos (.inl hzero), if_pos hzero]
  · rw [if_neg hzero]
    by_cases hshort : content.length ≤ truncateAfter
    · rw [if_pos (.inr hshort), Nat.min_eq_left hshort]
    · rw [if_neg (not_or.mpr ⟨hzero, hshort⟩), Nat.min_eq_right (not_le.mp hshort).le]
      by_cases hnotice : truncateAfter ≤ notice.length
      · rw [if_pos hnotice, List.length_take_of_le hnotice]
      · rw [if_neg hnotice]
        simp only [List.length_append, List.length_take, List.length_drop]
        omega

theorem length_maybeTruncate_le (content notice : List Char) (truncateAfter : Nat) :
    (PythonText.maybeTruncate content truncateAfter notice).length ≤ content.length := by
  rw [length_maybeTruncate]
  split
  next => exact le_rfl
  next => exact Nat.min_le_left _ _

/-- A text does not get longer where a limit gets smaller, unless it is no limit then. -/
theorem length_maybeTruncate_mono (content notice : List Char) {less more : Nat}
    (hless : less ≠ 0) (hle : less ≤ more) :
    (PythonText.maybeTruncate content less notice).length ≤
      (PythonText.maybeTruncate content more notice).length := by
  rw [length_maybeTruncate, length_maybeTruncate, if_neg hless, if_neg (by omega)]
  exact min_le_min_left _ hle

/-- Each attempt has texts that are no longer than those before, and within its limit. -/
structure Shrinks (attempts : List ResetAttempt) : Prop where
  shorter : ∀ index earlier later, attempts[index]? = some earlier →
    attempts[index + 1]? = some later →
      List.Forall₂ (fun before after => after.length ≤ before.length)
        earlier.eventStrings later.eventStrings
  bounded : ∀ made ∈ attempts, ∀ limit ∈ made.maxEventStrLength, ∀ text ∈ made.eventStrings,
    text.length ≤ limit

/-- The limits of the attempts behind failures last, or there is no text at all. -/
def LimitsLast (condenser : LLMSummarizingCondenser) (scaling : ContextScaling)
    (str : LLMConvertibleEvent → List Char) (attempt : Nat → Option SummaryReply) (view : View) :
    Prop :=
  (∀ event ∈ view.events, str event = []) ∨
    ∀ length, longest? str view.events = some length →
      ∀ count, count + 1 < condenser.hardContextResetMaxRetries →
        (∀ earlier < count + 1, attempt earlier = none) → scaling.scale^[count + 1] length ≠ 0

theorem longest?_eq_some (hevents : events ≠ []) : ∃ length, longest? str events = some length := by
  refine Option.isSome_iff_exists.mp ?_
  rw [longest?, List.isSome_max?_iff, ne_eq, List.map_eq_nil_iff]
  exact hevents

/-- What comes of the attempts does not depend on the texts. -/
theorem hardContextResetAttempts_snd (condenser : LLMSummarizingCondenser)
    (scaling : ContextScaling) (str : LLMConvertibleEvent → List Char)
    (attempt : Nat → Option SummaryReply) (view : View) (hevents : view.events ≠ []) :
    (condenser.hardContextResetAttempts scaling str attempt view).2 =
      some (condenser.hardContextReset attempt view) := by
  obtain ⟨length, hlength⟩ : ∃ length, longest? str view.events = some length :=
    longest?_eq_some hevents
  have hfrom : (resetFrom scaling str attempt view.events condenser.hardContextResetMaxRetries 0
      (limitAt scaling length 0)).2 = _ := resetFrom_snd hevents hlength
  rw [← List.range_eq_range'] at hfrom
  exact hfrom

theorem limitAt_antitone {length count limit next : Nat}
    (hlimit : limitAt scaling length count = some limit)
    (hnext : limitAt scaling length (count + 1) = some next) : next ≤ limit := by
  obtain ⟨longest, hlongest, hscaled⟩ := limitAt_succ scaling length count
  rw [hlimit, Option.some_or] at hlongest
  obtain rfl := Option.some.inj hlongest
  obtain rfl := Option.some.inj (hnext.symm.trans hscaled)
  exact scaling.scale_le _

/-- One attempt after another, if the limit of the second one lasts. -/
theorem length_text_le {length count : Nat} (content notice : List Char)
    (hlasts : limitAt scaling length (count + 1) ≠ some 0) :
    (PythonText.maybeTruncate content
        ((limitAt scaling length (count + 1)).getD 0) notice).length ≤
      (PythonText.maybeTruncate content ((limitAt scaling length count).getD 0) notice).length := by
  cases hlimit : limitAt scaling length count with
  | none =>
      -- the first attempt has the texts as they are
      have hfull : (PythonText.maybeTruncate content 0 notice).length = content.length := by
        rw [length_maybeTruncate, if_pos rfl]
      rw [Option.getD_none, hfull]
      exact length_maybeTruncate_le _ _ _
  | some limit =>
      cases hnext : limitAt scaling length (count + 1) with
      | none => cases hnext
      | some next =>
          apply length_maybeTruncate_mono
          · intro hzero
            rw [Option.getD_some] at hzero
            exact hlasts (hnext.trans (congrArg some hzero))
          · exact limitAt_antitone hlimit hnext

theorem mem_eventStrings {limit : Option Nat} {text : List Char} :
    text ∈ (resetAttempt str events limit).eventStrings ↔
      ∃ event ∈ events,
        PythonText.maybeTruncate (str event) (limit.getD 0) defaultTruncateNotice = text :=
  List.mem_map

/-- The attempt of a number, if it is made. -/
theorem getElem?_attempts {condenser : LLMSummarizingCondenser} {view : View} {length index : Nat}
    {made : ResetAttempt} (hevents : view.events ≠ [])
    (hlength : longest? str view.events = some length) :
    (condenser.hardContextResetAttempts scaling str attempt view).1[index]? = some made ↔
      index < condenser.hardContextResetMaxRetries ∧
        (∀ earlier < index, attempt earlier = none) ∧
        made = resetAttempt str view.events (limitAt scaling length index) := by
  have hfrom : (resetFrom scaling str attempt view.events condenser.hardContextResetMaxRetries 0
      (limitAt scaling length 0)).1[index]? = some made ↔
        index < condenser.hardContextResetMaxRetries ∧
          (∀ earlier < index, attempt (0 + earlier) = none) ∧
          made = resetAttempt str view.events (limitAt scaling length (0 + index)) :=
    getElem?_resetFrom hevents hlength
  simp only [Nat.zero_add] at hfrom
  exact hfrom

/-- The attempts shrink exactly if no limit on the way becomes zero. -/
theorem hardContextResetAttempts_shrinks_iff (condenser : LLMSummarizingCondenser)
    (scaling : ContextScaling) (str : LLMConvertibleEvent → List Char)
    (attempt : Nat → Option SummaryReply) (view : View) (hevents : view.events ≠ []) :
    Shrinks (condenser.hardContextResetAttempts scaling str attempt view).1 ↔
      condenser.LimitsLast scaling str attempt view := by
  obtain ⟨length, hlength⟩ : ∃ length, longest? str view.events = some length :=
    longest?_eq_some hevents
  constructor
  · intro hshrinks
    by_cases hempty : ∀ event ∈ view.events, str event = []
    · exact .inl hempty
    · right
      intro other hother count hcount hfails hzero
      obtain rfl := Option.some.inj (hother.symm.trans hlength)
      have hmem : resetAttempt str view.events (limitAt scaling other (count + 1)) ∈
          (condenser.hardContextResetAttempts scaling str attempt view).1 :=
        List.mem_of_getElem? ((getElem?_attempts hevents hlength).mpr ⟨hcount, hfails, rfl⟩)
      -- with a limit of zero the texts are in the prompt as they are
      apply hempty
      intro event hevent
      have hbound := hshrinks.bounded _ hmem 0 (by rw [← hzero]; rfl) (str event)
        (mem_eventStrings.mpr ⟨event, hevent, by
          rw [limitAt, hzero, Option.getD_some, PythonText.maybeTruncate, if_pos (.inl rfl)]⟩)
      exact List.eq_nil_of_length_eq_zero (Nat.le_zero.mp hbound)
  · intro hlimits
    constructor
    · intro index earlier later hearlier hlater
      obtain ⟨-, -, rfl⟩ := (getElem?_attempts hevents hlength).mp hearlier
      obtain ⟨hindex, hfails, rfl⟩ := (getElem?_attempts hevents hlength).mp hlater
      rw [resetAttempt, resetAttempt, List.forall₂_map_left_iff, List.forall₂_map_right_iff,
        List.forall₂_same]
      intro event hevent
      obtain hempty | hlast := hlimits
      · have hnil := length_maybeTruncate_le (str event) defaultTruncateNotice
          ((limitAt scaling length (index + 1)).getD 0)
        rw [hempty event hevent] at hnil ⊢
        exact hnil.trans (Nat.zero_le _)
      · apply length_text_le
        intro hzero
        exact hlast length hlength index hindex hfails (Option.some.inj hzero)
    · intro made hmem limit hlimit text htext
      obtain ⟨index, hindex⟩ := List.mem_iff_getElem?.mp hmem
      obtain ⟨hcount, hfails, rfl⟩ := (getElem?_attempts hevents hlength).mp hindex
      obtain ⟨event, hevent, rfl⟩ := mem_eventStrings.mp htext
      cases index with
      | zero => cases hlimit
      | succ index =>
          obtain hempty | hlast := hlimits
          · have hnil := length_maybeTruncate_le (str event) defaultTruncateNotice
              ((limitAt scaling length (index + 1)).getD 0)
            rw [hempty event hevent] at hnil ⊢
            exact hnil.trans (Nat.zero_le _)
          · obtain rfl := Option.some.inj (Option.mem_def.mp hlimit)
            have hpos := hlast length hlength index hcount hfails
            rw [limitAt, Option.getD_some, length_maybeTruncate, if_neg hpos]
            exact Nat.min_le_right _ _

/-- A factor that is taken exactly. -/
def exactScaling (factor : ℚ) (hpos : 0 < factor) (hlt : factor < 1) : ContextScaling where
  factor
  factor_pos := hpos
  factor_lt_one := hlt
  round := id
  round_mono := monotone_id
  round_natCast _ := rfl

/-- A view with one event, and two attempts at most. -/
def shortView : View := { events := [Sample.message "m"] }

def twoAttempts : LLMSummarizingCondenser :=
  { standard with hardContextResetMaxRetries := 2, hardContextResetMaxRetries_pos := by decide }

theorem shrinks_halves :
    Shrinks (twoAttempts.hardContextResetAttempts (exactScaling (1 / 2) (by norm_num) (by norm_num))
      (fun _ => List.replicate 50 'a') (fun _ => none) shortView).1 := by
  apply (hardContextResetAttempts_shrinks_iff _ _ _ _ _ (by decide)).mpr
  right
  intro length hlength count hcount _
  obtain rfl := Option.some.inj hlength
  obtain rfl : count = 0 := Nat.lt_one_iff.mp (Nat.lt_of_succ_lt_succ hcount)
  have hhalf : 0 < ⌊((50 : ℕ) : ℚ) * (1 / 2)⌋₊ := Nat.floor_pos.mpr (by norm_num)
  exact hhalf.ne'

theorem hardContextResetAttempts_snd_halves :
    (twoAttempts.hardContextResetAttempts (exactScaling (1 / 2) (by norm_num) (by norm_num))
      (fun _ => List.replicate 50 'a') (fun _ => none) shortView).2 = some none :=
  hardContextResetAttempts_snd twoAttempts _ _ _ shortView (by decide)

/-- A hundredth of fifty characters is no limit. -/
theorem not_shrinks_hundredths :
    ¬ Shrinks (twoAttempts.hardContextResetAttempts
      (exactScaling (1 / 100) (by norm_num) (by norm_num))
      (fun _ => List.replicate 50 'a') (fun _ => none) shortView).1 := by
  intro hshrinks
  have hscaled : ⌊((50 : ℕ) : ℚ) * (1 / 100)⌋₊ = 0 := Nat.floor_eq_zero.mpr (by norm_num)
  have hbound := hshrinks.bounded _ (List.mem_cons_of_mem _ List.mem_cons_self) _ rfl _
    List.mem_cons_self
  change (PythonText.maybeTruncate (List.replicate 50 'a') ⌊((50 : ℕ) : ℚ) * (1 / 100)⌋₊
    defaultTruncateNotice).length ≤ ⌊((50 : ℕ) : ℚ) * (1 / 100)⌋₊ at hbound
  rw [hscaled, length_maybeTruncate, if_pos rfl, List.length_replicate] at hbound
  exact absurd hbound (by decide)

end LLMSummarizingCondenser

end ShuttleFlow
