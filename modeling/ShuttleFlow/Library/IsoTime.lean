import Mathlib.Data.String.Basic
import Mathlib.Order.Basic

/-! # Dates and times, and how ISO 8601 writes them

A time may come with its offset from UTC. The texts of two times are in the order of their instants
if both have the same offset, and both have a fraction or none has.
-/

namespace ShuttleFlow

namespace Calendar

def isLeap (year : Nat) : Bool :=
  year % 4 = 0 && (year % 100 ≠ 0 || year % 400 = 0)

def daysInMonth (year month : Nat) : Nat :=
  if month = 2 then if isLeap year then 29 else 28
  else if month = 4 ∨ month = 6 ∨ month = 9 ∨ month = 11 then 30
  else 31

/-- The days of the years before. -/
def daysBeforeYear (year : Nat) : Nat :=
  (year - 1) * 365 + (year - 1) / 4 - (year - 1) / 100 + (year - 1) / 400

/-- The days of the months before. -/
def daysBeforeMonth (year : Nat) : Nat → Nat
  | 0 => 0
  | 1 => 0
  | month + 2 => daysBeforeMonth year (month + 1) + daysInMonth year (month + 1)

theorem div_succ (number divisor : Nat) :
    (number + 1) / divisor = number / divisor + if (number + 1) % divisor = 0 then 1 else 0 := by
  rw [Nat.succ_div]
  simp only [Nat.dvd_iff_mod_eq_zero]

theorem daysBeforeYear_succ {year : Nat} (hyear : 1 ≤ year) :
    daysBeforeYear (year + 1) = daysBeforeYear year + if isLeap year then 366 else 365 := by
  obtain ⟨year, rfl⟩ := Nat.exists_eq_succ_of_ne_zero (Nat.ne_zero_of_lt hyear)
  have hleap : isLeap (year + 1) = true ↔
      (year + 1) % 4 = 0 ∧ ((year + 1) % 100 ≠ 0 ∨ (year + 1) % 400 = 0) := by
    simp [isLeap]
  have hcentury : (year + 1) % 100 = 0 → (year + 1) % 4 = 0 := by omega
  have hfourth : (year + 1) % 400 = 0 → (year + 1) % 100 = 0 := by omega
  have hcenturies : year / 100 ≤ year / 4 := by omega
  have hday : (year + 1 + 1 - 1) * 365 = year * 365 + 365 := by omega
  rw [Nat.succ_eq_add_one, daysBeforeYear, daysBeforeYear, hday, Nat.add_sub_cancel,
    Nat.add_sub_cancel, div_succ year 4, div_succ year 100, div_succ year 400]
  simp only [hleap]
  generalize year / 4 = leaps at *
  generalize year / 100 = centuries at *
  generalize year / 400 = fourths at *
  generalize (year + 1) % 4 = first at *
  generalize (year + 1) % 100 = second at *
  generalize (year + 1) % 400 = third at *
  split_ifs <;> omega

/-- A month is over before the next one begins, and the year with its last month. -/
theorem daysBeforeMonth_succ {year month : Nat} (hmonth : 1 ≤ month) :
    daysBeforeMonth year (month + 1) = daysBeforeMonth year month + daysInMonth year month := by
  obtain ⟨month, rfl⟩ := Nat.exists_eq_succ_of_ne_zero (Nat.ne_zero_of_lt hmonth)
  rfl

theorem daysBeforeMonth_mono {year first last : Nat} (hfirst : 1 ≤ first) (hle : first ≤ last) :
    daysBeforeMonth year first ≤ daysBeforeMonth year last := by
  induction last, hle using Nat.le_induction with
  | base => exact Nat.le_refl _
  | succ last hle ih =>
      rw [daysBeforeMonth_succ (hfirst.trans hle)]
      omega

theorem daysBeforeMonth_end (year : Nat) :
    daysBeforeMonth year 13 = if isLeap year then 366 else 365 := by
  cases hleap : isLeap year with
  | true => simp [daysBeforeMonth, daysInMonth, hleap]
  | false => simp [daysBeforeMonth, daysInMonth, hleap]

theorem daysBeforeYear_mono {first last : Nat} (hfirst : 1 ≤ first) (hle : first ≤ last) :
    daysBeforeYear first ≤ daysBeforeYear last := by
  induction last, hle using Nat.le_induction with
  | base => exact Nat.le_refl _
  | succ last hle ih =>
      rw [daysBeforeYear_succ (hfirst.trans hle)]
      omega

end Calendar

/-- Microseconds are the smallest unit. -/
structure DateTime where
  year : Nat
  month : Nat
  day : Nat
  hour : Nat
  minute : Nat
  second : Nat
  microsecond : Nat
  /-- A naive time has none. -/
  utcoffset : Option Int
  year_bounds : 1 ≤ year ∧ year ≤ 9999
  month_bounds : 1 ≤ month ∧ month ≤ 12
  day_bounds : 1 ≤ day ∧ day ≤ Calendar.daysInMonth year month
  hour_lt : hour < 24
  minute_lt : minute < 60
  second_lt : second < 60
  microsecond_lt : microsecond < 1000000
  utcoffset_lt : ∀ offset ∈ utcoffset, offset.natAbs < 86400000000

namespace DateTime

def toordinal (time : DateTime) : Nat :=
  Calendar.daysBeforeYear time.year + Calendar.daysBeforeMonth time.year time.month + time.day

/-- Microseconds on the clock that shows the time. -/
def wallClock (time : DateTime) : Nat :=
  (((time.toordinal * 24 + time.hour) * 60 + time.minute) * 60 + time.second) * 1000000 +
    time.microsecond

/-- Naive times are times of a zone. -/
def instant (zone : Int) (time : DateTime) : Int :=
  time.wallClock - time.utcoffset.getD zone

/-- The last digits of a number. -/
def padded : Nat → Nat → List Char
  | 0, _ => []
  | width + 1, number => padded width (number / 10) ++ [Nat.digitChar (number % 10)]

/-- An offset, with seconds and fractions of seconds where there are some. -/
def offsetText (offset : Int) : List Char :=
  let size := offset.natAbs
  let seconds := size / 1000000
  let start := (if offset < 0 then '-' else '+') :: padded 2 (seconds / 3600) ++
    ':' :: padded 2 (seconds / 60 % 60)
  if size % 60000000 = 0 then start
  else
    let start := start ++ ':' :: padded 2 (seconds % 60)
    if size % 1000000 = 0 then start else start ++ '.' :: padded 6 (size % 1000000)

def clockText (time : DateTime) : List Char :=
  padded 4 time.year ++ '-' :: padded 2 time.month ++ '-' :: padded 2 time.day ++
    'T' :: padded 2 time.hour ++ ':' :: padded 2 time.minute ++ ':' :: padded 2 time.second

def fractionText (time : DateTime) : List Char :=
  if time.microsecond = 0 then [] else '.' :: padded 6 time.microsecond

def isoformat (time : DateTime) : String :=
  String.ofList (time.clockText ++ time.fractionText ++ time.utcoffset.elim [] offsetText)

/-! ## Digits of equal number -/

theorem length_padded (width number : Nat) : (padded width number).length = width := by
  induction width generalizing number with
  | zero => rfl
  | succ width ih => rw [padded, List.length_append, ih, List.length_singleton]

theorem append_lt_append {first first' : List Char} (hlength : first.length = first'.length)
    (hlt : first < first') (rest rest' : List Char) : first ++ rest < first' ++ rest' := by
  induction first generalizing first' with
  | nil =>
      obtain rfl := List.eq_nil_of_length_eq_zero hlength.symm
      exact absurd hlt (List.not_lt_nil _)
  | cons c first ih =>
      cases first' with
      | nil => cases hlength
      | cons d first' =>
          rw [List.cons_append, List.cons_append, List.cons_lt_cons_iff]
          rcases List.cons_lt_cons_iff.mp hlt with hc | ⟨rfl, hless⟩
          · exact .inl hc
          · exact .inr ⟨rfl, ih (Nat.succ.inj hlength) hless⟩

theorem append_lt_append_left (first : List Char) {rest rest' : List Char} (hlt : rest < rest') :
    first ++ rest < first ++ rest' := by
  induction first with
  | nil => exact hlt
  | cons c first ih => exact List.cons_lt_cons_iff.mpr (.inr ⟨rfl, ih⟩)

theorem digitChar_lt {digit other : Nat} (hlt : digit < other) (hother : other < 10) :
    Nat.digitChar digit < Nat.digitChar other := by
  have hdigits : ∀ other < 10, ∀ digit < other, Nat.digitChar digit < Nat.digitChar other := by
    decide
  exact hdigits other hother digit hlt

theorem padded_lt {width number other : Nat} (hlt : number < other) (hother : other < 10 ^ width) :
    padded width number < padded width other := by
  induction width generalizing number other with
  | zero =>
      rw [Nat.pow_zero] at hother
      omega
  | succ width ih =>
      have hquotient : other / 10 < 10 ^ width := by
        rw [Nat.pow_succ] at hother
        exact Nat.div_lt_of_lt_mul (by omega)
      rw [padded, padded]
      rcases Nat.lt_or_ge (number / 10) (other / 10) with hless | hmore
      · exact append_lt_append (by rw [length_padded, length_padded]) (ih hless hquotient) _ _
      · have hsame : number / 10 = other / 10 := by omega
        rw [hsame]
        refine append_lt_append_left _ (List.cons_lt_cons_iff.mpr (.inl ?_))
        exact digitChar_lt (by omega) (by omega)

/-- Numbers in fields of fixed widths, each behind a sign. -/
def fieldsText : List (List Char × Nat) → List Nat → List Char
  | (sign, width) :: fields, number :: numbers =>
      sign ++ (padded width number ++ fieldsText fields numbers)
  | _, _ => []

/-- The numbers have the places they need. -/
def Fit : List (List Char × Nat) → List Nat → Prop
  | (_, width) :: fields, number :: numbers => number < 10 ^ width ∧ Fit fields numbers
  | [], [] => True
  | _, _ => False

theorem fieldsText_lt {fields : List (List Char × Nat)} {numbers others : List Nat}
    (hnumbers : Fit fields numbers) (hothers : Fit fields others) (hlt : numbers < others)
    (rest rest' : List Char) :
    fieldsText fields numbers ++ rest < fieldsText fields others ++ rest' := by
  induction fields generalizing numbers others with
  | nil =>
      cases others with
      | nil => exact absurd hlt (List.not_lt_nil _)
      | cons other others => exact absurd hothers id
  | cons field fields ih =>
      obtain ⟨sign, width⟩ := field
      cases numbers with
      | nil => exact absurd hnumbers id
      | cons number numbers =>
          cases others with
          | nil => exact absurd hlt (List.not_lt_nil _)
          | cons other others =>
              rw [fieldsText, fieldsText, List.append_assoc, List.append_assoc, List.append_assoc,
                List.append_assoc]
              refine append_lt_append_left sign ?_
              rcases List.cons_lt_cons_iff.mp hlt with hless | ⟨rfl, hless⟩
              · exact append_lt_append (by rw [length_padded, length_padded])
                  (padded_lt hless hothers.1) _ _
              · exact append_lt_append_left _ (ih hnumbers.2 hothers.2 hless)

/-! ## Texts of one form -/

/-- Both times have the same offset or none, and both have a fraction or none has. -/
structure SameForm (time other : DateTime) : Prop where
  utcoffset : time.utcoffset = other.utcoffset
  fraction : time.microsecond = 0 ↔ other.microsecond = 0

def numbers (time : DateTime) : List Nat :=
  [time.year, time.month, time.day, time.hour, time.minute, time.second]

def clockFields : List (List Char × Nat) :=
  [([], 4), (['-'], 2), (['-'], 2), (['T'], 2), ([':'], 2), ([':'], 2)]

theorem clockText_eq (time : DateTime) :
    time.clockText = fieldsText clockFields time.numbers := by
  simp [clockText, fieldsText, clockFields, numbers]

theorem daysInMonth_le (year month : Nat) : Calendar.daysInMonth year month ≤ 31 := by
  rw [Calendar.daysInMonth]
  split_ifs <;> omega

theorem fit_numbers (time : DateTime) : Fit clockFields time.numbers := by
  have hyear := time.year_bounds
  have hmonth := time.month_bounds
  have hday := time.day_bounds.2.trans (daysInMonth_le _ _)
  have hhour := time.hour_lt
  have hminute := time.minute_lt
  have hsecond := time.second_lt
  simp only [clockFields, numbers, Fit, and_true]
  omega

/-- A date before another one. -/
theorem toordinal_lt {time other : DateTime}
    (hlt : [time.year, time.month, time.day] < [other.year, other.month, other.day]) :
    time.toordinal < other.toordinal := by
  obtain ⟨hday, hdays⟩ := time.day_bounds
  obtain ⟨hmonth, hmonths⟩ := time.month_bounds
  have hotherDay := other.day_bounds.1
  have hnext : ∀ last, time.month + 1 ≤ last →
      Calendar.daysBeforeMonth time.year time.month + time.day ≤
        Calendar.daysBeforeMonth time.year last := by
    intro last hlast
    have hmono := @Calendar.daysBeforeMonth_mono time.year _ _
      (show 1 ≤ time.month + 1 by omega) hlast
    rw [Calendar.daysBeforeMonth_succ hmonth] at hmono
    omega
  simp only [List.cons_lt_cons_iff, List.not_lt_nil, and_false, or_false] at hlt
  rw [toordinal, toordinal]
  rcases hlt with hyear | ⟨hyear, hmonth' | ⟨hmonth', hday'⟩⟩
  · have hend := hnext 13 (by omega)
    have hyears := Calendar.daysBeforeYear_mono (show 1 ≤ time.year + 1 by omega) hyear
    rw [Calendar.daysBeforeMonth_end] at hend
    rw [Calendar.daysBeforeYear_succ time.year_bounds.1] at hyears
    omega
  · have hmonths := hnext other.month hmonth'
    rw [← hyear]
    omega
  · rw [← hyear, ← hmonth']
    omega

theorem wallClock_lt {time other : DateTime}
    (hlt : time.numbers ++ [time.microsecond] < other.numbers ++ [other.microsecond]) :
    time.wallClock < other.wallClock := by
  have hhour := time.hour_lt
  have hminute := time.minute_lt
  have hsecond := time.second_lt
  have hmicrosecond := time.microsecond_lt
  have hdate : [time.year, time.month, time.day] < [other.year, other.month, other.day] →
      time.toordinal < other.toordinal := toordinal_lt
  have hsame : time.year = other.year → time.month = other.month → time.day = other.day →
      time.toordinal = other.toordinal := by
    intro hyear hmonth hday
    rw [toordinal, toordinal, hyear, hmonth, hday]
  simp only [numbers, List.cons_append, List.nil_append, List.cons_lt_cons_iff, List.not_lt_nil,
    and_false, or_false] at hlt hdate
  rw [wallClock, wallClock]
  rcases hlt with hless | ⟨hyear, hless | ⟨hmonth, hless | ⟨hday, hclock⟩⟩⟩
  · have hordinal := hdate (.inl hless)
    omega
  · have hordinal := hdate (.inr ⟨hyear, .inl hless⟩)
    omega
  · have hordinal := hdate (.inr ⟨hyear, .inr ⟨hmonth, hless⟩⟩)
    omega
  · have hordinal := hsame hyear hmonth hday
    omega

/-- A fraction of zero is not written, which is a field without a place. -/
def fractionField (time : DateTime) : List Char × Nat :=
  if time.microsecond = 0 then ([], 0) else (['.'], 6)

theorem clockText_append_fractionText (time : DateTime) :
    time.clockText ++ time.fractionText =
      fieldsText (clockFields ++ [time.fractionField]) (time.numbers ++ [time.microsecond]) := by
  rw [clockText_eq, fractionText, fractionField]
  split
  next hzero => simp [clockFields, numbers, fieldsText, padded]
  next => simp [clockFields, numbers, fieldsText]

theorem fit_microsecond (time : DateTime) :
    Fit (clockFields ++ [time.fractionField]) (time.numbers ++ [time.microsecond]) := by
  have hclock := fit_numbers time
  have hfraction : time.microsecond < 10 ^ time.fractionField.2 := by
    rw [fractionField]
    split
    next hzero =>
      rw [hzero]
      exact Nat.one_pos
    next => exact time.microsecond_lt
  simp only [clockFields, numbers, Fit, and_true, List.cons_append, List.nil_append] at hclock ⊢
  exact ⟨hclock.1, hclock.2.1, hclock.2.2.1, hclock.2.2.2.1, hclock.2.2.2.2.1, hclock.2.2.2.2.2,
    hfraction⟩

theorem isoformat_lt_of_numbers {time other : DateTime} (hform : SameForm time other)
    (hlt : time.numbers ++ [time.microsecond] < other.numbers ++ [other.microsecond]) :
    time.isoformat < other.isoformat := by
  have hfield : time.fractionField = other.fractionField := by
    simp only [fractionField, hform.fraction]
  have hfit := fit_microsecond time
  rw [isoformat, isoformat, String.lt_iff_toList_lt, String.toList_ofList, String.toList_ofList,
    hform.utcoffset, clockText_append_fractionText, clockText_append_fractionText, hfield]
  rw [hfield] at hfit
  exact fieldsText_lt hfit (fit_microsecond other) hlt _ _

/-- Times of one form are in the order of their texts. -/
theorem isoformat_lt_iff {time other : DateTime} (hform : SameForm time other) (zone : Int) :
    time.isoformat < other.isoformat ↔ time.instant zone < other.instant zone := by
  have hinstant : ∀ {time other : DateTime}, time.utcoffset = other.utcoffset →
      (time.instant zone < other.instant zone ↔ time.wallClock < other.wallClock) := by
    intro time other hoffset
    rw [instant, instant, hoffset]
    omega
  rw [hinstant hform.utcoffset]
  rcases lt_trichotomy (time.numbers ++ [time.microsecond])
    (other.numbers ++ [other.microsecond]) with hless | heq | hmore
  · exact iff_of_true (isoformat_lt_of_numbers hform hless) (wallClock_lt hless)
  · have htext : time.isoformat = other.isoformat := by
      have hfield : time.fractionField = other.fractionField := by
        simp only [fractionField, hform.fraction]
      rw [isoformat, isoformat, clockText_append_fractionText, clockText_append_fractionText,
        heq, hfield, hform.utcoffset]
    have hclock : time.wallClock = other.wallClock := by
      simp only [numbers, List.cons_append, List.nil_append, List.cons.injEq, and_true] at heq
      obtain ⟨hyear, hmonth, hday, hhour, hminute, hsecond, hmicrosecond⟩ := heq
      rw [wallClock, wallClock, toordinal, toordinal, hyear, hmonth, hday, hhour, hminute, hsecond,
        hmicrosecond]
    rw [htext, hclock]
    exact iff_of_false (lt_irrefl _) (lt_irrefl _)
  · have hform' : SameForm other time := ⟨hform.utcoffset.symm, hform.fraction.symm⟩
    exact iff_of_false (lt_asymm (isoformat_lt_of_numbers hform' hmore))
      (lt_asymm (wallClock_lt hmore))

end DateTime

end ShuttleFlow
