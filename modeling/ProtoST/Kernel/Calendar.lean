import Mathlib.Tactic.Common
import Mathlib.Tactic.Ring

/-!
# Dates and day numbers

The day arithmetic of `Date` in `lib/kernel/time.st`.  An `Integer` of any size is an `Int`;
`//` and `\\` floor, which for the positive divisors here are `/` and `%` of `Int`.

A date of the proleptic Gregorian calendar has a month from 1 to 12 and a day of that month
(`Date.Valid`).  The formulas count the years from March; `Date.marchYear` and `Date.marchMonth`
are the year and the month so counted, and `dayNumber_eq` says what the day number is in them.

## Main results

* `epochDays_fromEpochDays`, `fromEpochDays_epochDays` — the two directions are inverse.
* `fromEpochDays_succ` — the day after a day is the next day of the calendar.
* `lt_iff_before` — the order of the dates is that of their day numbers.
* `addDays_sub`, `addDays_addDays` — moving by days.
-/

namespace ProtoST.Kernel

structure Date where
  year : Int
  month : Int
  day : Int
  weekday : Option Int
  deriving DecidableEq, Repr

namespace Date

/-- `Date class >> year:month:day:`. -/
def ofParts (y m d : Int) : Date := ⟨y, m, d, none⟩

/-- `isLeapYear`. -/
def isLeapYear (date : Date) : Bool :=
  (date.year % 4 = 0 && date.year % 100 ≠ 0) || date.year % 400 = 0

/-- `daysInMonth`; the array of the other months is indexed from 1, and an index out of it is
an error. -/
def daysInMonth (date : Date) : Option Int :=
  if date.month = 2 then some (if date.isLeapYear then 29 else 28)
  else if date.month < 1 then none
  else [31, 28, 31, 30, 31, 30, 31, 31, 30, 31, 30, 31][(date.month - 1).toNat]?

/-- `epochDays`. -/
def epochDays (date : Date) : Int :=
  let y := if date.month ≤ 2 then date.year - 1 else date.year
  let era := y / 400
  let yoe := y - era * 400
  let doy := (153 * ((date.month + 9) % 12) + 2) / 5 + date.day - 1
  let doe := yoe * 365 + yoe / 4 - yoe / 100 + doy
  era * 146097 + doe - 719468

/-- `Date class >> fromEpochDays:`. -/
def fromEpochDays (anInteger : Int) : Date :=
  let z := anInteger + 719468
  let era := z / 146097
  let doe := z - era * 146097
  let yoe := (doe - doe / 1460 + doe / 36524 - doe / 146096) / 365
  let doy := doe - (365 * yoe + yoe / 4 - yoe / 100)
  let mp := (5 * doy + 2) / 153
  let d := doy - (153 * mp + 2) / 5 + 1
  let m := if mp < 10 then mp + 3 else mp - 9
  let y := yoe + era * 400 + (if m ≤ 2 then 1 else 0)
  ofParts y m d

/-- `addDays:`. -/
def addDays (date : Date) (anInteger : Int) : Date := fromEpochDays (date.epochDays + anInteger)

/-- `-`. -/
def sub (date aDate : Date) : Int := date.epochDays - aDate.epochDays

/-- `<`. -/
def lt (date aDate : Date) : Bool := date.epochDays < aDate.epochDays

/-! ## The calendar -/

/-- A date of the proleptic Gregorian calendar. -/
def Valid (date : Date) : Prop :=
  1 ≤ date.month ∧ date.month ≤ 12 ∧ 1 ≤ date.day ∧
    ∃ last ∈ date.daysInMonth, date.day ≤ last

/-- The next day of the calendar. -/
def next (date : Date) : Date :=
  if date.daysInMonth = some date.day then
    if date.month = 12 then ofParts (date.year + 1) 1 1
    else ofParts date.year (date.month + 1) 1
  else ofParts date.year date.month (date.day + 1)

/-- The order of the calendar: by year, then by month, then by day. -/
def Before (a b : Date) : Prop :=
  a.year < b.year ∨ (a.year = b.year ∧ (a.month < b.month ∨
    (a.month = b.month ∧ a.day < b.day)))

/-! ## Years from March -/

/-- The year of a year of 366 days that ends in February, from March. -/
def Long (year : Int) : Prop :=
  (year + 1) % 4 = 0 ∧ ((year + 1) % 100 ≠ 0 ∨ (year + 1) % 400 = 0)

instance (year : Int) : Decidable (Long year) := inferInstanceAs (Decidable (_ ∧ _))

/-- The first day of a year from March, as a day number. -/
def yearStart (year : Int) : Int := 365 * year + year / 4 - year / 100 + year / 400 - 719468

/-- The first day of a month from March, in its year. -/
def monthStart (month : Int) : Int := (153 * month + 2) / 5

/-- The year and the month from March. -/
def marchYear (date : Date) : Int := if date.month ≤ 2 then date.year - 1 else date.year

def marchMonth (date : Date) : Int := (date.month + 9) % 12

theorem marchYear_ofParts (y m d : Int) :
    (ofParts y m d).marchYear = if m ≤ 2 then y - 1 else y := rfl

theorem marchMonth_ofParts (y m d : Int) : (ofParts y m d).marchMonth = (m + 9) % 12 := rfl

theorem marchMonth_bounds (date : Date) : 0 ≤ date.marchMonth ∧ date.marchMonth ≤ 11 := by
  unfold marchMonth
  omega

theorem epochDays_eq (date : Date) :
    date.epochDays = yearStart date.marchYear + monthStart date.marchMonth + date.day - 1 := by
  simp only [epochDays, yearStart, monthStart, marchYear, marchMonth]
  generalize (if date.month ≤ 2 then date.year - 1 else date.year) = y
  omega

theorem yearStart_succ (year : Int) :
    (Long year ∧ yearStart (year + 1) = yearStart year + 366) ∨
      (¬Long year ∧ yearStart (year + 1) = yearStart year + 365) := by
  by_cases h : Long year
  · refine .inl ⟨h, ?_⟩
    unfold Long at h
    simp only [yearStart]
    omega
  · refine .inr ⟨h, ?_⟩
    unfold Long at h
    simp only [yearStart]
    omega

/-- A year of a 400-year era: its centuries, its four-year spans and the years of the last. -/
structure Spans (year era c q t : Int) : Prop where
  year_eq : year = 400 * era + 100 * c + 4 * q + t
  centuries : 0 ≤ c ∧ c ≤ 3
  spans : 0 ≤ q ∧ q ≤ 24
  years : 0 ≤ t ∧ t ≤ 3

theorem exists_spans (year : Int) : ∃ era c q t, Spans year era c q t :=
  ⟨year / 400, year % 400 / 100, year % 100 / 4, year % 4, by omega, by omega, by omega,
    by omega⟩

/-- A day of a year from March. -/
def DayOf (year doy : Int) : Prop := 0 ≤ doy ∧ (doy ≤ 364 ∨ (doy = 365 ∧ Long year))

theorem Spans.yearStart_eq {year era c q t : Int} (h : Spans year era c q t) :
    yearStart year = 146097 * era + 36524 * c + 1461 * q + 365 * t - 719468 := by
  obtain ⟨rfl, hc, hq, ht⟩ := h
  simp only [yearStart]
  omega

theorem Spans.dayOf {year era c q t doy : Int} (h : Spans year era c q t)
    (hd : DayOf year doy) : 0 ≤ doy ∧
      (doy ≤ 364 ∨ (doy = 365 ∧ t = 3 ∧ (q ≤ 23 ∨ c = 3))) := by
  obtain ⟨rfl, hc, hq, ht⟩ := h
  refine ⟨hd.1, hd.2.imp_right fun ⟨hDoy, hLong⟩ => ⟨hDoy, ?_⟩⟩
  unfold Long at hLong
  omega

/-- The year of an era, of a day of this era. -/
theorem yoe_eq {c q t doy doe : Int} (hc : 0 ≤ c ∧ c ≤ 3) (hq : 0 ≤ q ∧ q ≤ 24)
    (ht : 0 ≤ t ∧ t ≤ 3)
    (hd : 0 ≤ doy ∧ (doy ≤ 364 ∨ (doy = 365 ∧ t = 3 ∧ (q ≤ 23 ∨ c = 3))))
    (h : doe = 36524 * c + 1461 * q + 365 * t + doy) :
    (doe - doe / 1460 + doe / 36524 - doe / 146096) / 365 = 100 * c + 4 * q + t := by
  -- the last day of an era is the only one that counts as a fourth century
  have hCentury : doe / 36524 = if doe = 146096 then 4 else c := by
    split <;> omega
  have hEra : doe / 146096 = if doe = 146096 then 1 else 0 := by
    split <;> omega
  -- the leap days before the year, and one more at the end of a cycle
  have hLeap : doe / 1460 = 25 * c + q + if 24 * c + q + 365 * t + doy < 1460 then 0 else 1 := by
    split <;> omega
  rw [hCentury, hEra, hLeap]
  split <;> split <;> omega

/-- The date of a day of a year from March. -/
def ofDay (year doy : Int) : Date :=
  let mp := (5 * doy + 2) / 153
  ofParts (if mp < 10 then year else year + 1) (if mp < 10 then mp + 3 else mp - 9)
    (doy - monthStart mp + 1)

/-- Where a day of an era lies in it. -/
theorem doe_bounds {c q t doy : Int} (hc : 0 ≤ c ∧ c ≤ 3) (hq : 0 ≤ q ∧ q ≤ 24)
    (ht : 0 ≤ t ∧ t ≤ 3)
    (hd : 0 ≤ doy ∧ (doy ≤ 364 ∨ (doy = 365 ∧ t = 3 ∧ (q ≤ 23 ∨ c = 3)))) :
    0 ≤ 36524 * c + 1461 * q + 365 * t + doy ∧
      36524 * c + 1461 * q + 365 * t + doy ≤ 146096 := by
  omega

theorem fromEpochDays_yearStart {year doy : Int} (hd : DayOf year doy) :
    fromEpochDays (yearStart year + doy) = ofDay year doy := by
  obtain ⟨era, c, q, t, h⟩ := exists_spans year
  have hDay := h.dayOf hd
  obtain ⟨hLow, hHigh⟩ := doe_bounds h.centuries h.spans h.years hDay
  have hYoe := yoe_eq h.centuries h.spans h.years hDay rfl
  have hz : yearStart year + doy + 719468 =
      146097 * era + (36524 * c + 1461 * q + 365 * t + doy) := by
    rw [h.yearStart_eq]
    ring
  have hFour : (100 * c + 4 * q + t) / 4 = 25 * c + q := by
    have := h.years
    clear * - this
    omega
  have hCentury : (100 * c + 4 * q + t) / 100 = c := by
    have hq := h.spans
    have ht := h.years
    clear * - hq ht
    omega
  generalize hRest : 36524 * c + 1461 * q + 365 * t + doy = doe at hLow hHigh hYoe hz
  have hEra : (yearStart year + doy + 719468) / 146097 = era := by
    rw [hz]
    clear * - hLow hHigh
    omega
  have hDoe : yearStart year + doy + 719468 - era * 146097 = doe := by
    rw [hz]
    ring
  have hDoy : doe - (365 * (100 * c + 4 * q + t) + (25 * c + q) - c) = doy := by
    rw [← hRest]
    ring
  simp only [fromEpochDays, ofDay, monthStart, hEra, hDoe, hYoe, hFour, hCentury, hDoy, ofParts,
    Date.mk.injEq, and_true]
  have hYear := h.year_eq
  have hMp : 0 ≤ doy ∧ doy ≤ 365 := ⟨hDay.1, by have := hDay.2; omega⟩
  clear * - hYear hMp
  split <;> split <;> omega

/-- Every day number is that of a day of a year from March. -/
theorem exists_dayOf (n : Int) : ∃ year doy, DayOf year doy ∧ n = yearStart year + doy := by
  obtain ⟨era, doe, hn, hLow, hHigh⟩ : ∃ era doe : Int,
      n + 719468 = 146097 * era + doe ∧ 0 ≤ doe ∧ doe ≤ 146096 :=
    ⟨(n + 719468) / 146097, (n + 719468) % 146097, by omega, by omega, by omega⟩
  -- the fourth century and the fourth year have a day more
  obtain ⟨c, r, hDoe, hc, hr, hr3⟩ : ∃ c r : Int, doe = 36524 * c + r ∧ (0 ≤ c ∧ c ≤ 3) ∧
      0 ≤ r ∧ (r ≤ 36523 ∨ (r = 36524 ∧ c = 3)) := by
    by_cases h : doe = 146096
    · exact ⟨3, 36524, by omega, by omega, by omega, by omega⟩
    · exact ⟨doe / 36524, doe % 36524, by omega, by omega, by omega, by omega⟩
  obtain ⟨q, s, hRest, hq, hs, hs3⟩ : ∃ q s : Int, r = 1461 * q + s ∧ (0 ≤ q ∧ q ≤ 24) ∧
      0 ≤ s ∧ s ≤ 1460 :=
    ⟨r / 1461, r % 1461, by omega, by omega, by omega, by omega⟩
  obtain ⟨t, doy, hSpan, ht, hd, hd3⟩ : ∃ t doy : Int, s = 365 * t + doy ∧ (0 ≤ t ∧ t ≤ 3) ∧
      0 ≤ doy ∧ (doy ≤ 364 ∨ (doy = 365 ∧ t = 3 ∧ s = 1460)) := by
    by_cases h : s = 1460
    · exact ⟨3, 365, by omega, by omega, by omega, by omega⟩
    · exact ⟨s / 365, s % 365, by omega, by omega, by omega, by omega⟩
  have hSpans : Spans (400 * era + 100 * c + 4 * q + t) era c q t := ⟨rfl, hc, hq, ht⟩
  refine ⟨400 * era + 100 * c + 4 * q + t, doy,
    ⟨hd, hd3.imp_right fun ⟨hDoy, ht3, hs4⟩ => ⟨hDoy, ?_⟩⟩, ?_⟩
  · rw [hSpans.yearStart_eq]
    omega
  · have hLast : q ≤ 23 ∨ c = 3 := by
      clear hd3 hSpans
      omega
    unfold Long
    clear * - ht3 hLast hc hq
    omega

/-! ## The two directions -/

theorem march_ofDay {year doy : Int} (hd : 0 ≤ doy ∧ doy ≤ 365) :
    (ofDay year doy).marchYear = year ∧
      (ofDay year doy).marchMonth = (5 * doy + 2) / 153 ∧
      1 ≤ (ofDay year doy).month ∧ (ofDay year doy).month ≤ 12 := by
  have hMp : 0 ≤ (5 * doy + 2) / 153 ∧ (5 * doy + 2) / 153 ≤ 11 := by omega
  generalize hm : (5 * doy + 2) / 153 = mp at hMp
  simp only [marchYear, marchMonth, ofDay, ofParts, hm]
  clear * - hMp
  refine ⟨?_, ?_, ?_⟩ <;> split <;> omega

theorem epochDays_ofDay {year doy : Int} (hd : 0 ≤ doy ∧ doy ≤ 365) :
    (ofDay year doy).epochDays = yearStart year + doy := by
  obtain ⟨hYear, hMonth, -⟩ := @march_ofDay year doy hd
  rw [epochDays_eq, hYear, hMonth]
  simp only [ofDay, ofParts]
  ring

/-- The date built from a day number has this day number. -/
theorem epochDays_fromEpochDays (n : Int) : (fromEpochDays n).epochDays = n := by
  obtain ⟨year, doy, hd, rfl⟩ := exists_dayOf n
  rw [fromEpochDays_yearStart hd, epochDays_ofDay ⟨hd.1, by have := hd.2; omega⟩]

variable {date : Date}

/-- The last day of a month, from the year and the month from March. -/
theorem daysInMonth_eq (h : 1 ≤ date.month ∧ date.month ≤ 12) :
    date.daysInMonth = some (if date.marchMonth = 11 then
      (if Long date.marchYear then 29 else 28)
      else monthStart (date.marchMonth + 1) - monthStart date.marchMonth) := by
  obtain ⟨year, month, day, weekday⟩ := date
  have hLeap : (⟨year, 2, day, weekday⟩ : Date).isLeapYear = true ↔ Long (year - 1) := by
    simp only [isLeapYear, Long, Bool.or_eq_true, Bool.and_eq_true, decide_eq_true_eq]
    omega
  have hMonths : month = 1 ∨ month = 2 ∨ month = 3 ∨ month = 4 ∨ month = 5 ∨ month = 6 ∨
      month = 7 ∨ month = 8 ∨ month = 9 ∨ month = 10 ∨ month = 11 ∨ month = 12 := by
    simp only at h
    omega
  rcases hMonths with rfl | rfl | rfl | rfl | rfl | rfl | rfl | rfl | rfl | rfl | rfl | rfl
  case inr.inl =>
    by_cases hl : Long (year - 1)
    · simp [daysInMonth, hLeap.mpr hl, marchMonth, marchYear, hl]
    · have hn : (⟨year, 2, day, weekday⟩ : Date).isLeapYear = false := by
        simpa [hl] using hLeap
      simp [daysInMonth, hn, marchMonth, marchYear, hl]
  all_goals rfl

/-- The month of a day of a year from March. -/
theorem month_of_day {mp doy : Int} (hMp : 0 ≤ mp ∧ mp ≤ 11) (hLow : monthStart mp ≤ doy)
    (hHigh : doy < monthStart (mp + 1)) : (5 * doy + 2) / 153 = mp := by
  unfold monthStart at hLow hHigh
  have hMonths : mp = 0 ∨ mp = 1 ∨ mp = 2 ∨ mp = 3 ∨ mp = 4 ∨ mp = 5 ∨ mp = 6 ∨ mp = 7 ∨
      mp = 8 ∨ mp = 9 ∨ mp = 10 ∨ mp = 11 := by omega
  rcases hMonths with rfl | rfl | rfl | rfl | rfl | rfl | rfl | rfl | rfl | rfl | rfl | rfl <;>
    omega

/-- The day of the year from March of a date. -/
def dayOfYear (date : Date) : Int := monthStart date.marchMonth + date.day - 1

theorem Valid.dayOf (h : date.Valid) : DayOf date.marchYear date.dayOfYear := by
  obtain ⟨hLow, hHigh, hDay, last, hLast, hLe⟩ := h
  rw [Option.mem_def, daysInMonth_eq ⟨hLow, hHigh⟩, Option.some.injEq] at hLast
  have hMp := date.marchMonth_bounds
  unfold DayOf dayOfYear monthStart
  split at hLast
  next h11 =>
    split at hLast
    next hLong => simp only [h11, hLong, and_true]; omega
    next => simp only [h11]; omega
  next h11 =>
    unfold monthStart at hLast
    omega

theorem Valid.ofDay_eq (h : date.Valid) :
    ofDay date.marchYear date.dayOfYear = ofParts date.year date.month date.day := by
  have hDayOf := h.dayOf
  obtain ⟨hLow, hHigh, hDay, last, hLast, hLe⟩ := h
  rw [Option.mem_def, daysInMonth_eq ⟨hLow, hHigh⟩, Option.some.injEq] at hLast
  have hMp := date.marchMonth_bounds
  have hMonth : (5 * date.dayOfYear + 2) / 153 = date.marchMonth := by
    refine month_of_day hMp ?_ ?_
    · unfold dayOfYear
      omega
    · unfold dayOfYear
      split at hLast
      next h11 =>
        rw [h11]
        simp only [monthStart]
        split at hLast <;> omega
      next => omega
  simp only [ofDay, hMonth, ofParts, Date.mk.injEq, and_true]
  refine ⟨?_, ?_, by unfold dayOfYear; omega⟩
  · unfold marchYear marchMonth
    split <;> split <;> omega
  · unfold marchMonth
    split <;> omega

/-- Converting a date to its day number and back gives the date. -/
theorem fromEpochDays_epochDays (h : date.Valid) :
    fromEpochDays date.epochDays = ofParts date.year date.month date.day := by
  have hDay : date.epochDays = yearStart date.marchYear + date.dayOfYear := by
    rw [epochDays_eq, dayOfYear]
    omega
  rw [hDay, fromEpochDays_yearStart h.dayOf, h.ofDay_eq]

/-- The date built from a day number is a date of the calendar. -/
theorem valid_fromEpochDays (n : Int) : (fromEpochDays n).Valid := by
  obtain ⟨year, doy, hd, rfl⟩ := exists_dayOf n
  rw [fromEpochDays_yearStart hd]
  have hdoy : 0 ≤ doy ∧ doy ≤ 365 := ⟨hd.1, by have := hd.2; omega⟩
  obtain ⟨hYear, hMonth, hBounds⟩ := @march_ofDay year doy hdoy
  refine ⟨hBounds.1, hBounds.2, ?_, _, daysInMonth_eq hBounds, ?_⟩
  · simp only [ofDay, ofParts, monthStart]
    omega
  · rw [hYear, hMonth]
    simp only [ofDay, ofParts]
    unfold monthStart
    split
    next h11 =>
      have := hd.2
      split
      next => omega
      next hShort => simp only [hShort, and_false, or_false] at this; omega
    next => omega

/-- The next date of the calendar is a date of the calendar, a day later. -/
theorem Valid.next (h : date.Valid) :
    date.next.Valid ∧ date.next.epochDays = date.epochDays + 1 := by
  obtain ⟨hLow, hHigh, hDay, last, hLast, hLe⟩ := h
  have hLength := daysInMonth_eq ⟨hLow, hHigh⟩
  rw [Option.mem_def] at hLast
  unfold Date.next
  by_cases hEnd : date.day = last
  · rw [if_pos (hLast.trans (congrArg some hEnd.symm))]
    rw [hLast, Option.some.injEq] at hLength
    have hFirst : ∀ y m : Int, 1 ≤ m → m ≤ 12 → (ofParts y m 1).Valid := by
      intro y m hm1 hm12
      refine ⟨hm1, hm12, Int.le_refl 1, _, daysInMonth_eq ⟨hm1, hm12⟩, ?_⟩
      have hMp := (ofParts y m 1).marchMonth_bounds
      generalize (ofParts y m 1).marchMonth = mp at hMp
      change 1 ≤ _
      unfold monthStart
      split
      · split <;> omega
      · omega
    by_cases hDecember : date.month = 12
    · have hMonth : date.marchMonth = 9 := by
        unfold marchMonth
        omega
      have hYear : date.marchYear = date.year := if_neg (by omega)
      rw [if_pos hDecember]
      refine ⟨hFirst _ 1 (by omega) (by omega), ?_⟩
      rw [epochDays_eq, epochDays_eq, hYear, hMonth, marchYear_ofParts, marchMonth_ofParts,
        if_pos (by omega), Int.add_sub_cancel]
      rw [hMonth, if_neg (by omega)] at hLength
      simp only [ofParts, monthStart] at hLength ⊢
      omega
    rw [if_neg hDecember]
    refine ⟨hFirst _ _ (by omega) (by omega), ?_⟩
    by_cases hFebruary : date.month = 2
    · have hMonth : date.marchMonth = 11 := by
        unfold marchMonth
        omega
      have hYear : date.marchYear = date.year - 1 := if_pos (by omega)
      have hStart := yearStart_succ (date.year - 1)
      rw [Int.sub_add_cancel] at hStart
      rw [epochDays_eq, epochDays_eq, hYear, hMonth, marchYear_ofParts, marchMonth_ofParts,
        if_neg (by omega), hFebruary]
      rw [hMonth, hYear, if_pos rfl] at hLength
      simp only [ofParts, monthStart]
      rcases hStart with ⟨hLong, hStart⟩ | ⟨hLong, hStart⟩
      · rw [if_pos hLong] at hLength
        omega
      · rw [if_neg hLong] at hLength
        omega
    · have hYear : (ofParts date.year (date.month + 1) 1).marchYear = date.marchYear := by
        rw [marchYear_ofParts, marchYear]
        by_cases hm : date.month ≤ 2
        · rw [if_pos hm, if_pos (by omega)]
        · rw [if_neg hm, if_neg (by omega)]
      have hMonth : (ofParts date.year (date.month + 1) 1).marchMonth =
          date.marchMonth + 1 := by
        rw [marchMonth_ofParts, marchMonth]
        omega
      have h11 : date.marchMonth ≠ 11 := by
        unfold marchMonth
        omega
      rw [if_neg h11] at hLength
      rw [epochDays_eq, epochDays_eq, hYear, hMonth]
      simp only [ofParts]
      omega
  · have hNot : ¬date.daysInMonth = some date.day := by
      rw [hLast, Option.some.injEq]
      exact fun e => hEnd e.symm
    rw [if_neg hNot]
    refine ⟨⟨hLow, hHigh, ?_, last, hLast, ?_⟩, ?_⟩
    · simp only [ofParts]
      omega
    · simp only [ofParts]
      omega
    · have hSame : (ofParts date.year date.month (date.day + 1)).marchYear = date.marchYear ∧
          (ofParts date.year date.month (date.day + 1)).marchMonth = date.marchMonth :=
        ⟨rfl, rfl⟩
      rw [epochDays_eq, epochDays_eq, hSame.1, hSame.2]
      simp only [ofParts]
      omega

/-- The day after a day is the next date of the calendar. -/
theorem fromEpochDays_succ (n : Int) : fromEpochDays (n + 1) = (fromEpochDays n).next := by
  obtain ⟨hValid, hDay⟩ := (valid_fromEpochDays n).next
  rw [epochDays_fromEpochDays] at hDay
  rw [← hDay, fromEpochDays_epochDays hValid]
  unfold Date.next
  split
  · split <;> rfl
  · rfl

/-! ## Order and moving by days -/

theorem yearStart_mono {a b : Int} (h : a ≤ b) : yearStart a ≤ yearStart b := by
  unfold yearStart
  omega

theorem monthStart_mono {a b : Int} (h : a ≤ b) : monthStart a ≤ monthStart b := by
  unfold monthStart
  omega

variable {a b : Date}

/-- The order of the calendar is also that of the years from March. -/
theorem before_march (ha : a.Valid) (hb : b.Valid) (h : a.Before b) :
    a.marchYear < b.marchYear ∨ (a.marchYear = b.marchYear ∧
      (a.marchMonth < b.marchMonth ∨ (a.marchMonth = b.marchMonth ∧ a.day < b.day))) := by
  obtain ⟨ha1, ha12, -⟩ := ha
  obtain ⟨hb1, hb12, -⟩ := hb
  unfold Before at h
  unfold marchYear marchMonth
  split <;> split <;> omega

/-- An earlier date of the calendar has a smaller day number. -/
theorem epochDays_lt (ha : a.Valid) (hb : b.Valid) (h : a.Before b) :
    a.epochDays < b.epochDays := by
  have hMarch := before_march ha hb h
  have hDayA := ha.dayOf
  have hDayB := hb.dayOf.1
  have hEpoch : ∀ date : Date, date.epochDays = yearStart date.marchYear + date.dayOfYear := by
    intro date
    rw [epochDays_eq, dayOfYear]
    omega
  rw [hEpoch, hEpoch]
  rcases hMarch with hYear | ⟨hYear, hMonth | ⟨hMonth, hDay⟩⟩
  · -- the year from March is over before the other begins
    have hNext := yearStart_mono (Int.add_one_le_of_lt hYear)
    rcases yearStart_succ a.marchYear with ⟨-, hStart⟩ | ⟨hShort, hStart⟩
    · have := hDayA.2
      omega
    · have hDoy := hDayA.2.resolve_right fun hd => hShort hd.2
      omega
  · have hNext := monthStart_mono (Int.add_one_le_of_lt hMonth)
    have hLast := b.marchMonth_bounds
    obtain ⟨hLow, hHigh, -, last, hLength, hLe⟩ := ha
    rw [Option.mem_def, daysInMonth_eq ⟨hLow, hHigh⟩, if_neg (by omega),
      Option.some.injEq] at hLength
    obtain ⟨-, -, hDayB, -⟩ := hb
    rw [hYear, dayOfYear, dayOfYear]
    omega
  · rw [hYear, dayOfYear, dayOfYear, hMonth]
    omega

theorem eq_of_not_before (h : ¬a.Before b) (h' : ¬b.Before a) :
    a.year = b.year ∧ a.month = b.month ∧ a.day = b.day := by
  unfold Before at h h'
  omega

/-- The order of the dates is the order of the day numbers. -/
theorem lt_iff_before (ha : a.Valid) (hb : b.Valid) :
    a.lt b = true ↔ a.Before b := by
  rw [lt, decide_eq_true_eq]
  refine ⟨fun h => ?_, epochDays_lt ha hb⟩
  by_contra hNot
  by_cases hBack : b.Before a
  · have := epochDays_lt hb ha hBack
    omega
  · obtain ⟨hy, hm, hd⟩ := eq_of_not_before hNot hBack
    rw [epochDays_eq, epochDays_eq, marchYear, marchYear, marchMonth, marchMonth, hy, hm, hd] at h
    omega

/-- The day that a move by days leads to is that many days away. -/
theorem addDays_sub (date : Date) (k : Int) : (date.addDays k).sub date = k := by
  rw [sub, addDays, epochDays_fromEpochDays]
  omega

theorem addDays_addDays (date : Date) (j k : Int) :
    (date.addDays j).addDays k = date.addDays (j + k) := by
  rw [addDays, addDays, addDays, epochDays_fromEpochDays, Int.add_assoc]

/-- The day arithmetic is that of the calendar. -/
theorem dayArithmetic :
    (∀ n : Int, (fromEpochDays n).epochDays = n) ∧
    (∀ date : Date, date.Valid →
      fromEpochDays date.epochDays = ofParts date.year date.month date.day) ∧
    (∀ n : Int, (fromEpochDays n).Valid ∧ fromEpochDays (n + 1) = (fromEpochDays n).next) ∧
    (∀ a b : Date, a.Valid → b.Valid → (a.lt b = true ↔ a.Before b)) ∧
    (∀ (date : Date) (k : Int), (date.addDays k).sub date = k) ∧
    ∀ (date : Date) (j k : Int), (date.addDays j).addDays k = date.addDays (j + k) :=
  ⟨epochDays_fromEpochDays, fun _ => fromEpochDays_epochDays,
    fun n => ⟨valid_fromEpochDays n, fromEpochDays_succ n⟩, fun _ _ => lt_iff_before,
    addDays_sub, addDays_addDays⟩

/-- 29 February of the year 0, and the day after it. -/
theorem dayArithmetic_leap :
    fromEpochDays (ofParts 0 2 29).epochDays = ofParts 0 2 29 ∧
      (ofParts 0 2 29).lt (ofParts 0 3 1) = true := by
  have hLeap : (ofParts 0 2 29).Valid := ⟨by decide, by decide, by decide, 29, rfl, by decide⟩
  have hMarch : (ofParts 0 3 1).Valid := ⟨by decide, by decide, by decide, 31, rfl, by decide⟩
  refine ⟨dayArithmetic.2.1 _ hLeap, (dayArithmetic.2.2.2.1 _ _ hLeap hMarch).mpr ?_⟩
  exact .inr ⟨rfl, .inl (by decide)⟩

end Date

end ProtoST.Kernel
