import Mathlib.Tactic.Ring

/-! Points in time and durations are nanoseconds of the system clock. This is the division
into calendar fields by which an alarm finds the start of a day. -/

namespace Timer

def second : Int := 1000000000

/-- The 24 hours of `TimerAlarm`. -/
def day : Int := 24 * 60 * 60 * second

structure PartitionedTime where
  seconds : Int
  minutes : Int
  hours : Int
  days : Int
  months : Int
  years : Int
  deriving DecidableEq, Repr

/-- Days since 0000-03-01 by the era of 400 years, the year and the day in it. -/
def dayOfEra (z : Int) : Int × Int × Int :=
  let era := (if 0 ≤ z then z else z - 146096).tdiv 146097
  let doe := z - era * 146097
  let yoe := (doe - doe / 1460 + doe / 36524 - doe / 146096) / 365
  (era, yoe, doe - (365 * yoe + yoe / 4 - yoe / 100))

def PartitionedTime.ofTimeT (unixTime : Int) : PartitionedTime :=
  let z := (if 0 ≤ unixTime then unixTime else unixTime - (24 * 60 * 60 - 1)).tdiv (24 * 60 * 60)
  let inDay := unixTime - z * (24 * 60 * 60)
  let (era, yoe, doy) := dayOfEra (z + 719468)
  let mp := (5 * doy + 2) / 153
  let d := doy - (153 * mp + 2) / 5 + 1
  let m := mp + if mp < 10 then 3 else -9
  { seconds := inDay % 60
    minutes := inDay / 60 % 60
    hours := inDay / 60 / 60 % 24
    days := d
    months := m
    years := yoe + era * 400 + if m ≤ 2 then 1 else 0 }

def PartitionedTime.toTimeT (time : PartitionedTime) : Int :=
  let y := time.years - if time.months ≤ 2 then 1 else 0
  let era := (if 0 ≤ y then y else y - 399).tdiv 400
  let yoe := y - era * 400
  let doy := (153 * (time.months + if time.months > 2 then -3 else 9) + 2) / 5 + time.days - 1
  let doe := yoe * 365 + yoe / 4 - yoe / 100 + doy
  (era * 146097 + doe - 719468) * (24 * 60 * 60) + time.seconds +
    (time.minutes + time.hours * 60) * 60

def PartitionedTime.ofTimePoint (time : Int) : PartitionedTime := .ofTimeT (time.tdiv second)

def PartitionedTime.toTimePoint (time : PartitionedTime) : Int := time.toTimeT * second

def StartOfDay (time : Int) : Int :=
  { PartitionedTime.ofTimePoint time with hours := 0, minutes := 0, seconds := 0 }.toTimePoint

theorem tdiv_floor {divisor : Int} (positive : 0 < divisor) (value : Int) :
    (if 0 ≤ value then value else value - (divisor - 1)).tdiv divisor = value / divisor := by
  split
  next nonneg => exact Int.tdiv_eq_ediv_of_nonneg nonneg
  next negative =>
    have mirrored : (value - (divisor - 1)).tdiv divisor = -((-value + (divisor - 1)) / divisor) := by
      rw [← Int.tdiv_eq_ediv_of_nonneg (by omega), ← Int.neg_tdiv]
      congr 1
      ring
    have quotient := Int.mul_ediv_add_emod value divisor
    have low := Int.emod_nonneg value positive.ne'
    have high := Int.emod_lt_of_pos value positive
    have rounded : (-value + (divisor - 1)) / divisor = -(value / divisor) := by
      rw [Int.ediv_eq_iff_of_pos positive, neg_mul, mul_comm]
      constructor <;> omega
    rw [mirrored, rounded, neg_neg]

theorem year_of_era (doe : Int) (low : 0 ≤ doe) (high : doe ≤ 146096) :
    let yoe := (doe - doe / 1460 + doe / 36524 - doe / 146096) / 365
    0 ≤ yoe ∧ yoe ≤ 399 ∧ 0 ≤ doe - (365 * yoe + yoe / 4 - yoe / 100) ∧
      doe - (365 * yoe + yoe / 4 - yoe / 100) ≤ 366 := by
  intro yoe
  have leapYears : yoe / 4 ≤ doe / 1460 := by omega
  have centuries : doe / 36524 - doe / 146096 ≤ yoe / 100 := by
    have century : doe / 36524 = 0 ∨ doe / 36524 = 1 ∨ doe / 36524 = 2 ∨ doe / 36524 = 3 ∨
        doe / 36524 = 4 := by omega
    rcases century with same | same | same | same | same <;> omega
  refine ⟨?_, ?_, ?_, ?_⟩ <;> omega

private theorem month_back (mp : Int) (low : 0 ≤ mp) (high : mp ≤ 11) :
    (mp + if mp < 10 then 3 else -9) +
      (if (mp + if mp < 10 then 3 else -9) > 2 then -3 else 9) = mp := by
  split <;> split <;> omega

theorem toTimeT_midnight (unixTime : Int) :
    { PartitionedTime.ofTimeT unixTime with hours := 0, minutes := 0, seconds := 0 }.toTimeT =
      unixTime / (24 * 60 * 60) * (24 * 60 * 60) := by
  have whole : (if 0 ≤ unixTime then unixTime else unixTime - (24 * 60 * 60 - 1)).tdiv
      (24 * 60 * 60) = unixTime / (24 * 60 * 60) := tdiv_floor (by decide) unixTime
  simp only [PartitionedTime.ofTimeT, PartitionedTime.toTimeT, whole, dayOfEra]
  generalize unixTime / (24 * 60 * 60) = z
  have eras : (if 0 ≤ z + 719468 then z + 719468 else z + 719468 - 146096).tdiv 146097 =
      (z + 719468) / 146097 := tdiv_floor (by decide : (0 : Int) < 146097) (z + 719468)
  rw [eras]
  generalize eraEq : (z + 719468) / 146097 = era
  generalize doeEq : z + 719468 - era * 146097 = doe
  obtain ⟨yoeLow, yoeHigh, doyLow, doyHigh⟩ :=
    year_of_era doe (by omega) (by omega)
  generalize yoeEq : (doe - doe / 1460 + doe / 36524 - doe / 146096) / 365 = yoe at *
  generalize doyEq : doe - (365 * yoe + yoe / 4 - yoe / 100) = doy at *
  generalize mpEq : (5 * doy + 2) / 153 = mp
  have month := month_back mp (by omega) (by omega)
  generalize (mp + if mp < 10 then 3 else -9) = m at *
  have year : yoe + era * 400 + (if m ≤ 2 then 1 else 0) - (if m ≤ 2 then 1 else 0) =
      yoe + era * 400 := add_sub_cancel_right _ _
  rw [year, month]
  have years : (if 0 ≤ yoe + era * 400 then yoe + era * 400 else yoe + era * 400 - 399).tdiv 400 =
      (yoe + era * 400) / 400 := tdiv_floor (by decide : (0 : Int) < 400) (yoe + era * 400)
  have sameEra : (yoe + era * 400) / 400 = era := by omega
  rw [years, sameEra, add_sub_cancel_right]
  omega

theorem lt_startOfDay (time : Int) : time < StartOfDay time + day := by
  have midnight : StartOfDay time =
      time.tdiv 1000000000 / (24 * 60 * 60) * (24 * 60 * 60) * 1000000000 :=
    congrArg (· * second) (toTimeT_midnight (time.tdiv second))
  have hours : day = 24 * 60 * 60 * 1000000000 := rfl
  have truncated : time < (time.tdiv 1000000000 + 1) * 1000000000 := by
    have positive : (1000000000 : Int).sign = 1 := rfl
    rw [Int.tdiv_eq_ediv, positive]
    split <;> omega
  omega

end Timer
