import EmbeddedInfra.Timer.PartitionedTime
import Mathlib.Tactic.IntervalCases

/-! The calendar fields of a point in time are those of the proleptic Gregorian calendar. -/

namespace Timer

namespace PartitionedTime

/-- Days since Sunday. -/
def weekDay (time : PartitionedTime) : Int :=
  let unixTime := time.toTimeT
  let day := (if 0 ≤ unixTime then unixTime else unixTime - (24 * 60 * 60 - 1)).tdiv (24 * 60 * 60)
  if -4 ≤ day then (day + 4).tmod 7 else (day + 5).tmod 7 + 6

end PartitionedTime

def isLeapYear (year : Int) : Bool := year % 4 = 0 ∧ (year % 100 ≠ 0 ∨ year % 400 = 0)

def monthLength (year month : Int) : Int :=
  if month = 2 then if isLeapYear year = true then 29 else 28
  else if month = 4 ∨ month = 6 ∨ month = 9 ∨ month = 11 then 30 else 31

namespace PartitionedTime

/-- A date and time of the calendar: all its fields but the year fit their types. -/
structure Valid (time : PartitionedTime) : Prop where
  months : 1 ≤ time.months ∧ time.months ≤ 12
  days : 1 ≤ time.days ∧ time.days ≤ monthLength time.years time.months
  hours : 0 ≤ time.hours ∧ time.hours ≤ 23
  minutes : 0 ≤ time.minutes ∧ time.minutes ≤ 59
  seconds : 0 ≤ time.seconds ∧ time.seconds ≤ 59

/-- The years since 1970 that `int16_t` has. -/
def InYears (time : PartitionedTime) : Prop := 1970 ≤ time.years ∧ time.years ≤ 32767

/-- The fields from years to seconds, in lexicographic order. -/
def Before (s t : PartitionedTime) : Prop :=
  s.years < t.years ∨ s.years = t.years ∧ (s.months < t.months ∨ s.months = t.months ∧
    (s.days < t.days ∨ s.days = t.days ∧ (s.hours < t.hours ∨ s.hours = t.hours ∧
      (s.minutes < t.minutes ∨ s.minutes = t.minutes ∧ s.seconds < t.seconds))))

theorem before_or_eq (s t : PartitionedTime) : s.Before t ∨ s = t ∨ t.Before s := by
  cases s
  cases t
  simp only [Before, mk.injEq]
  omega

end PartitionedTime

open PartitionedTime

/-- The day that a month starts with, counted in days and in months from March of the year 0. -/
def monthStart (month : Int) : Int :=
  365 * (month / 12) + month / 12 / 4 - month / 12 / 100 + month / 12 / 400 +
    (153 * (month % 12) + 2) / 5

theorem monthStart_next (month : Int) :
    monthStart (month + 1) =
      monthStart month + monthLength ((month + 2) / 12) ((month + 2) % 12 + 1) := by
  obtain ⟨year, place, rfl, low, high⟩ :
      ∃ year place, month = 12 * year + place ∧ 0 ≤ place ∧ place ≤ 11 :=
    ⟨month / 12, month % 12, by omega⟩
  simp only [monthStart, monthLength, isLeapYear, decide_eq_true_eq]
  have same : (12 * year + place) / 12 = year := by omega
  by_cases february : place = 11
  · subst february
    have next : (12 * year + 11 + 1) / 12 = year + 1 := by omega
    have inYear : (12 * year + 11 + 2) / 12 = year + 1 := by omega
    rw [next, same, inYear, if_pos (by omega)]
    split <;> omega
  · have next : (12 * year + place + 1) / 12 = year := by omega
    rw [next, same, if_neg (by omega)]
    interval_cases place <;> split <;> omega

theorem monthLength_pos (year month : Int) : 0 < monthLength year month := by
  rw [monthLength]
  split <;> split <;> omega

theorem monthStart_later {month later : Int} (before : month < later) :
    monthStart month + monthLength ((month + 2) / 12) ((month + 2) % 12 + 1) ≤ monthStart later := by
  obtain ⟨count, rfl⟩ := Int.le.dest (Int.add_one_le_of_lt before)
  induction count with
  | zero => rw [Nat.cast_zero, Int.add_zero, monthStart_next]
  | succ count ih =>
    have longer := monthLength_pos ((month + 1 + count + 2) / 12) ((month + 1 + count + 2) % 12 + 1)
    have next := monthStart_next (month + 1 + count)
    have := ih (by omega)
    rw [Int.natCast_add, Int.natCast_one, ← Int.add_assoc]
    omega

/-- Months are counted from March of the year 0. -/
def PartitionedTime.month (time : PartitionedTime) : Int := 12 * time.years + time.months - 3

theorem monthLength_month {time : PartitionedTime} (valid : time.Valid) :
    monthLength ((time.month + 2) / 12) ((time.month + 2) % 12 + 1) =
      monthLength time.years time.months := by
  obtain ⟨low, high⟩ := valid.months
  congr 1 <;> rw [month] <;> omega

theorem toTimeT_eq {time : PartitionedTime} (valid : time.Valid) :
    time.toTimeT = (monthStart time.month + time.days - 719469) * (24 * 60 * 60) + time.seconds +
      (time.minutes + time.hours * 60) * 60 := by
  obtain ⟨low, high⟩ := valid.months
  have era := tdiv_floor (by decide : (0 : Int) < 400)
    (time.years - if time.months ≤ 2 then 1 else 0)
  rw [show (400 : Int) - 1 = 399 from rfl] at era
  simp only [toTimeT, era, monthStart, month]
  have year : (12 * time.years + time.months - 3) / 12 =
      time.years - if time.months ≤ 2 then 1 else 0 := by
    split <;> omega
  have place : (12 * time.years + time.months - 3) % 12 =
      time.months + if time.months > 2 then -3 else 9 := by
    split <;> omega
  rw [year, place]
  omega

theorem toTimeT_before {s t : PartitionedTime} (valid : s.Valid) (valid' : t.Valid)
    (before : s.Before t) : s.toTimeT < t.toTimeT := by
  have order : s.month < t.month ∨ s.month = t.month ∧ (s.days < t.days ∨ s.days = t.days ∧
      (s.hours < t.hours ∨ s.hours = t.hours ∧
        (s.minutes < t.minutes ∨ s.minutes = t.minutes ∧ s.seconds < t.seconds))) := by
    have months := valid.months
    have months' := valid'.months
    rw [Before] at before
    rw [month, month]
    omega
  have hours := valid.hours
  have minutes := valid.minutes
  have seconds := valid.seconds
  have hours' := valid'.hours
  have minutes' := valid'.minutes
  have seconds' := valid'.seconds
  rw [toTimeT_eq valid, toTimeT_eq valid']
  rcases order with earlier | ⟨same, order⟩
  · have later := monthStart_later earlier
    rw [monthLength_month valid] at later
    have days := valid.days
    have days' := valid'.days
    omega
  · rw [same]
    omega

theorem length_year (doe : Int) (low : 0 ≤ doe) (high : doe ≤ 146096) :
    let yoe := (doe - doe / 1460 + doe / 36524 - doe / 146096) / 365
    doe < 365 * (yoe + 1) + (yoe + 1) / 4 - (yoe + 1) / 100 + (yoe + 1) / 400 := by
  intro yoe
  have leapYears : doe / 1460 ≤ (yoe + 1) / 4 := by omega
  have era : doe / 146096 ≤ (yoe + 1) / 400 := by omega
  have century : doe / 36524 = 0 ∨ doe / 36524 = 1 ∨ doe / 36524 = 2 ∨ doe / 36524 = 3 ∨
      doe / 36524 = 4 := by omega
  have centuries : (yoe + 1) / 100 ≤ doe / 36524 ∨
      doe < 365 * (yoe + 1) + (yoe + 1) / 4 - (yoe + 1) / 100 + (yoe + 1) / 400 := by
    rcases century with same | same | same | same | same <;> omega
  omega

theorem valid_ofTimeT (unixTime : Int) : (ofTimeT unixTime).Valid := by
  have whole := tdiv_floor (by decide : (0 : Int) < 24 * 60 * 60) unixTime
  have eras := tdiv_floor (by decide : (0 : Int) < 146097) (unixTime / (24 * 60 * 60) + 719468)
  rw [show (146097 : Int) - 1 = 146096 from rfl] at eras
  simp only [ofTimeT, whole, dayOfEra, eras]
  have time : 0 ≤ unixTime - unixTime / (24 * 60 * 60) * (24 * 60 * 60) := by omega
  generalize unixTime - unixTime / (24 * 60 * 60) * (24 * 60 * 60) = inDay at time
  generalize unixTime / (24 * 60 * 60) + 719468 = z
  have low : 0 ≤ z - z / 146097 * 146097 := by omega
  have high : z - z / 146097 * 146097 ≤ 146096 := by omega
  generalize z / 146097 = era at low high
  generalize z - era * 146097 = doe at low high
  obtain ⟨early, late, positive, atMost⟩ := year_of_era doe low high
  have next := length_year doe low high
  dsimp only at early late positive atMost next
  generalize (doe - doe / 1460 + doe / 36524 - doe / 146096) / 365 = yoe at *
  have short : doe - (365 * yoe + yoe / 4 - yoe / 100) ≤
      364 + ((yoe + 1) / 4 - yoe / 4) - ((yoe + 1) / 100 - yoe / 100) + (yoe + 1) / 400 := by omega
  generalize doe - (365 * yoe + yoe / 4 - yoe / 100) = doy at *
  obtain ⟨mp, place⟩ : ∃ mp, mp = (5 * doy + 2) / 153 := ⟨_, rfl⟩
  rw [← place]
  have first : 0 ≤ mp := by omega
  have last : mp ≤ 11 := by omega
  have from_ : 153 * mp ≤ 5 * doy + 2 := by omega
  have until_ : 5 * doy + 2 < 153 * (mp + 1) := by omega
  have days : 1 ≤ doy - (153 * mp + 2) / 5 + 1 ∧ doy - (153 * mp + 2) / 5 + 1 ≤
      monthLength (yoe + era * 400 + if mp + (if mp < 10 then 3 else -9) ≤ 2 then 1 else 0)
        (mp + if mp < 10 then 3 else -9) := by
    simp only [monthLength, isLeapYear, decide_eq_true_eq]
    clear place
    interval_cases mp
    all_goals refine ⟨by omega, ?_⟩
    all_goals split <;> omega
  refine ⟨?_, days, ?_, ?_, ?_⟩ <;> dsimp only <;> omega

theorem toTimeT_ofTimeT (unixTime : Int) : (ofTimeT unixTime).toTimeT = unixTime := by
  have midnight := toTimeT_midnight unixTime
  have whole := tdiv_floor (by decide : (0 : Int) < 24 * 60 * 60) unixTime
  rw [toTimeT] at midnight ⊢
  simp only [ofTimeT, whole] at midnight ⊢
  omega

theorem ofTimeT_before {s t : Int} (before : s < t) : (ofTimeT s).Before (ofTimeT t) := by
  rcases before_or_eq (ofTimeT s) (ofTimeT t) with done | same | after
  · exact done
  · have := congrArg toTimeT same
    rw [toTimeT_ofTimeT, toTimeT_ofTimeT] at this
    omega
  · have := toTimeT_before (valid_ofTimeT t) (valid_ofTimeT s) after
    rw [toTimeT_ofTimeT, toTimeT_ofTimeT] at this
    omega

theorem ofTimeT_toTimeT {time : PartitionedTime} (valid : time.Valid) :
    ofTimeT time.toTimeT = time := by
  have back := toTimeT_ofTimeT time.toTimeT
  rcases before_or_eq (ofTimeT time.toTimeT) time with before | same | after
  · exact absurd (toTimeT_before (valid_ofTimeT _) valid before) back.symm.not_gt
  · exact same
  · exact absurd (toTimeT_before valid (valid_ofTimeT _) after) back.not_gt

theorem weekDay_eq (time : PartitionedTime) :
    time.weekDay = (time.toTimeT / (24 * 60 * 60) + 4) % 7 := by
  have whole := tdiv_floor (by decide : (0 : Int) < 24 * 60 * 60) time.toTimeT
  simp only [weekDay, whole]
  generalize time.toTimeT / (24 * 60 * 60) = day
  split
  next recent => exact Int.tmod_eq_emod_of_nonneg (by omega)
  next early =>
    have mirrored : (day + 5).tmod 7 = -(-(day + 5) % 7) := by
      rw [← Int.tmod_eq_emod_of_nonneg (by omega), Int.neg_tmod, neg_neg]
    rw [mirrored]
    omega

theorem fields_are_calendar :
    (∀ time : Int, (ofTimePoint time).InYears →
      (ofTimePoint time).toTimePoint = time.tdiv second * second ∧ (ofTimePoint time).Valid) ∧
    (∀ s t : Int, (ofTimePoint (s * second)).InYears → (ofTimePoint (t * second)).InYears → s < t →
      (ofTimePoint (s * second)).Before (ofTimePoint (t * second))) ∧
    ∀ time : PartitionedTime, time.Valid → time.InYears →
      ofTimeT time.toTimeT = time ∧
        ∀ next : PartitionedTime, next.Valid → next.InYears →
          next.toTimeT / (24 * 60 * 60) = time.toTimeT / (24 * 60 * 60) + 1 →
            next.weekDay = (time.weekDay + 1) % 7 := by
  have seconds : ∀ s : Int, (s * second).tdiv second = s := fun s =>
    Int.mul_tdiv_cancel s (by decide)
  refine ⟨fun time _ => ⟨?_, valid_ofTimeT _⟩, fun s t _ _ before => ?_,
    fun time valid _ => ⟨ofTimeT_toTimeT valid, fun next _ _ following => ?_⟩⟩
  · rw [toTimePoint, ofTimePoint, toTimeT_ofTimeT]
  · rw [ofTimePoint, ofTimePoint, seconds, seconds]
    exact ofTimeT_before before
  · rw [weekDay_eq, weekDay_eq, following]
    omega

end Timer
