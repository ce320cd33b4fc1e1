import Mathlib.Data.Rat.Floor

/-! `SntpClient`: the request, its answer, and the offset and the delay that follow. A microsecond
has `ticks` ticks of `infra::Duration`, which is the duration of the system clock. -/

namespace Sntp

/-- Seconds from 1900 to 1970. -/
def ntpEpochOffset : Int := (70 * 365 + 17) * 86400

/-- 2^32 / 10^6 -/
def ntpFractionFactor : Int := 4295

variable (ticks : Nat)

def second : Int := 1000000 * ticks

structure NtpTimestamp where
  seconds : Int
  fraction : Int
  deriving DecidableEq

def NtpTimestamp.convert (timestamp : NtpTimestamp) : Int :=
  timestamp.seconds * second ticks + timestamp.fraction / ntpFractionFactor * ticks -
    ntpEpochOffset * second ticks

/-- `SntpClient::Convert`; nothing where the product overflows. -/
def convert (time : Int) : Option NtpTimestamp :=
  let seconds := (time + ntpEpochOffset * second ticks).tdiv (second ticks)
  let fraction := time.tdiv ticks * ntpFractionFactor
  if -2 ^ 63 ≤ fraction ∧ fraction < 2 ^ 63 then some ⟨seconds % 2 ^ 32, fraction % 2 ^ 32⟩ else none

structure NtpMessage where
  header : Nat
  stratum : Nat
  referenceIdentifier : String
  originate : NtpTimestamp
  receive : NtpTimestamp
  transmit : NtpTimestamp

namespace NtpMessage

inductive LeapIndicator where
  | noWarning | lastMinuteHas61Seconds | lastMinuteHas59Seconds | alarmConditionClockNotSynchronized
  deriving DecidableEq

inductive Mode where
  | reserved | symmetricActive | symmetricPassive | client | server | broadcast | other
  deriving DecidableEq

variable (message : NtpMessage)

def leapIndicator : LeapIndicator :=
  match message.header / 64 % 4 with
  | 0 => .noWarning
  | 1 => .lastMinuteHas61Seconds
  | 2 => .lastMinuteHas59Seconds
  | _ => .alarmConditionClockNotSynchronized

def version : Nat := message.header / 8 % 8

def mode : Mode :=
  match message.header % 8 with
  | 0 => .reserved
  | 1 => .symmetricActive
  | 2 => .symmetricPassive
  | 3 => .client
  | 4 => .server
  | 5 => .broadcast
  | _ => .other

def valid (ticks : Nat) (message : NtpMessage) (requestTime : Int) : Bool :=
  if message.leapIndicator = .alarmConditionClockNotSynchronized then false
  else if message.version ≠ 4 then false
  else if message.mode ≠ .server then false
  else if message.stratum > 15 then false
  else if message.transmit.seconds = 0 then false
  else if (message.originate.convert ticks).tdiv (second ticks) ≠ requestTime.tdiv (second ticks) then false
  else true

end NtpMessage

inductive KissCode where
  | deny | restrict | rateExceeded
  deriving DecidableEq

inductive Notification where
  | timeAvailable (roundTripDelay localClockOffset : Int)
  | timeUnavailable
  | kissOfDeath (reason : KissCode)
  deriving DecidableEq

def notifyKissOfDeath (message : NtpMessage) : Notification :=
  if message.referenceIdentifier = "DENY" then .kissOfDeath .deny
  else if message.referenceIdentifier = "RSTR" then .kissOfDeath .restrict
  else if message.referenceIdentifier = "RATE" then .kissOfDeath .rateExceeded
  else .timeUnavailable

def notifyOffsetAndDelay (message : NtpMessage) (now : Int) : Notification :=
  let t1 := message.originate.convert ticks
  let t2 := message.receive.convert ticks
  let t3 := message.transmit.convert ticks
  let t4 := now
  .timeAvailable ((t4 - t1) - (t3 - t2)) (((t2 - t1) + (t3 - t4)).tdiv 2)

/-- The message is nothing where the datagram is too short for it. -/
def dataReceived (message : Option NtpMessage) (originRequestTime now : Int) : Notification :=
  match message with
  | none => .timeUnavailable
  | some message =>
    if message.valid ticks originRequestTime then
      if message.stratum = 0 then notifyKissOfDeath message
      else notifyOffsetAndDelay ticks message now
    else .timeUnavailable

def timestampOf (time : ℚ) : NtpTimestamp := ⟨⌊time⌋, ⌊(time - ⌊time⌋) * 2 ^ 32⌋⟩

def inTicks (time : ℚ) : ℚ := (time - ntpEpochOffset) * second ticks

/-- An answer of a synchronised server to the request: the times when it received the request and
sent the answer are its own, and the client has the answer at `now`. -/
structure Honest (ticks : Nat) (request : NtpTimestamp) (time : Int) (received sent : ℚ) (now : Int)
    (message : NtpMessage) : Prop where
  synchronised : message.leapIndicator ≠ .alarmConditionClockNotSynchronized
  version : message.version = 4
  mode : message.mode = .server
  stratum : 1 ≤ message.stratum ∧ message.stratum ≤ 15
  originate : message.originate = request
  receive : message.receive = timestampOf received
  transmit : message.transmit = timestampOf sent
  ordered : 0 ≤ received ∧ received ≤ sent
  inEra : 1 ≤ sent ∧ sent < 2 ^ 32
  travelled : (sent - received) * second ticks ≤ now - time

/-- Within 10 microseconds. -/
def Near (first second : ℚ) : Prop := |first - second| ≤ 10 * ticks

/-- What is expected of a request at this time. -/
def Accurate (time : Int) : Prop :=
  ∃ request, convert ticks time = some request ∧ Near ticks (request.convert ticks) time ∧
    ∀ received sent now message, Honest ticks request time received sent now message →
      ∃ delay offset, dataReceived ticks (some message) time now = .timeAvailable delay offset ∧
        Near ticks delay ((now - time) - (inTicks ticks sent - inTicks ticks received)) ∧
        Near ticks offset (((inTicks ticks received - time) + (inTicks ticks sent - now)) / 2)

/-- The multiplication of the whole seconds since 1970 by 4295 · 10^6 leaves a drift in the
fraction, which is at most 1.38 microseconds (with what a second has been cut by), and the
request still seems to be of the same second. -/
def NoDrift (time : Int) : Prop :=
  let seconds := time / second ticks
  let subSecond := time % second ticks
  let microseconds := time.tdiv ticks - 1000000 * seconds
  (-2 ^ 63 ≤ time.tdiv ticks * ntpFractionFactor) ∧
    ∃ drift : Int, 2 ^ 32 ∣ 32704 * seconds - drift ∧
      0 ≤ drift + 4295 * microseconds ∧ drift + 4295 * microseconds < 2 ^ 32 ∧
      2 ^ 32 * abs ((microseconds + drift / 4295) * ticks - subSecond) ≤ 5950967296 * ticks ∧
      (time < 0 → (subSecond = 0 ↔ microseconds + drift / 4295 = 0))

section

variable {ticks : Nat} {time : Int}

def requested (ticks : Nat) (time : Int) : Int :=
  time.tdiv ticks * ntpFractionFactor % 2 ^ 32 / ntpFractionFactor

theorem second_pos (positive : 0 < ticks) : 0 < second ticks := by
  rw [second]
  omega

theorem convert_iff (positive : 0 < ticks) (after : -ntpEpochOffset * second ticks ≤ time)
    (before : time < (2 ^ 32 - ntpEpochOffset) * second ticks) (request : NtpTimestamp) :
    convert ticks time = some request ↔
      -2 ^ 63 ≤ time.tdiv ticks * ntpFractionFactor ∧
        request = ⟨time / second ticks + ntpEpochOffset,
          time.tdiv ticks * ntpFractionFactor % 2 ^ 32⟩ := by
  have second_pos := second_pos positive
  have seconds : (time + ntpEpochOffset * second ticks).tdiv (second ticks) % 2 ^ 32 =
      time / second ticks + ntpEpochOffset := by
    have first : -ntpEpochOffset ≤ time / second ticks := Int.le_ediv_of_mul_le second_pos after
    have last : time / second ticks < 2 ^ 32 - ntpEpochOffset :=
      Int.ediv_lt_of_lt_mul second_pos before
    rw [Int.tdiv_eq_ediv_of_nonneg (by linarith), Int.add_mul_ediv_right _ _ (ne_of_gt second_pos),
      Int.emod_eq_of_lt (by linarith) (by linarith)]
  have small : time.tdiv ticks * ntpFractionFactor < 2 ^ 63 := by
    have micro : time.tdiv ticks < 2085978496 * 1000000 := by
      cases lt_or_ge time 0 with
      | inl negative =>
        have nonneg := Int.tdiv_nonneg (show 0 ≤ -time by omega) (Int.natCast_nonneg ticks)
        rw [Int.neg_tdiv] at nonneg
        omega
      | inr nonneg =>
        rw [Int.tdiv_eq_ediv_of_nonneg nonneg]
        refine Int.ediv_lt_of_lt_mul (by omega) ?_
        rw [second, ntpEpochOffset] at before
        linarith
    rw [ntpFractionFactor]
    omega
  rw [convert, seconds]
  constructor
  · intro converted
    split at converted
    · next fits => exact ⟨fits.1, (Option.some.inj converted).symm⟩
    · exact Bool.noConfusion (congrArg Option.isSome converted)
  · intro ⟨fits, same⟩
    rw [if_pos ⟨fits, small⟩, same]

theorem noDrift_iff :
    NoDrift ticks time ↔ -2 ^ 63 ≤ time.tdiv ticks * ntpFractionFactor ∧
      2 ^ 32 * abs (requested ticks time * ticks - time % second ticks) ≤ 5950967296 * ticks ∧
      (time < 0 → (time % second ticks = 0 ↔ requested ticks time = 0)) := by
  rw [NoDrift, requested]
  generalize time.tdiv ticks = micro
  generalize time / second ticks = seconds
  simp only [ntpFractionFactor]
  have quotient (drift : Int) : micro - 1000000 * seconds + drift / 4295 =
      (drift + 4295 * (micro - 1000000 * seconds)) / 4295 := by omega
  constructor
  · intro ⟨fits, drift, divides, nonneg, less, near, same⟩
    have fraction : drift + 4295 * (micro - 1000000 * seconds) = micro * 4295 % 2 ^ 32 := by omega
    rw [quotient, fraction] at near same
    exact ⟨fits, near, same⟩
  · intro ⟨fits, near, same⟩
    have fraction : micro * 4295 % 2 ^ 32 - 4295 * (micro - 1000000 * seconds) +
        4295 * (micro - 1000000 * seconds) = micro * 4295 % 2 ^ 32 := by omega
    refine ⟨fits, micro * 4295 % 2 ^ 32 - 4295 * (micro - 1000000 * seconds), by omega, by omega,
      by omega, ?_⟩
    rw [quotient, fraction]
    exact ⟨near, same⟩

theorem requested_nonneg : 0 ≤ requested ticks time := by
  rw [requested, ntpFractionFactor]
  omega

theorem requested_le : requested ticks time ≤ 999992 := by
  rw [requested, ntpFractionFactor]
  omega

def echoed (ticks : Nat) (time : Int) : Int :=
  time / second ticks * second ticks + requested ticks time * ticks

theorem convert_request :
    NtpTimestamp.convert ticks ⟨time / second ticks + ntpEpochOffset,
      time.tdiv ticks * ntpFractionFactor % 2 ^ 32⟩ = echoed ticks time := by
  simp only [NtpTimestamp.convert, echoed, requested]
  ring

theorem echoed_sub : echoed ticks time - time = requested ticks time * ticks - time % second ticks := by
  have parts := Int.mul_ediv_add_emod time (second ticks)
  rw [echoed]
  linarith

theorem tdiv_add_iff (seconds : Int) {first last size : Int} (firstNonneg : 0 ≤ first)
    (firstLess : first < size) (lastNonneg : 0 ≤ last) (lastLess : last < size) :
    (seconds * size + first).tdiv size = (seconds * size + last).tdiv size ↔
      (seconds < 0 → (last = 0 ↔ first = 0)) := by
  have quotient {rest : Int} (nonneg : 0 ≤ rest) (less : rest < size) :
      (seconds * size + rest).tdiv size = seconds + if 0 ≤ seconds ∨ rest = 0 then 0 else 1 := by
    have whole : (seconds * size + rest) / size = seconds := by
      rw [Int.add_comm, Int.add_mul_ediv_right _ _ (by omega), Int.ediv_eq_zero_of_lt nonneg less,
        Int.zero_add]
    have sign : 0 ≤ seconds * size + rest ↔ 0 ≤ seconds := by
      rw [← Int.ediv_nonneg_iff_of_pos (show 0 < size by omega), whole]
    have divides : size ∣ seconds * size + rest ↔ rest = 0 := by
      rw [Int.dvd_add_right (Int.dvd_mul_left _ _)]
      constructor
      · exact Int.eq_zero_of_dvd_of_nonneg_of_lt nonneg less
      · intro zero
        exact zero ▸ Int.dvd_zero size
    rw [Int.tdiv_eq_ediv, whole, Int.sign_eq_one_of_pos (by omega)]
    simp only [sign, divides]
  rw [quotient firstNonneg firstLess, quotient lastNonneg lastLess]
  by_cases nonneg : 0 ≤ seconds
  · simp [nonneg]
  · by_cases firstZero : first = 0 <;> by_cases lastZero : last = 0 <;>
      simp [nonneg, firstZero, lastZero]

theorem sameSecond_iff (positive : 0 < ticks) :
    (echoed ticks time).tdiv (second ticks) = time.tdiv (second ticks) ↔
      (time < 0 → (time % second ticks = 0 ↔ requested ticks time = 0)) := by
  have second_pos := second_pos positive
  have parts := Int.ediv_mul_add_emod time (second ticks)
  have less : requested ticks time * ticks < second ticks := by
    have most : requested ticks time ≤ 999992 := requested_le
    have bound := Int.mul_le_mul_of_nonneg_right most (Int.natCast_nonneg ticks)
    rw [second]
    omega
  have nonneg : 0 ≤ requested ticks time * ticks := Int.mul_nonneg requested_nonneg (by omega)
  have iff := tdiv_add_iff (time / second ticks) nonneg less
    (Int.emod_nonneg time (Int.ne_of_gt second_pos)) (Int.emod_lt_of_pos time second_pos)
  rw [parts] at iff
  rw [echoed, iff]
  have sign : time / second ticks < 0 ↔ time < 0 := by
    have nonneg := Int.ediv_nonneg_iff_of_pos (a := time) second_pos
    omega
  have zero : requested ticks time * ticks = 0 ↔ requested ticks time = 0 := by
    rw [Int.mul_eq_zero]
    omega
  rw [sign, zero]

def lag (time : ℚ) : ℚ :=
  1000000 * (time - ⌊time⌋) - (⌊(time - ⌊time⌋) * 2 ^ 32⌋ / 4295 : Int)

theorem convert_timestampOf (ticks : Nat) (time : ℚ) :
    ((timestampOf time).convert ticks : ℚ) = inTicks ticks time - lag time * ticks := by
  simp only [NtpTimestamp.convert, timestampOf, inTicks, lag, second, ntpFractionFactor]
  push_cast
  ring

theorem lag_nonneg (time : ℚ) : 0 ≤ lag time := by
  have fractional : 0 ≤ time - ⌊time⌋ := sub_nonneg.mpr (Int.floor_le time)
  have below := Int.floor_le ((time - ⌊time⌋) * 2 ^ 32)
  have quotient : 4295 * (⌊(time - ⌊time⌋) * 2 ^ 32⌋ / 4295) ≤ ⌊(time - ⌊time⌋) * 2 ^ 32⌋ := by omega
  have quotient' : (4295 : ℚ) * (⌊(time - ⌊time⌋) * 2 ^ 32⌋ / 4295 : Int) ≤
      ⌊(time - ⌊time⌋) * 2 ^ 32⌋ := by exact_mod_cast quotient
  rw [lag]
  generalize ⌊(time - ⌊time⌋) * 2 ^ 32⌋ / 4295 = microseconds at *
  linarith

theorem lag_lt (time : ℚ) : 2 ^ 32 * lag time < 36998705664 := by
  have fractional : time - ⌊time⌋ < 1 := by
    have above := Int.lt_floor_add_one time
    linarith
  have above := Int.lt_floor_add_one ((time - ⌊time⌋) * 2 ^ 32)
  have quotient : ⌊(time - ⌊time⌋) * 2 ^ 32⌋ + 1 ≤ 4295 * (⌊(time - ⌊time⌋) * 2 ^ 32⌋ / 4295 + 1) := by
    omega
  have quotient' : (⌊(time - ⌊time⌋) * 2 ^ 32⌋ : ℚ) + 1 ≤
      4295 * ((⌊(time - ⌊time⌋) * 2 ^ 32⌋ / 4295 : Int) + 1) := by exact_mod_cast quotient
  rw [lag]
  generalize ⌊(time - ⌊time⌋) * 2 ^ 32⌋ / 4295 = microseconds at *
  cases lt_or_ge microseconds 999992 with
  | inl less =>
    have bound : (microseconds : ℚ) ≤ 999991 := by exact_mod_cast (show microseconds ≤ 999991 by omega)
    linarith
  | inr more =>
    have bound : (999992 : ℚ) ≤ microseconds := by exact_mod_cast more
    linarith

variable {request : NtpTimestamp} {received sent : ℚ}

theorem answered_iff {now delay offset : Int} {message : NtpMessage}
    (honest : Honest ticks request time received sent now message) :
    dataReceived ticks (some message) time now = .timeAvailable delay offset ↔
      (request.convert ticks).tdiv (second ticks) = time.tdiv (second ticks) ∧
        delay = (now - request.convert ticks) -
          ((timestampOf sent).convert ticks - (timestampOf received).convert ticks) ∧
        offset = (((timestampOf received).convert ticks - request.convert ticks) +
          ((timestampOf sent).convert ticks - now)).tdiv 2 := by
  have sentSeconds : (timestampOf sent).seconds ≠ 0 := by
    have first : 1 ≤ ⌊sent⌋ := Int.le_floor.mpr (by exact_mod_cast honest.inEra.1)
    intro zero
    have floor : ⌊sent⌋ = 0 := zero
    omega
  have ⟨low, high⟩ := honest.stratum
  have valid : message.valid ticks time ↔
      (request.convert ticks).tdiv (second ticks) = time.tdiv (second ticks) := by
    rw [NtpMessage.valid, if_neg honest.synchronised, if_neg (by simp [honest.version]),
      if_neg (by simp [honest.mode]), if_neg (by omega), if_neg (by rwa [honest.transmit]),
      honest.originate]
    simp
  rw [dataReceived]
  by_cases same : (request.convert ticks).tdiv (second ticks) = time.tdiv (second ticks)
  · rw [if_pos (valid.mpr same), if_neg (by omega), notifyOffsetAndDelay, honest.originate,
      honest.receive, honest.transmit]
    simp only [Notification.timeAvailable.injEq, same, true_and]
    exact and_congr eq_comm eq_comm
  · rw [if_neg (fun isValid => same (valid.mp isValid))]
    simp [same]

theorem near_iff {first second : ℚ} :
    Near ticks first second ↔ -(10 * ticks) ≤ first - second ∧ first - second ≤ 10 * (ticks : ℚ) :=
  abs_le

theorem delay_error (ticks : Nat) (time : Int) (received sent : ℚ) (request now : Int) :
    (((now - request) - ((timestampOf sent).convert ticks -
        (timestampOf received).convert ticks) : Int) : ℚ) -
      ((now - time) - (inTicks ticks sent - inTicks ticks received)) =
        lag sent * ticks - lag received * ticks - (request - time : Int) := by
  push_cast
  rw [convert_timestampOf, convert_timestampOf]
  ring

theorem offset_error (ticks : Nat) (time : Int) (received sent : ℚ) (request now : Int) :
    ((((timestampOf received).convert ticks - request) +
        ((timestampOf sent).convert ticks - now) : Int) : ℚ) -
      ((inTicks ticks received - time) + (inTicks ticks sent - now)) =
        -(lag received * ticks) - lag sent * ticks - (request - time : Int) := by
  push_cast
  rw [convert_timestampOf, convert_timestampOf]
  ring

theorem lag_bounds (ticks : Nat) (positive : 0 < ticks) (time : ℚ) :
    0 ≤ lag time * ticks ∧ 2 ^ 32 * (lag time * ticks) < 36998705664 * ticks := by
  have some : (0 : ℚ) < ticks := by exact_mod_cast positive
  refine ⟨mul_nonneg (lag_nonneg time) some.le, ?_⟩
  rw [← mul_assoc]
  exact mul_lt_mul_of_pos_right (lag_lt time) some

theorem halved (sum : Int) : -1 ≤ 2 * sum.tdiv 2 - sum ∧ 2 * sum.tdiv 2 - sum ≤ 1 := by
  have sign : Int.sign 2 = 1 := rfl
  rw [Int.tdiv_eq_ediv, sign]
  split <;> omega

theorem accurate_of_small (positive : 0 < ticks) (converted : convert ticks time = some request)
    (small : 2 ^ 32 * abs (request.convert ticks - time) ≤ 5950967296 * ticks)
    (same : (request.convert ticks).tdiv (second ticks) = time.tdiv (second ticks)) :
    Accurate ticks time := by
  have whole : (1 : ℚ) ≤ ticks := by exact_mod_cast positive
  have small' : 2 ^ 32 * abs (request.convert ticks - time : ℚ) ≤ 5950967296 * ticks := by
    exact_mod_cast small
  have bounds : -(5950967296 * ticks) ≤ 2 ^ 32 * (request.convert ticks - time : ℚ) ∧
      2 ^ 32 * (request.convert ticks - time : ℚ) ≤ 5950967296 * ticks := by
    have low := neg_abs_le (request.convert ticks - time : ℚ)
    have high := le_abs_self (request.convert ticks - time : ℚ)
    constructor <;> linarith
  refine ⟨request, converted, near_iff.mpr ⟨by linarith, by linarith⟩, ?_⟩
  intro received sent now message honest
  refine ⟨_, _, (answered_iff honest).mpr ⟨same, rfl, rfl⟩, ?_, ?_⟩
  · have error := delay_error ticks time received sent (request.convert ticks) now
    have ⟨receivedLow, receivedHigh⟩ := lag_bounds ticks positive received
    have ⟨sentLow, sentHigh⟩ := lag_bounds ticks positive sent
    rw [near_iff, error]
    push_cast
    constructor <;> linarith
  · have error := offset_error ticks time received sent (request.convert ticks) now
    have ⟨receivedLow, receivedHigh⟩ := lag_bounds ticks positive received
    have ⟨sentLow, sentHigh⟩ := lag_bounds ticks positive sent
    have rounded := halved (((timestampOf received).convert ticks - request.convert ticks) +
      ((timestampOf sent).convert ticks - now))
    rw [near_iff]
    generalize ((timestampOf received).convert ticks - request.convert ticks) +
      ((timestampOf sent).convert ticks - now) = sum at *
    have low : (-1 : ℚ) ≤ 2 * (sum.tdiv 2 : Int) - sum := by exact_mod_cast rounded.1
    have high : (2 : ℚ) * (sum.tdiv 2 : Int) - sum ≤ 1 := by exact_mod_cast rounded.2
    push_cast at error
    constructor <;> linarith

/-- The part of a second whose timestamp has the greatest lag but for `1 / (2 · 10^6 · ticks)`
of a fraction. -/
def lateSecond (ticks : Nat) : ℚ := (4294965640 - 1 / (2000000 * ticks)) / 2 ^ 32

theorem lateSecond_bounds (positive : 0 < ticks) :
    4294965639 < lateSecond ticks * 2 ^ 32 ∧ lateSecond ticks * 2 ^ 32 < 4294965640 := by
  have whole : (1 : ℚ) ≤ ticks := by exact_mod_cast positive
  have some : (0 : ℚ) < 1 / (2000000 * ticks) := by positivity
  have less : (1 : ℚ) / (2000000 * ticks) < 1 := by
    rw [div_lt_one (by positivity)]
    linarith
  have unit : lateSecond ticks * 2 ^ 32 = 4294965640 - 1 / (2000000 * ticks) := by
    rw [lateSecond, div_mul_cancel₀ _ (by norm_num)]
  rw [unit]
  constructor <;> linarith

theorem floor_late (positive : 0 < ticks) (seconds : Int) : ⌊seconds + lateSecond ticks⌋ = seconds := by
  have ⟨low, high⟩ := lateSecond_bounds positive
  rw [Int.floor_intCast_add, Int.floor_eq_zero_iff.mpr ⟨by linarith, by linarith⟩, add_zero]

theorem lag_late (positive : 0 < ticks) (seconds : Int) :
    2 ^ 32 * (lag (seconds + lateSecond ticks) * ticks) = 36998705664 * ticks - 1 / 2 := by
  have ⟨low, high⟩ := lateSecond_bounds positive
  have some : (ticks : ℚ) ≠ 0 := by
    have whole : (1 : ℚ) ≤ ticks := by exact_mod_cast positive
    linarith
  have fraction : ⌊lateSecond ticks * 2 ^ 32⌋ = 4294965639 :=
    Int.floor_eq_iff.mpr ⟨by push_cast; linarith, by push_cast; linarith⟩
  have quotient : (4294965639 : Int) / 4295 = 999991 := by decide
  rw [lag, floor_late positive, add_sub_cancel_left, fraction, quotient, lateSecond]
  field_simp
  norm_num
  ring

theorem lag_whole (seconds : Int) : lag seconds = 0 := by simp [lag]

def answer (request : NtpTimestamp) (received sent : ℚ) : NtpMessage :=
  ⟨36, 1, "", request, timestampOf received, timestampOf sent⟩

theorem honest_answer (first : 0 ≤ received) (ordered : received ≤ sent) (later : 1 ≤ sent)
    (early : sent ≤ 3) :
    Honest ticks request time received sent (time + 3 * second ticks) (answer request received sent) where
  synchronised := by simp [NtpMessage.leapIndicator, answer]
  version := by simp [NtpMessage.version, answer]
  mode := by simp [NtpMessage.mode, answer]
  stratum := by simp [answer]
  originate := rfl
  receive := rfl
  transmit := rfl
  ordered := ⟨first, ordered⟩
  inEra := ⟨later, by linarith⟩
  travelled := by
    have nonneg : (0 : ℚ) ≤ second ticks := by exact_mod_cast Int.mul_nonneg (by decide) (by omega)
    have travel := mul_le_mul_of_nonneg_right (show sent - received ≤ 3 by linarith) nonneg
    push_cast at travel ⊢
    linarith

theorem small_of_accurate (positive : 0 < ticks) (accurate : Accurate ticks time) :
    ∃ request, convert ticks time = some request ∧
      2 ^ 32 * abs (request.convert ticks - time) ≤ 5950967296 * ticks ∧
      (request.convert ticks).tdiv (second ticks) = time.tdiv (second ticks) := by
  have ⟨request, converted, _, answered⟩ := accurate
  have ⟨lateLow, lateHigh⟩ := lateSecond_bounds positive
  have honest (received sent : ℚ) (first : 0 ≤ received) (ordered : received ≤ sent) (later : 1 ≤ sent)
      (early : sent ≤ 3) : (request.convert ticks).tdiv (second ticks) = time.tdiv (second ticks) ∧
        -(10 * ticks) ≤ lag sent * ticks - lag received * ticks - (request.convert ticks - time : Int) ∧
        lag sent * ticks - lag received * ticks - (request.convert ticks - time : Int) ≤
          10 * (ticks : ℚ) := by
    have honest : Honest ticks request time received sent (time + 3 * second ticks) _ :=
      honest_answer first ordered later early
    have ⟨delay, offset, done, near, _⟩ := answered _ _ _ _ honest
    have ⟨same, delayed, _⟩ := (answered_iff honest).mp done
    rw [near_iff, delayed, delay_error] at near
    exact ⟨same, near⟩
  -- the greatest lag is at the request's arrival, or at the answer
  have ⟨same, least, _⟩ := honest (((0 : Int) : ℚ) + lateSecond ticks) ((2 : Int) : ℚ)
    (by push_cast; linarith) (by push_cast; linarith) (by norm_num) (by norm_num)
  have ⟨_, _, most⟩ := honest ((1 : Int) : ℚ) (((1 : Int) : ℚ) + lateSecond ticks)
    (by norm_num) (by linarith) (by push_cast; linarith) (by push_cast; linarith)
  have arrival := lag_late positive 0
  have departure := lag_late positive 1
  rw [lag_whole] at least most
  have low : (2 ^ 32 * (request.convert ticks - time) : Int) < (5950967296 * ticks + 1 : ℚ) := by
    push_cast at *
    linarith
  have high : (-(5950967296 * ticks + 1) : ℚ) < (2 ^ 32 * (request.convert ticks - time) : Int) := by
    push_cast at *
    linarith
  refine ⟨request, converted, ?_, same⟩
  have low' : 2 ^ 32 * (request.convert ticks - time) < 5950967296 * (ticks : Int) + 1 := by
    exact_mod_cast low
  have high' : -(5950967296 * (ticks : Int) + 1) < 2 ^ 32 * (request.convert ticks - time) := by
    exact_mod_cast high
  cases abs_cases (request.convert ticks - time) with
  | inl nonneg | inr negative => omega

/-- The round trip of a request's time, and the offset and the delay from every honest answer to
it, are within 10 microseconds exactly if the fraction has no drift. -/
theorem accurate_iff (positive : 0 < ticks) (after : -ntpEpochOffset * second ticks ≤ time)
    (before : time < (2 ^ 32 - ntpEpochOffset) * second ticks) :
    Accurate ticks time ↔ NoDrift ticks time := by
  rw [noDrift_iff, ← sameSecond_iff positive, ← echoed_sub]
  constructor
  · intro accurate
    have ⟨request, converted, small, same⟩ := small_of_accurate positive accurate
    have ⟨fits, equal⟩ := (convert_iff positive after before request).mp converted
    rw [equal, convert_request] at small same
    exact ⟨fits, small, same⟩
  · intro ⟨fits, small, same⟩
    have converted := (convert_iff positive after before _).mpr ⟨fits, rfl⟩
    refine accurate_of_small positive converted ?_ ?_
    · rwa [convert_request]
    · rwa [convert_request]

/-- A time in the first second of 1970. -/
theorem accurate_iff_first : Accurate 1000 250000000 ↔ NoDrift 1000 250000000 :=
  accurate_iff (by decide) (by decide) (by decide)

end

/-- In September 2020, at a whole second: the fraction is not 0. -/
theorem not_accurate : ¬Accurate 1 1600000000000000 := by
  intro ⟨request, converted, near, _⟩
  have same : request = ⟨3808988800, 813432832⟩ := by
    have value : convert 1 1600000000000000 = some ⟨3808988800, 813432832⟩ := by decide
    rw [value] at converted
    exact (Option.some.inj converted).symm
  have back : NtpTimestamp.convert 1 ⟨3808988800, 813432832⟩ = 1600000000189390 := by decide
  rw [same, back, near_iff] at near
  norm_num at near

end Sntp
