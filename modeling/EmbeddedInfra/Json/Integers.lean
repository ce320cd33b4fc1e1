import EmbeddedInfra.Json.Tokens

/-! Integers of a text: what is stored of them, and what they are converted to. -/

namespace Json

open JsonTokenizer List

/-- The types that an integer is converted to. -/
inductive IntegerType where
  | int32
  | uint32
  | int64
  | uint64

namespace IntegerType

def least : IntegerType → Int
  | int32 => -2 ^ 31
  | int64 => -2 ^ 63
  | _ => 0

def greatest : IntegerType → Int
  | int32 => 2 ^ 31 - 1
  | uint32 => 2 ^ 32 - 1
  | int64 => 2 ^ 63 - 1
  | uint64 => 2 ^ 64 - 1

def inRange (type : IntegerType) (value : Int) : Bool :=
  decide (type.least ≤ value) && decide (value ≤ type.greatest)

end IntegerType

variable (type : IntegerType) (negative : Bool)

/-- The converted value, unless the error flag is set. -/
def convertValueTo (value : BitVec 64) (negative : Bool) : Option Int :=
  if negative = true then
    if value ≠ 0 ∧ value.toNat ≤ 2 ^ 63 then
      let signedValue := (value - 1).toInt * -1 - 1
      if signedValue < 0 ∧ type.inRange signedValue = true then some signedValue else none
    else none
  else if type.inRange value.toNat = true then some value.toNat else none

/-- The conversion of the value that a key has. -/
def getIntegerAs : JsonValue → Option Int
  | .int32 value => convertValueTo type (BitVec.ofNat 64 value.toInt.natAbs) (value.slt 0)
  | .biggerInt value negative => convertValueTo type value negative
  | _ => none

def integerText (digits : Text) : Text :=
  (if negative = true then [minus] else []) ++ digits

def integerValue (digits : Text) : Int :=
  if negative = true then -magnitude digits else magnitude digits

/-- The digits are accumulated, and the integer comes out of every conversion or is refused. -/
def ReadExactly (digits rest : Text) : Prop :=
  ∀ index, ∃ value after,
    token ⟨index, integerText negative digits ++ rest⟩ = (.biggerInt value negative, after) ∧
    after.rest = rest ∧ value.toNat = magnitude digits ∧
    ∀ objectString, ∃ read,
      convertValue objectString after (.biggerInt value negative) = (some read, after) ∧
      ∀ type : IntegerType, getIntegerAs type read =
        if type.inRange (integerValue negative digits) = true then
          some (integerValue negative digits)
        else none

theorem convertValueTo_eq (value : BitVec 64) (negative : Bool)
    (proper : negative = true → value ≠ 0) :
    convertValueTo type value negative =
      let whole : Int := if negative = true then -value.toNat else value.toNat
      if type.inRange whole = true then some whole else none := by
  cases negative with
  | false => rfl
  | true =>
    have positive : 0 < value.toNat :=
      Nat.pos_of_ne_zero fun zero => proper rfl (BitVec.eq_of_toNat_eq zero)
    rw [convertValueTo, if_pos rfl]
    simp only [if_true]
    by_cases small : value.toNat ≤ 2 ^ 63
    · have before : (value - 1).toInt * -1 - 1 = -value.toNat := by
        have := value.isLt
        rw [BitVec.toInt_eq_toNat_of_lt]
        all_goals simp only [BitVec.toNat_sub, BitVec.reduceToNat]; omega
      rw [if_pos ⟨proper rfl, small⟩, before]
      simp only [show -(value.toNat : Int) < 0 by omega, true_and]
    · rw [if_neg fun fits => small fits.2, if_neg]
      have low : -2 ^ 63 ≤ type.least := by cases type <;> decide
      rw [IntegerType.inRange, Bool.and_eq_true_iff, decide_eq_true_eq]
      omega

theorem getIntegerAs_int32 (value : BitVec 32) :
    getIntegerAs type (.int32 value) =
      if type.inRange value.toInt = true then some value.toInt else none := by
  have low := value.le_toInt
  have high := value.toInt_lt
  have size : (BitVec.ofNat 64 value.toInt.natAbs).toNat = value.toInt.natAbs := by
    rw [BitVec.toNat_ofNat, Nat.mod_eq_of_lt]
    omega
  have sign : value.slt 0 = decide (value.toInt < 0) := rfl
  rw [getIntegerAs, convertValueTo_eq, size, sign]
  · have whole : (if decide (value.toInt < 0) = true then -(value.toInt.natAbs : Int)
        else value.toInt.natAbs) = value.toInt := by
      split
      next negative => exact Int.neg_eq_comm.mp (Int.ofNat_natAbs_of_nonpos (of_decide_eq_true negative).le).symm
      next positive => exact Int.natAbs_of_nonneg (not_lt.mp fun negative => positive (decide_eq_true negative))
    rw [whole]
  · intro negative zero
    rw [sign, decide_eq_true_eq] at negative
    rw [zero] at size
    exact Int.natAbs_ne_zero.mpr negative.ne size.symm

theorem getIntegerAs_readInteger (value : BitVec 64) (negative : Bool) :
    getIntegerAs type (readInteger value negative) =
      let whole : Int := if negative = true then -value.toNat else value.toNat
      if type.inRange whole = true then some whole else none := by
  rw [readInteger]
  split
  next small =>
    have same : ((value * if negative = true then -1 else 1).setWidth 32).toInt =
        if negative = true then -(value.toNat : Int) else value.toNat := by
      rw [BitVec.toInt_eq_toNat_bmod, BitVec.toNat_setWidth, BitVec.toNat_mul]
      cases negative with
      | false =>
        have low := (small.resolve_right (fun wrong => Bool.false_ne_true wrong.1)).2
        simp only [Bool.false_eq_true, if_false, BitVec.reduceToNat, Int.bmod_def]
        omega
      | true =>
        have low := (small.resolve_left (fun wrong => Bool.false_ne_true wrong.1.symm)).2
        simp only [if_true, BitVec.reduceNeg, BitVec.reduceToNat, Int.bmod_def]
        omega
    rw [getIntegerAs_int32, same]
  next large =>
    apply convertValueTo_eq
    intro isNegative zero
    exact large (Or.inr ⟨isNegative, by rw [zero]; decide⟩)

/-- Integers are read exactly if their digits make a 64-bit number, and wrap otherwise. -/
theorem integers_exact_iff (digits rest : Text) (nonempty : digits ≠ [])
    (all : ∀ c ∈ digits, isDigit c = true)
    (ends : ∀ c, rest.head? = some c → isDigit c = false ∧ c ≠ dot) :
    ReadExactly negative digits rest ↔ magnitude digits < 2 ^ 64 := by
  have whole : (digits ++ rest).takeWhile isDigit = digits := by
    rw [takeWhile_append_of_pos all]
    cases rest with
    | nil => exact append_nil digits
    | cons c rest =>
      rw [takeWhile_cons_of_neg (Bool.eq_false_iff.mp (ends c rfl).1), append_nil]
  have read := fun index => token_digits index rest negative all nonempty whole
    fun starts => (ends dot starts).2 rfl
  constructor
  · intro exactly
    obtain ⟨value, _, _, _, same, _⟩ := exactly 0
    exact same ▸ value.isLt
  · intro small index
    have value := (congrArg BitVec.toNat (toInt_eq_magnitude all)).trans
      ((BitVec.toNat_ofNat _ _).trans (Nat.mod_eq_of_lt small))
    refine ⟨_, _, read index, rfl, value, fun objectString => ⟨_, rfl, fun type => ?_⟩⟩
    rw [getIntegerAs_readInteger, value]
    rfl

theorem integers_exact_iff_limits :
    ReadExactly true [57, 50, 50, 51, 51, 55, 50, 48, 51, 54, 56, 53, 52, 55, 55, 53, 56, 48, 56] [comma] :=
  (integers_exact_iff true _ [comma] (by decide) (by decide +kernel)
    fun c same => by cases same; decide).mpr (by decide)

/-- The digits of 2⁶⁴. -/
def twoTo64 : Text := [49, 56, 52, 52, 54, 55, 52, 52, 48, 55, 51, 55, 48, 57, 53, 53, 49, 54, 49, 54]

/-- 2⁶⁴ is read as zero. -/
theorem integers_not_exact : integerValue false twoTo64 = 2 ^ 64 ∧
    (token ⟨0, twoTo64⟩).1 = .biggerInt 0 false ∧
    (∀ type, getIntegerAs type (readInteger 0 false) = some 0) ∧
    ¬ ReadExactly false twoTo64 [] := by
  have zero : toInt 64 twoTo64 = 0 := by decide +kernel
  have read := token_digits 0 [] false (show ∀ c ∈ twoTo64, isDigit c = true by decide +kernel)
    (cons_ne_nil _ _) (by decide) nofun
  rw [if_neg Bool.false_ne_true, nil_append, append_nil, zero] at read
  refine ⟨by decide, congrArg Prod.fst read, fun type => by cases type <;> decide, ?_⟩
  intro exactly
  obtain ⟨value, after, found, -, same, -⟩ := exactly 0
  obtain ⟨value', -⟩ := Prod.mk.inj (read.symm.trans found)
  cases value'
  cases same

end Json
