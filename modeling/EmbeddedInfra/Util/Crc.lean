import EmbeddedInfra.BitPolynomials

/-! The three CRC implementations, with a table of 256 entries, of 16 entries and without one. -/

namespace Crcs

open Polynomial BitPolynomials
open BitVec (eq_of_getLsbD_eq getLsbD_of_ge getLsbD_setWidth getLsbD_shiftLeft xor_assoc xor_zero)

variable {w : Nat}

/-- The template arguments; `ReflectInput` and `ReflectOutput` are asserted to be the same. -/
structure Parameters (w : Nat) where
  polynomial : BitVec w
  initValue : BitVec w
  finalXor : BitVec w
  reflect : Bool

/-- The loop of `Reflect` and of `detail::ReversedBits`: a result and what is left of the value. -/
def reflectRound (state : BitVec w × BitVec w) : BitVec w × BitVec w :=
  ((state.1 <<< 1) ||| (state.2 &&& 1#w), state.2 >>> 1)

def reflectBits (value : BitVec w) : BitVec w := (reflectRound^[w] (0#w, value)).1

def topBit (w : Nat) : BitVec w := 1#w <<< (w - 1)

def roundUp (polynomial crc : BitVec w) : BitVec w :=
  if crc &&& topBit w ≠ 0#w then (crc <<< 1) ^^^ polynomial else crc <<< 1

def roundDown (reversedPolynomial crc : BitVec w) : BitVec w :=
  if crc &&& 1#w ≠ 0#w then (crc >>> 1) ^^^ reversedPolynomial else crc >>> 1

namespace Crc

variable (parameters : Parameters w)

def table (i : BitVec 8) : BitVec w :=
  let input := if parameters.reflect then reflectBits i else i
  let crcEntry := (roundUp parameters.polynomial)^[8] (input.setWidth w <<< (w - 8))
  if parameters.reflect then reflectBits crcEntry else crcEntry

def update (crc : BitVec w) (input : BitVec 8) : BitVec w :=
  if parameters.reflect then
    let crc := crc ^^^ input.setWidth w
    let pos := crc.setWidth 8
    let crc := if w = 8 then 0#w else crc >>> 8
    crc ^^^ table parameters pos
  else
    let crc := crc ^^^ input.setWidth w <<< (w - 8)
    let pos := (crc >>> (w - 8)).setWidth 8
    let crc := if w = 8 then 0#w else crc <<< 8
    crc ^^^ table parameters pos

end Crc

namespace CrcBitwise

def update (parameters : Parameters w) (crc : BitVec w) (input : BitVec 8) : BitVec w :=
  if parameters.reflect then
    (roundDown (reflectBits parameters.polynomial))^[8] (crc ^^^ input.setWidth w)
  else
    (roundUp parameters.polynomial)^[8] (crc ^^^ input.setWidth w <<< (w - 8))

end CrcBitwise

namespace CrcNibblewise

variable (parameters : Parameters w)

def table (nibble : BitVec 4) : BitVec w :=
  if parameters.reflect then
    (roundDown (reflectBits parameters.polynomial))^[4] (nibble.setWidth w)
  else
    (roundUp parameters.polynomial)^[4] (nibble.setWidth w <<< (w - 4))

def update (crc : BitVec w) (input : BitVec 8) : BitVec w :=
  if parameters.reflect then
    let crc := (crc >>> 4) ^^^ table parameters ((crc ^^^ input.setWidth w).setWidth 4)
    (crc >>> 4) ^^^ table parameters ((crc ^^^ (input >>> 4).setWidth w).setWidth 4)
  else
    let crc := (crc <<< 4) ^^^
      table parameters (((crc >>> (w - 4)) ^^^ (input >>> 4).setWidth w).setWidth 4)
    (crc <<< 4) ^^^ table parameters (((crc >>> (w - 4)) ^^^ input.setWidth w).setWidth 4)

end CrcNibblewise

/-- `Update` with a range, for any of the three. -/
def updateRange (update : BitVec w → BitVec 8 → BitVec w) (crc : BitVec w) (bytes : List (BitVec 8)) :
    BitVec w :=
  bytes.foldl update crc

def result (parameters : Parameters w) (crc : BitVec w) : BitVec w := crc ^^^ parameters.finalXor

def Crc.of (parameters : Parameters w) (bytes : List (BitVec 8)) : BitVec w :=
  result parameters (updateRange (Crc.update parameters) parameters.initValue bytes)

def CrcBitwise.of (parameters : Parameters w) (bytes : List (BitVec 8)) : BitVec w :=
  result parameters (updateRange (CrcBitwise.update parameters) parameters.initValue bytes)

def CrcNibblewise.of (parameters : Parameters w) (bytes : List (BitVec 8)) : BitVec w :=
  result parameters (updateRange (CrcNibblewise.update parameters) parameters.initValue bytes)

theorem roundUp_eq : roundUp (w := w) = stepUp := by
  funext polynomial crc
  have top : crc &&& topBit w ≠ 0#w ↔ crc.getLsbD (w - 1) = true := by
    rw [Ne, BitVec.eq_of_getLsbD_eq_iff]
    constructor
    · intro set
      by_contra clear
      apply set
      intro i inside
      by_cases last : i = w - 1
      · subst last
        simp [clear]
      · simp [topBit, show i - (w - 1) = 0 by omega, show i < w - 1 by omega]
    · intro set clear
      have inside : w - 1 < w := by
        by_contra outside
        rw [getLsbD_of_ge crc (w - 1) (by omega)] at set
        exact absurd set nofun
      have bit := clear (w - 1) inside
      simp only [BitVec.getLsbD_and, set, topBit, getLsbD_shiftLeft, inside] at bit
      simp [show 0 < w by omega] at bit
  rw [roundUp, stepUp]
  simp only [top]

theorem roundDown_eq : roundDown (w := w) = stepDown := by
  funext reversedPolynomial crc
  have low : crc &&& 1#w ≠ 0#w ↔ crc.getLsbD 0 = true := by
    rw [BitVec.and_one_eq_setWidth_ofBool_getLsbD]
    cases some : crc.getLsbD 0
    · simp
    · have inside : 0 < w := by
        by_contra outside
        rw [getLsbD_of_ge crc 0 (by omega)] at some
        exact absurd some nofun
      simp only [ne_eq, iff_true]
      intro zero
      have bit := congrArg (·.getLsbD 0) zero
      simp [inside] at bit
  rw [roundDown, stepDown]
  simp only [low]

theorem reflectRound_bits (value : BitVec w) (rounds : Nat) :
    (reflectRound^[rounds] (0#w, value)).2 = value >>> rounds ∧
      ∀ i < w, (reflectRound^[rounds] (0#w, value)).1.getLsbD i =
        (decide (i < rounds) && value.getLsbD (rounds - 1 - i)) := by
  induction rounds with
  | zero => simp
  | succ rounds ih =>
    obtain ⟨left, bits⟩ := ih
    rw [Function.iterate_succ_apply']
    constructor
    · rw [reflectRound, left, ← BitVec.shiftRight_add]
    · intro i inside
      rw [reflectRound, left]
      simp only [BitVec.getLsbD_or, getLsbD_shiftLeft, inside, decide_true, Bool.true_and]
      rw [BitVec.and_one_eq_setWidth_ofBool_getLsbD]
      by_cases zero : i = 0
      · subst zero
        simp [inside]
      · rw [bits (i - 1) (by omega)]
        simp [zero, show ¬ i < 1 by omega, show (i - 1 < rounds) = (i < rounds + 1) by
          rw [eq_iff_iff]; omega, show rounds - 1 - (i - 1) = rounds - i by omega]

theorem reflectBits_eq (value : BitVec w) : reflectBits value = value.reverse := by
  apply eq_of_getLsbD_eq
  intro i inside
  rw [reflectBits, (reflectRound_bits value w).2 i inside, BitVec.getLsbD_reverse,
    BitVec.getMsbD_eq_getLsbD]

theorem setWidth_upper {k : Nat} (c : BitVec w) (inside : k ≤ w) :
    ((c >>> (w - k)).setWidth k).setWidth w <<< (w - k) = upper k c := by
  rw [upper]
  congr 1
  apply eq_of_getLsbD_eq
  intro i _
  rw [getLsbD_setWidth, getLsbD_setWidth, BitVec.getLsbD_ushiftRight]
  by_cases low : i < k
  · simp [low, show i < w by omega]
  · simp [low, getLsbD_of_ge c (w - k + i) (by omega)]

theorem reverse_shift {k : Nat} (c : BitVec k) (inside : k ≤ w) :
    (c.reverse.setWidth w <<< (w - k)).reverse = c.setWidth w := by
  apply eq_of_getLsbD_eq
  intro i low
  simp only [BitVec.getLsbD_reverse, BitVec.getMsbD_eq_getLsbD, getLsbD_setWidth,
    getLsbD_shiftLeft, low, decide_true, Bool.true_and]
  by_cases within : i < k
  · simp [show w - 1 - i < w by omega, show ¬ w - 1 - i < w - k by omega,
      show w - 1 - i - (w - k) < w by omega, show w - 1 - i - (w - k) < k by omega,
      show k - 1 - (w - 1 - i - (w - k)) = i by omega]
  · simp [show w - 1 - i < w - k by omega, getLsbD_of_ge c i (by omega)]

variable (parameters : Parameters w)

theorem Crc.table_reflected (wide : 8 ≤ w) (reflected : parameters.reflect = true) (i : BitVec 8) :
    Crc.table parameters i = (stepDown parameters.polynomial.reverse)^[8] (i.setWidth w) := by
  rw [Crc.table, reflected, if_pos rfl, if_pos rfl, reflectBits_eq, reflectBits_eq, roundUp_eq,
    reverse_iterate, reverse_shift i wide]

theorem crc_update (wide : 8 ≤ w) (crc : BitVec w) (input : BitVec 8) :
    Crc.update parameters crc input = CrcBitwise.update parameters crc input := by
  have whole (c : BitVec w) : (if w = 8 then 0#w else c >>> 8) = c >>> 8 := by
    split
    · next eight => rw [BitVec.ushiftRight_eq_zero (by omega)]
    · rfl
  have wholeUp (c : BitVec w) : (if w = 8 then 0#w else c <<< 8) = c <<< 8 := by
    split
    · next eight => rw [BitVec.shiftLeft_eq_zero (by omega)]
    · rfl
  cases reflected : parameters.reflect with
  | true =>
    rw [Crc.update, CrcBitwise.update, reflected, if_pos rfl, if_pos rfl]
    dsimp only
    have split := stepDown_split (k := 8) parameters.polynomial.reverse (crc ^^^ input.setWidth w)
    rw [whole, Crc.table_reflected parameters wide reflected, reflectBits_eq, roundDown_eq, split,
      lower]
  | false =>
    rw [Crc.update, CrcBitwise.update, reflected, if_neg Bool.false_ne_true,
      if_neg Bool.false_ne_true]
    dsimp only
    rw [wholeUp, Crc.table, reflected, roundUp_eq]
    simp only [Bool.false_eq_true, if_false]
    rw [setWidth_upper _ wide, ← stepUp_split _ _ wide]

theorem nibble_up (wide : 8 ≤ w) (p crc : BitVec w) (nibble : BitVec 8) :
    (stepUp p)^[4] (crc ^^^ (nibble.setWidth 4).setWidth w <<< (w - 4)) =
      (crc <<< 4) ^^^ (stepUp p)^[4]
        ((((crc >>> (w - 4)) ^^^ nibble.setWidth w).setWidth 4).setWidth w <<< (w - 4)) := by
  have gone : (nibble.setWidth 4).setWidth w <<< (w - 4) <<< 4 = 0#w := by
    rw [← BitVec.shiftLeft_add, BitVec.shiftLeft_eq_zero (by omega)]
  have index : upper 4 (crc ^^^ (nibble.setWidth 4).setWidth w <<< (w - 4)) =
      (((crc >>> (w - 4)) ^^^ nibble.setWidth w).setWidth 4).setWidth w <<< (w - 4) := by
    rw [← setWidth_upper _ (by omega)]
    congr 2
    apply eq_of_getLsbD_eq
    intro i low
    simp [low, show w - 4 + i < w by omega, show i < w by omega]
  rw [stepUp_split p _ (by omega), BitVec.shiftLeft_xor_distrib, gone, xor_zero, index]

theorem nibble_down (wide : 8 ≤ w) (p crc : BitVec w) (nibble : BitVec 8) :
    (stepDown p)^[4] (crc ^^^ (nibble.setWidth 4).setWidth w) =
      (crc >>> 4) ^^^ (stepDown p)^[4] (((crc ^^^ nibble.setWidth w).setWidth 4).setWidth w) := by
  have gone : (nibble.setWidth 4).setWidth w >>> 4 = 0#w := by
    apply eq_of_getLsbD_eq
    intro i _
    simp
  have index : lower 4 (crc ^^^ (nibble.setWidth 4).setWidth w) =
      ((crc ^^^ nibble.setWidth w).setWidth 4).setWidth w := by
    rw [lower]
    congr 1
    apply eq_of_getLsbD_eq
    intro i low
    simp [low, show i < w by omega]
  rw [stepDown_split p, BitVec.ushiftRight_xor_distrib, gone, xor_zero, index]

theorem nibblewise_update (wide : 8 ≤ w) (crc : BitVec w) (input : BitVec 8) :
    CrcNibblewise.update parameters crc input = CrcBitwise.update parameters crc input := by
  cases reflected : parameters.reflect with
  | true =>
    have halves : input.setWidth w =
        (input.setWidth 4).setWidth w ^^^ (((input >>> 4).setWidth 4).setWidth w <<< 4) := by
      apply eq_of_getLsbD_eq
      intro i inside
      by_cases low : i < 4
      · simp [low, inside]
      · by_cases middle : i - 4 < 4
        · simp [low, inside, middle, show 4 + (i - 4) = i by omega]
        · simp [low, inside, middle, getLsbD_of_ge input i (by omega)]
    have moves : (stepDown parameters.polynomial.reverse)^[4]
        (((input >>> 4).setWidth 4).setWidth w <<< 4) = ((input >>> 4).setWidth 4).setWidth w := by
      rw [stepDown_clear _ (by intro i low; simp [low])]
      apply eq_of_getLsbD_eq
      intro i inside
      by_cases low : i < 4
      · simp [low, inside, show 4 + i < w by omega]
      · simp [low]
    rw [CrcNibblewise.update, CrcBitwise.update, reflected, if_pos rfl, if_pos rfl]
    simp only [CrcNibblewise.table, reflected, if_true, reflectBits_eq, roundDown_eq]
    rw [← nibble_down wide, ← nibble_down wide, halves, ← xor_assoc,
      Function.iterate_add_apply _ 4 4, iterate_xor (stepDown_xor _) 4 (_ ^^^ _), moves]
  | false =>
    have halves : input.setWidth w <<< (w - 8) =
        ((input >>> 4).setWidth 4).setWidth w <<< (w - 4) ^^^
          ((input.setWidth 4).setWidth w <<< (w - 8)) := by
      apply eq_of_getLsbD_eq
      intro i inside
      by_cases low : i < w - 8
      · simp [low, inside, show i < w - 4 by omega]
      · by_cases middle : i < w - 4
        · simp [low, inside, middle, show i - (w - 8) < 4 by omega]
        · simp [low, inside, middle, show ¬ i - (w - 8) < 4 by omega, show i - (w - 4) < 4 by omega,
            show 4 + (i - (w - 4)) = i - (w - 8) by omega]
    have moves : (stepUp parameters.polynomial)^[4] ((input.setWidth 4).setWidth w <<< (w - 8)) =
        (input.setWidth 4).setWidth w <<< (w - 4) := by
      rw [stepUp_clear _ (by omega), ← BitVec.shiftLeft_add, show w - 8 + 4 = w - 4 by omega]
      intro i high inside
      simp [inside, show ¬ i < w - 8 by omega, show ¬ i - (w - 8) < 4 by omega]
    rw [CrcNibblewise.update, CrcBitwise.update, reflected, if_neg Bool.false_ne_true,
      if_neg Bool.false_ne_true]
    simp only [CrcNibblewise.table, reflected, Bool.false_eq_true, if_false, roundUp_eq]
    rw [← nibble_up wide, ← nibble_up wide, halves, ← xor_assoc,
      Function.iterate_add_apply _ 4 4, iterate_xor (stepUp_xor _) 4 (_ ^^^ _), moves]

/-- A register, or a byte, with its bits in the order of the polynomial. -/
def ordered {k : Nat} (reflect : Bool) (c : BitVec k) : BitVec k := if reflect then c.reverse else c

theorem ordered_update (wide : 8 ≤ w) (crc : BitVec w) (input : BitVec 8) :
    ordered parameters.reflect (CrcBitwise.update parameters crc input) =
      (stepUp parameters.polynomial)^[8] (ordered parameters.reflect crc ^^^
        (ordered parameters.reflect input).setWidth w <<< (w - 8)) := by
  cases reflected : parameters.reflect with
  | true =>
    have back := reverse_shift input wide
    have steps := reverse_iterate parameters.polynomial
      (crc.reverse ^^^ input.reverse.setWidth w <<< (w - 8)) 8
    have parts : (crc.reverse ^^^ input.reverse.setWidth w <<< (w - 8)).reverse =
        crc ^^^ input.setWidth w := by
      rw [reverse_xor, back, BitVec.reverse_reverse_eq]
    rw [parts] at steps
    rw [CrcBitwise.update, reflected, if_pos rfl, reflectBits_eq, roundDown_eq, ordered, if_pos rfl,
      ordered, if_pos rfl, ordered, if_pos rfl, ← steps, BitVec.reverse_reverse_eq]
  | false =>
    rw [CrcBitwise.update, reflected, if_neg Bool.false_ne_true, roundUp_eq]
    rfl

/-- The bytes as the polynomial of their bits, in the order they are sent in. -/
noncomputable def message (reflect : Bool) (bytes : List (BitVec 8)) : (ZMod 2)[X] :=
  bytes.foldl (fun front byte => front * X ^ 8 + toPolynomial (ordered reflect byte)) 0

theorem update_dvd (wide : 8 ≤ w) (crc : BitVec w) (input : BitVec 8) :
    divisor parameters.polynomial ∣
      toPolynomial (ordered parameters.reflect crc) * X ^ 8 +
          toPolynomial (ordered parameters.reflect input) * X ^ w -
        toPolynomial (ordered parameters.reflect (CrcBitwise.update parameters crc input)) := by
  have steps := iterate_dvd (show 0 < w by omega) parameters.polynomial
    (ordered parameters.reflect crc ^^^ (ordered parameters.reflect input).setWidth w <<< (w - 8)) 8
  have product : toPolynomial (ordered parameters.reflect crc ^^^
        (ordered parameters.reflect input).setWidth w <<< (w - 8)) * X ^ 8 =
      toPolynomial (ordered parameters.reflect crc) * X ^ 8 +
        toPolynomial (ordered parameters.reflect input) * X ^ w := by
    rw [toPolynomial_xor, toPolynomial_shift _ wide, add_mul, mul_assoc, ← pow_add,
      Nat.sub_add_cancel wide]
  rwa [product, ← ordered_update parameters wide] at steps

theorem range_dvd (wide : 8 ≤ w) (crc : BitVec w) (front : (ZMod 2)[X]) (start : (ZMod 2)[X])
    (length : Nat) (before : divisor parameters.polynomial ∣
      start * X ^ (8 * length) + front * X ^ w - toPolynomial (ordered parameters.reflect crc))
    (bytes : List (BitVec 8)) :
    divisor parameters.polynomial ∣
      start * X ^ (8 * (length + bytes.length)) +
          bytes.foldl (fun front byte =>
            front * X ^ 8 + toPolynomial (ordered parameters.reflect byte)) front * X ^ w -
        toPolynomial (ordered parameters.reflect
          (updateRange (CrcBitwise.update parameters) crc bytes)) := by
  induction bytes generalizing crc front length with
  | nil => exact before
  | cons byte rest ih =>
    have next := update_dvd parameters wide crc byte
    have both := dvd_add (before.mul_right (X ^ 8)) next
    have sum : (start * X ^ (8 * length) + front * X ^ w -
          toPolynomial (ordered parameters.reflect crc)) * X ^ 8 +
        (toPolynomial (ordered parameters.reflect crc) * X ^ 8 +
            toPolynomial (ordered parameters.reflect byte) * X ^ w -
          toPolynomial (ordered parameters.reflect (CrcBitwise.update parameters crc byte))) =
        start * X ^ (8 * (length + 1)) +
          (front * X ^ 8 + toPolynomial (ordered parameters.reflect byte)) * X ^ w -
            toPolynomial (ordered parameters.reflect (CrcBitwise.update parameters crc byte)) := by
      rw [Nat.mul_add, pow_add]
      ring
    rw [sum] at both
    have last := ih (CrcBitwise.update parameters crc byte) _ (length + 1) both
    rwa [show length + 1 + rest.length = length + (byte :: rest).length by
      rw [List.length_cons]; omega] at last

theorem updateRange_eq {update other : BitVec w → BitVec 8 → BitVec w}
    (same : ∀ crc input, update crc input = other crc input) (crc : BitVec w)
    (bytes : List (BitVec 8)) : updateRange update crc bytes = updateRange other crc bytes := by
  have equal : update = other := funext fun crc => funext fun input => same crc input
  rw [equal]

theorem updateRange_append (update : BitVec w → BitVec 8 → BitVec w) (crc : BitVec w)
    (front back : List (BitVec 8)) :
    updateRange update crc (front ++ back) = updateRange update (updateRange update crc front) back :=
  List.foldl_append

/-- All three give the remainder of the initial value and the message, and may be updated with the
message in parts. -/
theorem crcs_agree (wide : 8 ≤ w) (bytes : List (BitVec 8)) :
    Crc.of parameters bytes = CrcBitwise.of parameters bytes ∧
    CrcNibblewise.of parameters bytes = CrcBitwise.of parameters bytes ∧
    toPolynomial (ordered parameters.reflect
        (CrcBitwise.of parameters bytes ^^^ parameters.finalXor)) =
      (toPolynomial (ordered parameters.reflect parameters.initValue) * X ^ (8 * bytes.length) +
        message parameters.reflect bytes * X ^ w) %ₘ divisor parameters.polynomial ∧
    ∀ update ∈ [Crc.update parameters, CrcBitwise.update parameters, CrcNibblewise.update parameters],
      ∀ crc more, updateRange update crc (bytes ++ more) =
        updateRange update (updateRange update crc bytes) more := by
  refine ⟨?_, ?_, ?_, fun update _ crc more => updateRange_append update crc bytes more⟩
  · rw [Crc.of, CrcBitwise.of, updateRange_eq (crc_update parameters wide)]
  · rw [CrcNibblewise.of, CrcBitwise.of, updateRange_eq (nibblewise_update parameters wide)]
  · have divides := range_dvd parameters wide parameters.initValue 0
      (toPolynomial (ordered parameters.reflect parameters.initValue)) 0 (by simp) bytes
    rw [Nat.zero_add] at divides
    rw [CrcBitwise.of, result, xor_assoc, BitVec.xor_self, xor_zero]
    exact eq_remainder divides

theorem crcs_agree_maxim :
    Crc.of (w := 8) ⟨0x31, 0, 0, true⟩ [0x31, 0x32] =
      CrcBitwise.of ⟨0x31, 0, 0, true⟩ [0x31, 0x32] :=
  (crcs_agree ⟨0x31, 0, 0, true⟩ (by decide) [0x31, 0x32]).1

/-- No message of the right length passes where all the wrong bits are among `w` in a row. -/
theorem bursts_detected (wide : 8 ≤ w) (odd : parameters.polynomial.getLsbD 0 = true)
    {sent received : List (BitVec 8)} (same : received.length = sent.length) (place : Nat)
    {burst : (ZMod 2)[X]} (some : burst ≠ 0) (short : burst.degree < w)
    (error : message parameters.reflect received - message parameters.reflect sent =
      burst * X ^ place) : Crc.of parameters received ≠ Crc.of parameters sent := by
  have coprime : IsCoprime (divisor parameters.polynomial) X := by
    refine .symm (irreducible_X.coprime_iff_not_dvd.mpr fun divides => ?_)
    have := X_dvd_iff.mp divides
    simp [divisor, coeff_toPolynomial, odd, coeff_X_pow, show 0 ≠ w by omega] at this
  have range (bytes : List (BitVec 8)) := range_dvd parameters wide parameters.initValue 0
    (toPolynomial (ordered parameters.reflect parameters.initValue)) 0 (by simp) bytes
  intro equal
  simp only [Crc.of, result, BitVec.xor_left_inj, updateRange_eq (crc_update parameters wide)] at equal
  have divides := dvd_sub (range received) (range sent)
  rw [same, equal, sub_sub_sub_cancel_right, add_sub_add_left_eq_sub, ← sub_mul] at divides
  change _ ∣ (message _ received - message _ sent) * _ at divides
  rw [error, mul_assoc, ← pow_add] at divides
  have := eq_zero_of_dvd_of_degree_lt (coprime.pow_right.dvd_of_dvd_mul_right divides)
    (by rwa [degree_divisor])
  exact some this

theorem bursts_detected_maxim :
    Crc.of (w := 8) ⟨0x31, 0, 0, true⟩ [0x31, 0x33] ≠ Crc.of ⟨0x31, 0, 0, true⟩ [0x31, 0x32] := by
  refine bursts_detected ⟨0x31, 0, 0, true⟩ (by decide) rfl ?_ 7 one_ne_zero (by simp) ?_
  · rfl
  · have last : ordered true 0x33#8 = ordered true 0x32#8 ^^^ 0x80#8 := rfl
    have bit : toPolynomial 0x80#8 = X ^ 7 := by simp [toPolynomial, Finset.sum_range_succ]
    simp [message, last, toPolynomial_xor, bit]

end Crcs
