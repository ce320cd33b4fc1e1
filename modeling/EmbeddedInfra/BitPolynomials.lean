import Mathlib

/-! Bit vectors as polynomials with coefficients in the field of two elements, and the shifts that
multiply them by the indeterminate, modulo a polynomial whose leading term is left out. -/

namespace BitPolynomials

open Polynomial Function
open BitVec (eq_of_getLsbD_eq getLsbD_of_ge getLsbD_reverse getLsbD_shiftLeft getLsbD_xor
  getMsbD_eq_getLsbD xor_zero)

variable {w k : Nat}

variable (p a c : BitVec w)

def stepUp (c : BitVec w) : BitVec w := if c.getLsbD (w - 1) then (c <<< 1) ^^^ p else c <<< 1

def stepDown (c : BitVec w) : BitVec w := if c.getLsbD 0 then (c >>> 1) ^^^ p else c >>> 1

theorem xor_cancel (b p : BitVec w) : (a ^^^ p) ^^^ (b ^^^ p) = a ^^^ b := by
  rw [BitVec.xor_assoc, ← BitVec.xor_assoc p b p, BitVec.xor_comm p b, BitVec.xor_assoc b p p,
    BitVec.xor_self, xor_zero]

theorem stepUp_xor (a b : BitVec w) : stepUp p (a ^^^ b) = stepUp p a ^^^ stepUp p b := by
  simp only [stepUp, getLsbD_xor, BitVec.shiftLeft_xor_distrib]
  cases a.getLsbD (w - 1) <;> cases b.getLsbD (w - 1)
  · simp
  · simp [BitVec.xor_assoc]
  · simp [BitVec.xor_assoc, BitVec.xor_comm p]
  · simp [xor_cancel]

theorem stepDown_xor (a b : BitVec w) : stepDown p (a ^^^ b) = stepDown p a ^^^ stepDown p b := by
  simp only [stepDown, getLsbD_xor, BitVec.ushiftRight_xor_distrib]
  cases a.getLsbD 0 <;> cases b.getLsbD 0
  · simp
  · simp [BitVec.xor_assoc]
  · simp [BitVec.xor_assoc, BitVec.xor_comm p]
  · simp [xor_cancel]

theorem iterate_xor {f : BitVec w → BitVec w} (linear : ∀ a b, f (a ^^^ b) = f a ^^^ f b)
    (k : Nat) (a b : BitVec w) : f^[k] (a ^^^ b) = f^[k] a ^^^ f^[k] b := by
  induction k with
  | zero => rfl
  | succ k ih => simp only [iterate_succ_apply', ih, linear]

theorem stepUp_clear {c : BitVec w} (inside : k ≤ w)
    (clear : ∀ i, w - k ≤ i → i < w → c.getLsbD i = false) : (stepUp p)^[k] c = c <<< k := by
  induction k generalizing c with
  | zero => simp
  | succ k ih =>
    have first : stepUp p c = c <<< 1 := by
      rw [stepUp, clear (w - 1) (by omega) (by omega)]
      rfl
    have next : ∀ i, w - k ≤ i → i < w → (c <<< 1).getLsbD i = false := by
      intro i high low
      rw [getLsbD_shiftLeft, clear (i - 1) (by omega) (by omega), Bool.and_false]
    rw [iterate_succ_apply, first, ih (by omega) next, ← BitVec.shiftLeft_add,
      Nat.add_comm]

theorem stepDown_clear {c : BitVec w} (clear : ∀ i < k, c.getLsbD i = false) :
    (stepDown p)^[k] c = c >>> k := by
  induction k generalizing c with
  | zero => simp
  | succ k ih =>
    have first : stepDown p c = c >>> 1 := by
      rw [stepDown, clear 0 (by omega)]
      rfl
    have next : ∀ i < k, (c >>> 1).getLsbD i = false := by
      intro i low
      rw [BitVec.getLsbD_ushiftRight]
      exact clear (1 + i) (by omega)
    rw [iterate_succ_apply, first, ih next, ← BitVec.shiftRight_add, Nat.add_comm]

def upper (k : Nat) (c : BitVec w) : BitVec w := (c >>> (w - k)) <<< (w - k)

def lower (k : Nat) (c : BitVec w) : BitVec w := (c.setWidth k).setWidth w

theorem stepUp_split (c : BitVec w) (inside : k ≤ w) :
    (stepUp p)^[k] c = (c <<< k) ^^^ (stepUp p)^[k] (upper k c) := by
  have rest : (stepUp p)^[k] (c ^^^ upper k c) = (c ^^^ upper k c) <<< k := by
    apply stepUp_clear p inside
    intro i high low
    simp [upper, low, show w - k + (i - (w - k)) = i by omega, show ¬ i < w - k by omega]
  have gone : upper k c <<< k = 0#w := by
    rw [upper, ← BitVec.shiftLeft_add, Nat.sub_add_cancel inside]
    exact BitVec.shiftLeft_eq_zero (Nat.le_refl w)
  rw [BitVec.shiftLeft_xor_distrib, gone, xor_zero, iterate_xor (stepUp_xor p)] at rest
  rw [← rest, BitVec.xor_assoc, BitVec.xor_self, xor_zero]

theorem stepDown_split (c : BitVec w) :
    (stepDown p)^[k] c = (c >>> k) ^^^ (stepDown p)^[k] (lower k c) := by
  have rest : (stepDown p)^[k] (c ^^^ lower k c) = (c ^^^ lower k c) >>> k := by
    apply stepDown_clear p
    intro i low
    by_cases inside : i < w
    · simp [lower, low, inside]
    · simp [getLsbD_of_ge _ _ (Nat.le_of_not_lt inside)]
  have gone : lower k c >>> k = 0#w := by
    apply eq_of_getLsbD_eq
    intro i _
    simp [lower]
  rw [BitVec.ushiftRight_xor_distrib, gone, xor_zero, iterate_xor (stepDown_xor p)] at rest
  rw [← rest, BitVec.xor_assoc, BitVec.xor_self, xor_zero]

theorem reverse_xor (b : BitVec w) : (a ^^^ b).reverse = a.reverse ^^^ b.reverse := by
  apply eq_of_getLsbD_eq
  intro i inside
  simp only [getLsbD_reverse, getMsbD_eq_getLsbD, getLsbD_xor, inside,
    decide_true, Bool.true_and]

theorem reverse_stepUp (c : BitVec w) : (stepUp p c).reverse = stepDown p.reverse c.reverse := by
  have top : c.reverse.getLsbD 0 = c.getLsbD (w - 1) := by
    rw [getLsbD_reverse, getMsbD_eq_getLsbD]
    by_cases some : 0 < w
    · simp [some]
    · simp [show w = 0 by omega]
  have shifted : (c <<< 1).reverse = c.reverse >>> 1 := by
    apply eq_of_getLsbD_eq
    intro i inside
    simp only [getLsbD_reverse, getMsbD_eq_getLsbD, BitVec.getLsbD_ushiftRight,
      getLsbD_shiftLeft]
    by_cases last : i + 1 < w
    · simp [inside, show 1 + i < w by omega, show ¬ w - 1 - i < 1 by omega,
        show w - 1 - i < w by omega, show w - 1 - i - 1 = w - 1 - (1 + i) by omega]
    · simp [show w - 1 - i = 0 by omega, show ¬ 1 + i < w by omega]
  rw [stepUp, stepDown, top]
  split
  · rw [reverse_xor, shifted]
  · rw [shifted]

theorem reverse_iterate (c : BitVec w) (k : Nat) :
    ((stepUp p)^[k] c).reverse = (stepDown p.reverse)^[k] c.reverse := by
  induction k generalizing c with
  | zero => rfl
  | succ k ih => rw [iterate_succ_apply, iterate_succ_apply, ih, reverse_stepUp]

/-- The bits are the coefficients. -/
noncomputable def toPolynomial : (ZMod 2)[X] :=
  ∑ i ∈ Finset.range w, if c.getLsbD i then X ^ i else 0

theorem coeff_toPolynomial (n : Nat) : (toPolynomial c).coeff n = if c.getLsbD n then 1 else 0 := by
  have term (i : Nat) : (if c.getLsbD i then (X ^ i : (ZMod 2)[X]) else 0).coeff n =
      if n = i then (if c.getLsbD i then 1 else 0) else 0 := by
    split <;> simp [coeff_X_pow]
  rw [toPolynomial, finsetSum_coeff]
  simp only [term, Finset.sum_ite_eq, Finset.mem_range]
  by_cases inside : n < w
  · simp [inside]
  · simp [inside, getLsbD_of_ge c n (Nat.le_of_not_lt inside)]

theorem degree_toPolynomial : (toPolynomial c).degree < w := by
  rw [degree_lt_iff_coeff_zero]
  intro n high
  rw [coeff_toPolynomial, getLsbD_of_ge c n high]
  rfl

theorem toPolynomial_xor (b : BitVec w) :
    toPolynomial (a ^^^ b) = toPolynomial a + toPolynomial b := by
  ext n
  rw [coeff_add, coeff_toPolynomial, coeff_toPolynomial, coeff_toPolynomial, getLsbD_xor]
  cases a.getLsbD n <;> cases b.getLsbD n <;> simp [CharTwo.add_self_eq_zero]

theorem toPolynomial_shift (c : BitVec k) (inside : k ≤ w) :
    toPolynomial (c.setWidth w <<< (w - k)) = toPolynomial c * X ^ (w - k) := by
  ext n
  rw [coeff_mul_X_pow', coeff_toPolynomial, coeff_toPolynomial]
  by_cases low : w - k ≤ n
  · by_cases high : n < w
    · simp [low, high, show ¬ n < w - k by omega]
    · simp [low, high, getLsbD_of_ge c (n - (w - k)) (by omega)]
  · simp [low, show n < w - k by omega]

/-- The divisor, whose leading term is not among the bits. -/
noncomputable def divisor : (ZMod 2)[X] := X ^ w + toPolynomial p

theorem monic_divisor : (divisor p).Monic :=
  monic_X_pow_add (degree_toPolynomial p)

theorem degree_divisor : (divisor p).degree = w := by
  rw [divisor, degree_add_eq_left_of_degree_lt, degree_X_pow]
  rw [degree_X_pow]
  exact degree_toPolynomial p

theorem stepUp_dvd (some : 0 < w) (p c : BitVec w) :
    divisor p ∣ toPolynomial c * X - toPolynomial (stepUp p c) := by
  have shifted : toPolynomial c * X =
      toPolynomial (c <<< 1) + if c.getLsbD (w - 1) then X ^ w else 0 := by
    ext n
    have product := coeff_mul_X_pow' (toPolynomial c) 1 n
    rw [pow_one] at product
    rw [product, coeff_add, coeff_toPolynomial, coeff_toPolynomial, getLsbD_shiftLeft]
    have top : (if c.getLsbD (w - 1) then (X ^ w : (ZMod 2)[X]) else 0).coeff n =
        if n = w ∧ c.getLsbD (w - 1) then 1 else 0 := by
      by_cases same : n = w <;> cases c.getLsbD (w - 1) <;> simp [coeff_X_pow, same]
    rw [top]
    by_cases zero : n = 0
    · simp [zero, show 0 ≠ w by omega]
    by_cases last : n = w
    · simp [last, show 1 ≤ w by omega]
    · by_cases inside : n < w
      · simp [inside, last, show 1 ≤ n by omega, zero]
      · simp [inside, last, show 1 ≤ n by omega, getLsbD_of_ge c (n - 1) (by omega)]
  rw [shifted, stepUp]
  cases c.getLsbD (w - 1)
  · simp
  · refine ⟨1, ?_⟩
    simp only [if_true, toPolynomial_xor, divisor, mul_one]
    rw [CharTwo.sub_eq_add]
    calc
      toPolynomial (c <<< 1) + X ^ w + (toPolynomial (c <<< 1) + toPolynomial p) =
          (toPolynomial (c <<< 1) + toPolynomial (c <<< 1)) + (X ^ w + toPolynomial p) := by ring
      _ = X ^ w + toPolynomial p := by rw [CharTwo.add_self_eq_zero, zero_add]

theorem iterate_dvd (some : 0 < w) (p c : BitVec w) (k : Nat) :
    divisor p ∣ toPolynomial c * X ^ k - toPolynomial ((stepUp p)^[k] c) := by
  induction k with
  | zero => simp
  | succ k ih =>
    have last := stepUp_dvd some p ((stepUp p)^[k] c)
    have front := ih.mul_right X
    rw [iterate_succ_apply']
    have both := dvd_add front last
    have sum : (toPolynomial c * X ^ k - toPolynomial ((stepUp p)^[k] c)) * X +
        (toPolynomial ((stepUp p)^[k] c) * X - toPolynomial (stepUp p ((stepUp p)^[k] c))) =
          toPolynomial c * X ^ (k + 1) - toPolynomial (stepUp p ((stepUp p)^[k] c)) := by ring
    rwa [sum] at both

theorem eq_remainder {p c : BitVec w} {dividend : (ZMod 2)[X]}
    (divides : divisor p ∣ dividend - toPolynomial c) :
    toPolynomial c = dividend %ₘ divisor p := by
  rw [modByMonic_eq_of_dvd_sub (monic_divisor p) divides]
  symm
  rw [modByMonic_eq_self_iff (monic_divisor p), degree_divisor]
  exact degree_toPolynomial c

end BitPolynomials
