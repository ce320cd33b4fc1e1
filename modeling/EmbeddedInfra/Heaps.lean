import Mathlib.Data.Nat.Basic
import Mathlib.Logic.Function.Basic

/-! Heaps: the elements of a complete binary tree by their positions, level by level from the root
at position 1, so that the children of position `i` are at `2 * i` and `2 * i + 1`. -/

namespace Heaps

open Function

variable {α : Type} {less : α → α → Bool} {place : Nat → α} {count hole : Nat}

structure StrictWeak (less : α → α → Bool) : Prop where
  asymm : ∀ a b, less a b = true → less b a = false
  negTrans : ∀ a b c, less a b = false → less b c = false → less a c = false

theorem StrictWeak.irrefl (weak : StrictWeak less) (a : α) : less a a = false := by
  by_contra other
  rw [Bool.not_eq_false] at other
  exact absurd ((weak.asymm a a other).symm.trans other) nofun

def Ordered (less : α → α → Bool) (count : Nat) (place : Nat → α) : Prop :=
  ∀ i, 2 ≤ i → i ≤ count → less (place (i / 2)) (place i) = false

/-- The element at the hole may exceed its parent, but the rest is in order without it. -/
structure UpOrdered (less : α → α → Bool) (count : Nat) (place : Nat → α) (hole : Nat) : Prop where
  others : ∀ i, 2 ≤ i → i ≤ count → i ≠ hole → less (place (i / 2)) (place i) = false
  around : 2 ≤ hole → ∀ i ≤ count, i / 2 = hole → less (place (hole / 2)) (place i) = false

/-- The element at the hole may be out of order with its parent and with its children. -/
structure DownOrdered (less : α → α → Bool) (count : Nat) (place : Nat → α) (hole : Nat) :
    Prop where
  others : ∀ i, 2 ≤ i → i ≤ count → i ≠ hole → i / 2 ≠ hole →
    less (place (i / 2)) (place i) = false
  around : 2 ≤ hole → ∀ i ≤ count, i / 2 = hole → less (place (hole / 2)) (place i) = false

/-- The positions of two elements change places. -/
def other (a b i : Nat) : Nat := if i = a then b else if i = b then a else i

def exchange (place : Nat → α) (a b : Nat) : Nat → α := fun i => place (other a b i)

@[simp] theorem exchange_first (place : Nat → α) (a b : Nat) : exchange place a b a = place b := by
  simp [exchange, other]

@[simp] theorem exchange_second (place : Nat → α) (a b : Nat) :
    exchange place a b b = place a := by
  by_cases same : b = a <;> simp [exchange, other, same]

theorem exchange_else {a b i : Nat} (first : i ≠ a) (second : i ≠ b) :
    exchange place a b i = place i := by
  simp [exchange, other, first, second]

namespace Ordered

theorem top (weak : StrictWeak less) (ordered : Ordered less count place) (i : Nat) (some : 1 ≤ i)
    (inside : i ≤ count) : less (place 1) (place i) = false := by
  induction i using Nat.strong_induction_on with
  | _ i ih =>
    by_cases root : i = 1
    · rw [root]
      exact weak.irrefl _
    · have above := ih (i / 2) (by omega) (by omega) (by omega)
      exact weak.negTrans _ _ _ above (ordered i (by omega) inside)

theorem down (weak : StrictWeak less) (ordered : Ordered less count place) (hole : Nat) :
    DownOrdered less count place hole where
  others i large inside _ _ := ordered i large inside
  around large i inside child := by
    have above := ordered hole large (by omega)
    have below := ordered i (by omega) inside
    rw [child] at below
    exact weak.negTrans _ _ _ above below

theorem add (ordered : Ordered less count place) (x : α) :
    UpOrdered less (count + 1) (update place (count + 1) x) (count + 1) where
  others i large inside notLast := by
    rw [update_of_ne notLast, update_of_ne (by omega)]
    exact ordered i large (by omega)
  around large i inside child := absurd child (by omega)

end Ordered

namespace UpOrdered

theorem finish (ordered : UpOrdered less count place hole)
    (stops : 2 ≤ hole → less (place (hole / 2)) (place hole) = false) :
    Ordered less count place := by
  intro i large inside
  by_cases same : i = hole
  · rw [same] at large ⊢
    exact stops large
  · exact ordered.others i large inside same

theorem rise (weak : StrictWeak less) (ordered : UpOrdered less count place hole)
    (large : 2 ≤ hole) (inside : hole ≤ count)
    (exceeds : less (place hole) (place (hole / 2)) = false) :
    UpOrdered less count (exchange place hole (hole / 2)) (hole / 2) where
  others i some bound notParent := by
    by_cases same : i = hole
    · rw [same, exchange_first, exchange_second]
      exact exceeds
    rw [exchange_else same notParent]
    by_cases child : i / 2 = hole
    · rw [child, exchange_first]
      exact ordered.around large i bound child
    have before := ordered.others i some bound same
    by_cases sibling : i / 2 = hole / 2
    · rw [sibling, exchange_second]
      rw [sibling] at before
      exact weak.negTrans _ _ _ exceeds before
    · rw [exchange_else child sibling]
      exact before
  around again i bound child := by
    have above := ordered.others (hole / 2) again (by omega) (by omega)
    rw [exchange_else (by omega) (by omega)]
    by_cases same : i = hole
    · rw [same, exchange_first]
      exact above
    · have before := ordered.others i (by omega) bound same
      rw [child] at before
      rw [exchange_else same (by omega)]
      exact weak.negTrans _ _ _ above before

end UpOrdered

namespace DownOrdered

theorem sink (ordered : DownOrdered less count place hole) {child : Nat} (some : 1 ≤ hole)
    (inside : child ≤ count) (below : child / 2 = hole)
    (larger : ∀ i, 2 ≤ i → i ≤ count → i / 2 = hole → less (place child) (place i) = false) :
    DownOrdered less count (exchange place hole child) child where
  others i large bound notChild notBelow := by
    by_cases same : i = hole
    · rw [same, exchange_first, exchange_else (by omega) (by omega)]
      exact ordered.around (by omega) child inside below
    rw [exchange_else same notChild]
    by_cases sibling : i / 2 = hole
    · rw [sibling, exchange_first]
      exact larger i large bound sibling
    · rw [exchange_else sibling notBelow]
      exact ordered.others i large bound same sibling
  around large i bound under := by
    have before := ordered.others i (by omega) bound (by omega) (by omega)
    rw [under] at before
    rw [below, exchange_first, exchange_else (by omega) (by omega)]
    exact before

theorem fill (ordered : DownOrdered less count place hole) (leaf : count < 2 * hole)
    (before : hole < count) :
    UpOrdered less (count - 1) (update place hole (place count)) hole where
  others i large inside notHole := by
    rw [update_of_ne notHole, update_of_ne (by omega)]
    exact ordered.others i large (by omega) notHole (by omega)
  around large i inside child := absurd child (by omega)

theorem drop (ordered : DownOrdered less count place count) :
    Ordered less (count - 1) place := by
  intro i large inside
  exact ordered.others i large (by omega) (by omega) (by omega)

end DownOrdered

end Heaps
