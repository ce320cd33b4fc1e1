import EmbeddedInfra.Util.BoundedPriorityQueue
import Mathlib.Data.List.Perm.Basic
import Mathlib.Data.List.Sort

/-! `erase_heap` moves a hole through the heap, until the last element fits in it. -/

namespace BoundedPriorityQueues

open List

variable {α : Type} {compare : α → α → Bool} {pushHeap popHeap : List α → List α} {fuel max : Nat}

def filledWith (values : List α) (last : α) (hole i : Nat) : α :=
  if i = hole + 1 ∨ i = 0 then last else values.getD (i - 1) last

@[simp] theorem filledWith_hole (values : List α) (last : α) (hole : Nat) :
    filledWith values last hole (hole + 1) = last := by simp [filledWith]

variable {values : List α} {last : α} {hole i source : Nat}

theorem filledWith_else (notHole : i ≠ hole) (inside : i < values.length) :
    filledWith values last hole (i + 1) = values[i] := by
  simp [filledWith, notHole, inside]

theorem comparesAt_eq {j : Nat} (first : i < values.length) (second : j < values.length) :
    comparesAt compare values i j = compare values[i] values[j] := by
  simp [comparesAt, first, second]

theorem moveInto_eq {position : Nat} (inside : source < values.length) :
    moveInto values position source = values.set position values[source] := by
  simp [moveInto, inside]

@[simp] theorem length_moveInto (values : List α) (position source : Nat) :
    (moveInto values position source).length = values.length := by
  unfold moveInto
  split <;> simp

theorem ordered_iff {place : Nat → α} {count : Nat} (length : values.length = count)
    (same : ∀ i (inside : i < values.length), place (i + 1) = values[i]) :
    IsHeap compare values ↔ Heaps.Ordered compare count place := by
  subst length
  constructor
  · intro heap i large inside
    have := heap (i - 1) (by omega) (by omega)
    rw [comparesAt_eq (by omega) (by omega), ← same, ← same] at this
    rwa [show (i - 1 - 1) / 2 + 1 = i / 2 by omega, show i - 1 + 1 = i by omega] at this
  · intro ordered i some inside
    have := ordered (i + 1) (by omega) (by omega)
    rw [comparesAt_eq (by omega) inside, ← same, ← same]
    rwa [show (i + 1) / 2 = (i - 1) / 2 + 1 by omega] at this

theorem filledWith_moveInto (different : source ≠ hole) (inside : source < values.length)
    (holeInside : hole < values.length) :
    filledWith (moveInto values hole source) last source =
      Heaps.exchange (filledWith values last hole) (hole + 1) (source + 1) := by
  rw [moveInto_eq inside]
  funext i
  by_cases atHole : i = hole + 1
  · subst atHole
    rw [Heaps.exchange_first, filledWith_else different inside,
      filledWith_else (Ne.symm different) (by simpa using holeInside)]
    simp
  by_cases atSource : i = source + 1
  · subst atSource
    rw [Heaps.exchange_second, filledWith_hole, filledWith_hole]
  rw [Heaps.exchange_else atHole atSource]
  unfold filledWith
  have notHole : hole ≠ i - 1 ∨ i = 0 := by omega
  rcases notHole with notHole | zero
  · simp [atHole, atSource, getElem?_set_ne notHole]
  · simp [zero]

theorem set_perm (inside : i < values.length) (x : α) :
    (values[i] :: values.set i x).Perm (x :: values) := by
  calc values[i] :: values.set i x
    _ |>.Perm (values[i] :: x :: values.eraseIdx i) := (set_perm_cons_eraseIdx inside x).cons _
    _ |>.Perm (x :: values[i] :: values.eraseIdx i) := .swap ..
    _ |>.Perm (x :: values) := (getElem_cons_eraseIdx_perm inside).cons _

theorem moveInto_perm (erased : α) (different : source ≠ hole) (inside : source < values.length)
    (holeInside : hole < values.length) :
    ((moveInto values hole source).set source erased).Perm (values.set hole erased) := by
  rw [moveInto_eq inside]
  have sourceInside : source < (values.set hole values[source]).length := by simpa using inside
  have moved := set_perm sourceInside erased
  rw [getElem_set_ne (Ne.symm different)] at moved
  have back := (set_perm holeInside values[source]).symm.cons erased
  have front := (set_perm holeInside erased).symm.cons values[source]
  apply List.Perm.cons_inv (a := values[source])
  apply List.Perm.cons_inv (a := values[hole])
  calc values[hole] :: values[source] :: (values.set hole values[source]).set source erased
    _ |>.Perm (values[hole] :: erased :: values.set hole values[source]) := moved.cons _
    _ |>.Perm (erased :: values[hole] :: values.set hole values[source]) := .swap ..
    _ |>.Perm (erased :: values[source] :: values) := back.symm
    _ |>.Perm (values[source] :: erased :: values) := .swap ..
    _ |>.Perm (values[source] :: values[hole] :: values.set hole erased) := front
    _ |>.Perm (values[hole] :: values[source] :: values.set hole erased) := .swap ..

/-- When the last element fills the hole, what is left is all but the erased element. -/
theorem dropLast_perm (erased : α) (holeInside : hole < values.length - 1)
    (atEnd : values[values.length - 1]? = some last) :
    (erased :: (values.set hole last).dropLast).Perm (values.set hole erased) := by
  have inside : hole < values.length := by omega
  have split : values.set hole last = (values.set hole last).dropLast ++ [last] := by
    have nonempty : values.set hole last ≠ [] := by
      rw [← length_pos_iff, length_set]
      omega
    conv_lhs => rw [← dropLast_append_getLast nonempty]
    rw [getLast_eq_getElem]
    have there := List.getElem?_eq_some_iff.mp atEnd
    simp [getElem_set_ne (show hole ≠ values.length - 1 by omega), there.2]
  have whole := (set_perm inside last).symm.cons erased
  have front := (set_perm inside erased).symm.cons last
  apply List.Perm.cons_inv (a := last)
  apply List.Perm.cons_inv (a := values[hole])
  calc values[hole] :: last :: erased :: (values.set hole last).dropLast
    _ |>.Perm (values[hole] :: erased :: ((values.set hole last).dropLast ++ [last])) :=
        .cons _ ((List.Perm.swap ..).trans ((perm_append_singleton ..).symm.cons _))
    _ |>.Perm (erased :: values[hole] :: values.set hole last) := by
        rw [← split]
        exact .swap ..
    _ |>.Perm (erased :: last :: values) := whole.symm
    _ |>.Perm (last :: erased :: values) := .swap ..
    _ |>.Perm (last :: values[hole] :: values.set hole erased) := front
    _ |>.Perm (values[hole] :: last :: values.set hole erased) := .swap ..

/-- The hole is before the last element. -/
structure HasHole (values : List α) (last : α) (hole : Nat) : Prop where
  before : hole < values.length - 1
  atEnd : values[values.length - 1]? = some last

namespace HasHole

variable {values : List α} {last : α} {hole : Nat}

theorem comparesAt_last (has : HasHole values last hole) {i : Nat} (notHole : i ≠ hole)
    (inside : i < values.length - 1) :
    comparesAt compare values i (values.length - 1) =
        compare (filledWith values last hole (i + 1)) last ∧
      comparesAt compare values (values.length - 1) i =
        compare last (filledWith values last hole (i + 1)) := by
  obtain ⟨within, same⟩ := List.getElem?_eq_some_iff.mp has.atEnd
  rw [comparesAt_eq (by omega) within, comparesAt_eq within (by omega), same,
    filledWith_else notHole (by omega)]
  exact ⟨rfl, rfl⟩

theorem comparesAt_others (has : HasHole values last hole) {i j : Nat} (first : i ≠ hole)
    (second : j ≠ hole) (firstInside : i < values.length - 1) (secondInside : j < values.length - 1) :
    comparesAt compare values i j =
      compare (filledWith values last hole (i + 1)) (filledWith values last hole (j + 1)) := by
  have := has.before
  rw [comparesAt_eq (by omega) (by omega), filledWith_else first (by omega),
    filledWith_else second (by omega)]

theorem move (has : HasHole values last hole) {source : Nat} (inside : source < values.length - 1) :
    HasHole (moveInto values hole source) last source where
  before := by simpa using inside
  atEnd := by
    have := has.before
    rw [length_moveInto, moveInto_eq (by omega), getElem?_set_ne (by omega)]
    exact has.atEnd

/-- What a round finds: a smaller parent, a larger child or the place of the last element. -/
theorem round (weak : Heaps.StrictWeak compare) (has : HasHole values last hole) :
    let place := filledWith values last hole
    (0 < hole ∧ compare (place ((hole - 1) / 2 + 1)) last = true ∧
      eraseHeapRound compare values hole =
        .again (moveInto values hole ((hole - 1) / 2)) ((hole - 1) / 2)) ∨
    (2 ≤ hole + 1 → compare (place ((hole + 1) / 2)) last = false) ∧
      ((∃ child, hole < child ∧ child < values.length - 1 ∧ (child + 1) / 2 = hole + 1 ∧
          compare last (place (child + 1)) = true ∧
          (∀ i, 2 ≤ i → i ≤ values.length - 1 → i / 2 = hole + 1 →
            compare (place (child + 1)) (place i) = false) ∧
          eraseHeapRound compare values hole = .again (moveInto values hole child) child) ∨
        (∀ i, i ≤ values.length - 1 → i / 2 = hole + 1 → compare last (place i) = false) ∧
          eraseHeapRound compare values hole =
            .filled (moveInto values hole (values.length - 1))) := by
  intro place
  have before := has.before
  have children {i : Nat} (child : i / 2 = hole + 1) : i = hole * 2 + 1 + 1 ∨ i = hole * 2 + 2 + 1 := by
    omega
  have parentInside : (hole - 1) / 2 < values.length - 1 := by omega
  unfold eraseHeapRound
  dsimp only
  by_cases above : 0 < hole ∧ compare (place ((hole - 1) / 2 + 1)) last = true
  · left
    obtain ⟨positive, exceeds⟩ := above
    rw [if_pos positive, if_pos]
    · exact ⟨positive, exceeds, rfl⟩
    · rw [(has.comparesAt_last (by omega) parentInside).1]
      exact ⟨by omega, exceeds⟩
  right
  have noParent : ¬ ((if 0 < hole then (hole - 1) / 2 else values.length) ≠ values.length ∧
      comparesAt compare values (if 0 < hole then (hole - 1) / 2 else values.length)
        (values.length - 1) = true) := by
    rintro ⟨isParent, exceeds⟩
    by_cases positive : 0 < hole
    · rw [if_pos positive, (has.comparesAt_last (by omega) parentInside).1] at exceeds
      exact above ⟨positive, exceeds⟩
    · exact isParent (if_neg positive)
  rw [if_neg noParent]
  constructor
  · intro large
    rw [← Bool.not_eq_true]
    intro exceeds
    rw [show (hole + 1) / 2 = (hole - 1) / 2 + 1 by omega] at exceeds
    exact above ⟨by omega, exceeds⟩
  by_cases first : hole * 2 + 1 < values.length - 1
  · have readFirst := @comparesAt_last _ compare _ _ _ has (hole * 2 + 1) (by omega) first
    by_cases second : hole * 2 + 2 < values.length - 1
    · have readSecond := @comparesAt_last _ compare _ _ _ has (hole * 2 + 2) (by omega) second
      have readBoth := @comparesAt_others _ compare _ _ _ has (hole * 2 + 1) (hole * 2 + 2)
        (by omega) (by omega) first second
      rw [if_pos first, if_pos second, readFirst.2, readSecond.2, readBoth]
      by_cases sinksFirst : compare last (place (hole * 2 + 1 + 1)) = true
      · rw [if_pos ⟨by omega, sinksFirst⟩]
        by_cases larger : compare (place (hole * 2 + 1 + 1)) (place (hole * 2 + 2 + 1)) = true
        · rw [if_pos ⟨by omega, larger⟩]
          left
          refine ⟨hole * 2 + 2, by omega, second, by omega, ?_, ?_, rfl⟩
          · by_contra not
            rw [Bool.not_eq_true] at not
            have := weak.negTrans _ _ _ not (weak.asymm _ _ larger)
            rw [this] at sinksFirst
            exact absurd sinksFirst nofun
          · intro i _ _ child
            obtain rfl | rfl := children child
            · exact weak.asymm _ _ larger
            · exact weak.irrefl _
        · rw [if_neg (fun both => larger both.2)]
          left
          refine ⟨hole * 2 + 1, by omega, first, by omega, sinksFirst, ?_, rfl⟩
          intro i _ _ child
          obtain rfl | rfl := children child
          · exact weak.irrefl _
          · exact Bool.not_eq_true _ ▸ larger
      · rw [if_neg (fun both => sinksFirst both.2)]
        rw [Bool.not_eq_true] at sinksFirst
        by_cases sinksSecond : compare last (place (hole * 2 + 2 + 1)) = true
        · rw [if_pos ⟨by omega, sinksSecond⟩]
          left
          refine ⟨hole * 2 + 2, by omega, second, by omega, sinksSecond, ?_, rfl⟩
          intro i _ _ child
          obtain rfl | rfl := children child
          · exact weak.negTrans _ _ _ (weak.asymm _ _ sinksSecond) sinksFirst
          · exact weak.irrefl _
        · rw [if_neg (fun both => sinksSecond both.2)]
          rw [Bool.not_eq_true] at sinksSecond
          right
          refine ⟨?_, rfl⟩
          intro i _ child
          obtain rfl | rfl := children child
          · exact sinksFirst
          · exact sinksSecond
    · rw [if_pos first, if_neg second, readFirst.2]
      simp only [ne_eq, not_true_eq_false, false_and, if_false]
      by_cases sinks : compare last (place (hole * 2 + 1 + 1)) = true
      · rw [if_pos ⟨by omega, sinks⟩]
        left
        refine ⟨hole * 2 + 1, by omega, first, by omega, sinks, ?_, rfl⟩
        intro i _ inside child
        obtain rfl | rfl := children child
        · exact weak.irrefl _
        · omega
      · rw [if_neg (fun both => sinks both.2)]
        right
        refine ⟨?_, rfl⟩
        intro i inside child
        obtain rfl | rfl := children child
        · exact Bool.not_eq_true _ ▸ sinks
        · omega
  · rw [if_neg first, if_neg (show ¬ hole * 2 + 2 < values.length - 1 by omega)]
    simp only [ne_eq, not_true_eq_false, false_and, if_false]
    right
    refine ⟨?_, trivial⟩
    intro i inside child
    have := children child
    omega

/-- The loop ends with a heap of the other elements before the last place. -/
def Ends (compare : α → α → Bool) (fuel : Nat) (values : List α) (hole : Nat) (erased : α) : Prop :=
  ∃ result, eraseHeapLoop compare fuel values hole = some result ∧ result.length = values.length ∧
    IsHeap compare result.dropLast ∧ (erased :: result.dropLast).Perm (values.set hole erased)

theorem ends_of_filled (has : HasHole values last hole) (erased : α)
    (ordered : Heaps.Ordered compare (values.length - 1) (filledWith values last hole))
    (filled : eraseHeapRound compare values hole =
      .filled (moveInto values hole (values.length - 1))) :
    Ends compare (fuel + 1) values hole erased := by
  have before := has.before
  obtain ⟨within, same⟩ := List.getElem?_eq_some_iff.mp has.atEnd
  have result : moveInto values hole (values.length - 1) = values.set hole last := by
    rw [moveInto_eq within, same]
  rw [result] at filled
  refine ⟨values.set hole last, by rw [eraseHeapLoop, filled], by simp, ?_,
    dropLast_perm erased before has.atEnd⟩
  refine (ordered_iff (by simp) fun i inside => ?_).mpr ordered
  rw [length_dropLast, length_set] at inside
  rw [getElem_dropLast]
  by_cases atHole : i = hole
  · subst atHole
    simp
  · rw [filledWith_else atHole (by omega), getElem_set_ne (Ne.symm atHole)]

theorem ends_of_again {source : Nat} (has : HasHole values last hole) (erased : α)
    (different : source ≠ hole) (inside : source < values.length - 1)
    (again : eraseHeapRound compare values hole = .again (moveInto values hole source) source)
    (ends : Ends compare fuel (moveInto values hole source) source erased) :
    Ends compare (fuel + 1) values hole erased := by
  obtain ⟨result, loop, length, heap, perm⟩ := ends
  have before := has.before
  refine ⟨result, by rw [eraseHeapLoop, again]; exact loop, by rw [length, length_moveInto], heap, ?_⟩
  exact perm.trans (moveInto_perm erased different (by omega) (by omega))

variable {fuel : Nat}

theorem rises (weak : Heaps.StrictWeak compare) (erased : α) :
    ∀ {values : List α} {hole : Nat}, HasHole values last hole → hole < fuel →
      Heaps.UpOrdered compare (values.length - 1) (filledWith values last hole) (hole + 1) →
        Ends compare fuel values hole erased := by
  induction fuel with
  | zero =>
    intro values hole _ enough
    exact absurd enough (Nat.not_lt_zero _)
  | succ fuel ih =>
    intro values hole has enough ordered
    have before := has.before
    rcases has.round weak with ⟨positive, exceeds, again⟩ | ⟨fits, found⟩
    · have different : (hole - 1) / 2 ≠ hole := by omega
      apply has.ends_of_again erased different (by omega) again
      apply ih (has.move (by omega)) (by omega)
      rw [length_moveInto, filledWith_moveInto different (by omega) (by omega),
        show (hole - 1) / 2 + 1 = (hole + 1) / 2 by omega]
      apply ordered.rise weak (by omega) (by omega)
      rw [show (hole + 1) / 2 = (hole - 1) / 2 + 1 by omega, filledWith_hole]
      exact weak.asymm _ _ exceeds
    · rcases found with ⟨child, above, inside, below, sinks, -⟩ | ⟨-, filled⟩
      · have := ordered.others (child + 1) (by omega) (by omega) (by omega)
        rw [below, filledWith_hole, sinks] at this
        exact absurd this nofun
      · apply has.ends_of_filled erased _ filled
        apply ordered.finish
        intro large
        rw [filledWith_hole]
        exact fits large

theorem sinks (weak : Heaps.StrictWeak compare) (erased : α) :
    ∀ {values : List α} {hole : Nat}, HasHole values last hole →
      values.length - 1 ≤ hole + fuel →
      Heaps.DownOrdered compare (values.length - 1) (filledWith values last hole) (hole + 1) →
      (2 ≤ hole + 1 → compare (filledWith values last hole ((hole + 1) / 2)) last = false) →
        Ends compare fuel values hole erased := by
  induction fuel with
  | zero =>
    intro values hole has enough
    have := has.before
    omega
  | succ fuel ih =>
    intro values hole has enough ordered parentFits
    have before := has.before
    rcases has.round weak with ⟨positive, exceeds, -⟩ | ⟨-, found⟩
    · have := parentFits (by omega)
      rw [show (hole + 1) / 2 = (hole - 1) / 2 + 1 by omega, exceeds] at this
      exact absurd this nofun
    · rcases found with ⟨child, above, inside, below, exceeds, larger, again⟩ | ⟨fits, filled⟩
      · have different : child ≠ hole := by omega
        apply has.ends_of_again erased different inside again
        have moved := @filledWith_moveInto _ values last hole child different (by omega)
          (by omega)
        apply ih (has.move inside)
        · rw [length_moveInto]
          omega
        · rw [length_moveInto, moved]
          exact ordered.sink (by omega) (by omega) below larger
        · intro _
          rw [moved, below, Heaps.exchange_first]
          exact weak.asymm _ _ exceeds
      · apply has.ends_of_filled erased _ filled
        intro i large inside
        by_cases atHole : i = hole + 1
        · subst atHole
          rw [filledWith_hole]
          exact parentFits large
        by_cases child : i / 2 = hole + 1
        · rw [child, filledWith_hole]
          exact fits i inside child
        · exact ordered.others i large inside atHole child

theorem ends (weak : Heaps.StrictWeak compare) (erased : α) (has : HasHole values last hole)
    (enough : values.length ≤ fuel)
    (ordered : Heaps.DownOrdered compare (values.length - 1) (filledWith values last hole)
      (hole + 1)) :
    Ends compare fuel values hole erased := by
  have before := has.before
  rcases has.round weak with ⟨positive, exceeds, again⟩ | ⟨fits, -⟩
  · have up : Heaps.UpOrdered compare (values.length - 1) (filledWith values last hole) (hole + 1) := by
      refine ⟨fun i large inside notHole => ?_, ordered.around⟩
      by_cases child : i / 2 = hole + 1
      · have around := ordered.around (by omega) i inside child
        rw [show (hole + 1) / 2 = (hole - 1) / 2 + 1 by omega] at around
        rw [child, filledWith_hole]
        exact weak.negTrans _ _ _ (weak.asymm _ _ exceeds) around
      · exact ordered.others i large inside notHole child
    exact has.rises weak erased (by omega) up
  · exact has.sinks weak erased (by omega) ordered fits

end HasHole

theorem eraseHeap_spec (weak : Heaps.StrictWeak compare) {position : Nat}
    (heap : IsHeap compare values) (inside : position < values.length)
    (enough : values.length ≤ fuel) :
    ∃ result, eraseHeap compare fuel values position = some result ∧
      result.length = values.length ∧ IsHeap compare result.dropLast ∧
      (values[position] :: result.dropLast).Perm values := by
  obtain ⟨last, atEnd⟩ : ∃ last, values[values.length - 1]? = some last :=
    ⟨values[values.length - 1], by simp⟩
  obtain ⟨within, same⟩ := List.getElem?_eq_some_iff.mp atEnd
  have tree : Heaps.Ordered compare values.length (fun i => values.getD (i - 1) last) :=
    (ordered_iff rfl fun i inside => by simp [inside]).mp heap
  unfold eraseHeap
  by_cases several : 1 < values.length
  · rw [if_pos several]
    by_cases before : position < values.length - 1
    · have has : HasHole values last position := ⟨before, atEnd⟩
      have down : Heaps.DownOrdered compare (values.length - 1) (filledWith values last position)
          (position + 1) := by
        have whole := tree.down weak (position + 1)
        have same {i : Nat} (notHole : i ≠ position + 1) (positive : i ≠ 0) :
            filledWith values last position i = values.getD (i - 1) last := by
          simp [filledWith, notHole, positive]
        constructor
        · intro i large inside notHole notChild
          rw [same notChild (by omega), same notHole (by omega)]
          exact whole.others i large (by omega) notHole notChild
        · intro large i inside child
          rw [same (by omega) (by omega), same (by omega) (by omega)]
          exact whole.around large i (by omega) child
      obtain ⟨result, loop, length, heap, perm⟩ := has.ends weak values[position] enough down
      rw [set_getElem_self] at perm
      exact ⟨result, loop, length, heap, perm⟩
    · -- the last element is erased: it fits where it is
      obtain rfl : position = values.length - 1 := by omega
      obtain ⟨rounds, rfl⟩ : ∃ rounds, fuel = rounds + 1 := ⟨fuel - 1, by omega⟩
      have filled : eraseHeapRound compare values (values.length - 1) = .filled values := by
        unfold eraseHeapRound
        dsimp only
        rw [if_pos (show 0 < values.length - 1 by omega), heap _ (by omega) within,
          if_neg (show ¬ (values.length - 1) * 2 + 1 < values.length - 1 by omega),
          if_neg (show ¬ (values.length - 1) * 2 + 2 < values.length - 1 by omega)]
        simp [moveInto_eq within]
      have split : values.dropLast ++ [values[values.length - 1]] = values := by
        have nonempty : values ≠ [] := length_pos_iff.mp (by omega)
        rw [← getLast_eq_getElem nonempty, dropLast_append_getLast]
      refine ⟨values, by rw [eraseHeapLoop, filled], rfl, ?_, ?_⟩
      · have shorter : Heaps.Ordered compare (values.length - 1) (fun i => values.getD (i - 1) last) :=
          fun i large inside => tree i large (by omega)
        refine (ordered_iff (by simp) fun i inside => ?_).mpr shorter
        rw [length_dropLast] at inside
        simp [getElem_dropLast, show i < values.length by omega]
      · conv_rhs => rw [← split]
        exact (perm_append_singleton ..).symm
  · rw [if_neg several]
    obtain ⟨only, rfl⟩ : ∃ only, values = [only] := length_eq_one_iff.mp (by omega)
    obtain rfl : position = 0 := by simpa using inside
    refine ⟨[only], rfl, rfl, ?_, .refl _⟩
    intro i _ inside
    exact absurd inside (Nat.not_lt_zero _)

theorem top_spec (weak : Heaps.StrictWeak compare) (heap : IsHeap compare values) {first : α}
    (isTop : top values = some first) (x : α) (member : x ∈ values) :
    compare first x = false := by
  obtain ⟨i, inside, rfl⟩ := mem_iff_getElem.mp member
  have tree : Heaps.Ordered compare values.length (fun i => values.getD (i - 1) first) :=
    (ordered_iff rfl fun i inside => by simp [inside]).mp heap
  have above := tree.top weak (i + 1) (by omega) inside
  rw [top, head?_eq_getElem?] at isTop
  simpa [isTop, inside] using above

theorem pop_spec {first : α} {rest : List α}
    (algorithms : HeapAlgorithms compare pushHeap popHeap) (heap : IsHeap compare (first :: rest)) :
    IsHeap compare (popHeap (first :: rest)).dropLast ∧
      (first :: (popHeap (first :: rest)).dropLast).Perm (first :: rest) := by
  have last := algorithms.pop_last first rest heap
  have split : (popHeap (first :: rest)).dropLast ++ [first] = popHeap (first :: rest) :=
    dropLast_append_getLast? first last
  constructor
  · exact algorithms.pop_isHeap first rest heap
  · calc first :: (popHeap (first :: rest)).dropLast
      _ |>.Perm ((popHeap (first :: rest)).dropLast ++ [first]) := (perm_append_singleton ..).symm
      _ |>.Perm (first :: rest) := by
          rw [split]
          exact algorithms.pop_perm _

theorem perform_spec (weak : Heaps.StrictWeak compare)
    (algorithms : HeapAlgorithms compare pushHeap popHeap) (enough : max ≤ fuel)
    (heap : IsHeap compare values) (fits : values.length ≤ max) {call : Call α}
    (allowed : Allowed max values call) :
    ∃ next, perform compare pushHeap popHeap fuel max values call = some next ∧
      IsHeap compare next ∧ next.length ≤ max ∧
      (values ++ entering call).Perm (next ++ leaving values call) := by
  have pushes (value : α) (room : values.length < max) :
      IsHeap compare (pushHeap (values ++ [value])) ∧ (pushHeap (values ++ [value])).length ≤ max ∧
        (values ++ [value]).Perm (pushHeap (values ++ [value]) ++ []) := by
    have perm := algorithms.push_perm (values ++ [value])
    refine ⟨algorithms.push_isHeap values value heap, ?_, ?_⟩
    · rw [perm.length_eq, length_append]
      exact room
    · rw [append_nil]
      exact perm.symm
  cases call with
  | push value | emplace value => exact ⟨_, if_pos allowed, pushes value allowed⟩
  | pop =>
    cases values with
    | nil => exact absurd rfl allowed
    | cons first rest =>
      obtain ⟨isHeap, perm⟩ := pop_spec algorithms heap
      refine ⟨_, rfl, isHeap, ?_, ?_⟩
      · have := perm.length_eq
        simp only [length_cons] at this fits
        omega
      · rw [entering, append_nil]
        exact perm.symm.trans (perm_append_singleton ..).symm
  | erase position =>
    obtain ⟨result, erases, length, isHeap, perm⟩ :=
      eraseHeap_spec weak heap allowed (by omega : values.length ≤ fuel)
    have inside : position < values.length := allowed
    refine ⟨result.dropLast, ?_, isHeap, ?_, ?_⟩
    · simp [perform, erase, inside, erases]
    · rw [length_dropLast]
      omega
    · rw [entering, append_nil, leaving, getElem?_eq_getElem inside]
      exact perm.symm.trans (perm_append_singleton ..).symm

theorem allowed_of_perform {next : List α} {call : Call α}
    (performs : perform compare pushHeap popHeap fuel max values call = some next) :
    Allowed max values call := by
  cases call with
  | push value | emplace value =>
    rw [perform, push] at performs
    split_ifs at performs with room
    exact room
  | pop =>
    rintro rfl
    exact absurd performs nofun
  | erase position =>
    rw [perform, erase] at performs
    split_ifs at performs with inside
    exact inside

/-- The values are a heap of what was pushed and not removed, and every allowed call returns. -/
def Correct (compare : α → α → Bool) (pushHeap popHeap : List α → List α) (fuel max : Nat)
    (history : History α) : Prop :=
  IsHeap compare history.values ∧
    (∀ first, top history.values = some first → ∀ x ∈ history.values, compare first x = false) ∧
    history.pushed.Perm (history.values ++ history.removed) ∧
    ∀ call, Allowed max history.values call →
      (history.step compare pushHeap popHeap fuel max call).isSome = true

theorem stays_heap (weak : Heaps.StrictWeak compare)
    (algorithms : HeapAlgorithms compare pushHeap popHeap) (enough : max ≤ fuel)
    {history : History α}
    (reached : Runs.Reachable (History.step compare pushHeap popHeap fuel max) Runs.anyStep {}
      history) :
    Correct compare pushHeap popHeap fuel max history := by
  have kept : IsHeap compare history.values ∧ history.values.length ≤ max ∧
      history.pushed.Perm (history.values ++ history.removed) := by
    refine @Runs.Reachable.invariant _ _ _ _ _ (fun h => IsHeap compare h.values ∧
      h.values.length ≤ max ∧ h.pushed.Perm (h.values ++ h.removed)) ?_ ?_ _ reached
    · exact ⟨fun i _ inside => absurd inside (Nat.not_lt_zero _), Nat.zero_le _, .refl _⟩
    · rintro before call after ⟨heap, fits, perm⟩ - performs
      obtain ⟨values, performed, rfl⟩ := Option.map_eq_some_iff.mp performs
      obtain ⟨next, performs, isHeap, short, changed⟩ := perform_spec weak algorithms enough heap fits
        (allowed_of_perform performed)
      obtain rfl : next = values := Option.some.inj (performs.symm.trans performed)
      refine ⟨isHeap, short, ?_⟩
      calc before.pushed ++ entering call
        _ |>.Perm (before.values ++ before.removed ++ entering call) := perm.append_right _
        _ |>.Perm (before.values ++ entering call ++ before.removed) := by
            rw [append_assoc, append_assoc]
            exact perm_append_comm.append_left _
        _ |>.Perm (next ++ leaving before.values call ++ before.removed) := changed.append_right _
        _ |>.Perm (next ++ (before.removed ++ leaving before.values call)) := by
            rw [append_assoc]
            exact perm_append_comm.append_left next
  obtain ⟨heap, fits, perm⟩ := kept
  refine ⟨heap, fun first isTop => top_spec weak heap isTop, perm, fun call allowed => ?_⟩
  obtain ⟨next, performs, -⟩ := perform_spec weak algorithms enough heap fits allowed
  rw [History.step, performs]
  rfl

def numbersBelow (a b : Nat) : Bool := decide (a < b)

def sortDown (values : List Nat) : List Nat := values.insertionSort (· ≥ ·)

/-- The first element goes behind the others, which are sorted. -/
def popSorted : List Nat → List Nat
  | [] => []
  | first :: rest => sortDown rest ++ [first]

theorem isHeap_sortDown (values : List Nat) : IsHeap numbersBelow (sortDown values) := by
  have sorted : (sortDown values).Pairwise (· ≥ ·) := pairwise_insertionSort (· ≥ ·) values
  intro i some inside
  rw [comparesAt_eq (by omega) inside]
  have := pairwise_iff_getElem.mp sorted ((i - 1) / 2) i (by omega) inside (by omega)
  simpa [numbersBelow] using this

theorem heapAlgorithms_sorted : HeapAlgorithms numbersBelow sortDown popSorted where
  push_perm values := perm_insertionSort ..
  push_isHeap values value _ := isHeap_sortDown _
  pop_perm values := by
    cases values with
    | nil => exact .refl _
    | cons first rest =>
      exact (perm_append_singleton ..).trans ((perm_insertionSort ..).cons first)
  pop_last first rest _ := by simp [popSorted]
  pop_isHeap first rest _ := by
    rw [popSorted, dropLast_concat]
    exact isHeap_sortDown rest

/-- Of three numbers the middle one is erased and the first one is popped. -/
theorem stays_heap_three : Correct numbersBelow sortDown popSorted 4 4 ⟨[3], [5, 4, 3], [4, 5]⟩ :=
  stays_heap
    { asymm := by simp [numbersBelow]; omega
      negTrans := by simp [numbersBelow]; omega }
    heapAlgorithms_sorted (Nat.le_refl 4)
    (Runs.reachable_of_execute [Call.push 5, .emplace 4, .push 3, .erase 1, .pop] _ _ .refl rfl)

theorem pops_spec (weak : Heaps.StrictWeak compare)
    (algorithms : HeapAlgorithms compare pushHeap popHeap) (heap : IsHeap compare values)
    (pushed removed : List α) :
    ∃ popped, Runs.execute (History.step compare pushHeap popHeap fuel max)
        ⟨values, pushed, removed⟩ (replicate values.length .pop) =
          some ⟨[], pushed, removed ++ popped⟩ ∧
      popped.Perm values ∧ popped.Pairwise fun first second => compare first second = false := by
  generalize count : values.length = n
  induction n generalizing values removed with
  | zero =>
    obtain rfl := length_eq_zero_iff.mp count
    exact ⟨[], by simp [Runs.execute], .refl _, .nil⟩
  | succ n ih =>
    obtain ⟨first, rest, rfl⟩ := exists_cons_of_length_eq_add_one count
    obtain ⟨heap', perm⟩ := pop_spec algorithms heap
    have shorter := perm.length_eq
    rw [count, length_cons, Nat.succ_inj] at shorter
    obtain ⟨popped, pops, same, descending⟩ := ih heap' (removed ++ [first]) shorter
    have whole := (same.cons first).trans perm
    refine ⟨first :: popped, ?_, whole, descending.cons fun x later => ?_⟩
    · simpa [replicate_succ, Runs.execute, History.step, perform, pop, top, entering, leaving] using
        pops
    · exact top_spec weak heap rfl x (whole.subset (mem_cons_of_mem _ later))

/-- After any calls the values are popped in descending order, until the queue is empty. -/
theorem pops_descending (weak : Heaps.StrictWeak compare)
    (algorithms : HeapAlgorithms compare pushHeap popHeap) (enough : max ≤ fuel) {history : History α}
    (reached : Runs.Reachable (History.step compare pushHeap popHeap fuel max) Runs.anyStep {}
      history) :
    ∃ popped, Runs.execute (History.step compare pushHeap popHeap fuel max) history
        (replicate history.values.length .pop) =
          some ⟨[], history.pushed, history.removed ++ popped⟩ ∧
      popped.Perm history.values ∧ popped.Pairwise fun first second => compare first second = false := by
  suffices kept : IsHeap compare history.values ∧ history.values.length ≤ max from
    pops_spec weak algorithms kept.1 ..
  refine @Runs.Reachable.invariant _ _ _ _ _
    (fun h => IsHeap compare h.values ∧ h.values.length ≤ max) ?_ ?_ _ reached
  · exact ⟨fun i _ inside => absurd inside (Nat.not_lt_zero _), Nat.zero_le _⟩
  · rintro before call after ⟨heap, fits⟩ - performs
    obtain ⟨values, performed, rfl⟩ := Option.map_eq_some_iff.mp performs
    obtain ⟨next, performs, isHeap, short, -⟩ := perform_spec weak algorithms enough heap fits
      (allowed_of_perform performed)
    obtain rfl : next = values := Option.some.inj (performs.symm.trans performed)
    exact ⟨isHeap, short⟩

theorem pops_descending_three : ∃ popped,
    Runs.execute (History.step numbersBelow sortDown popSorted 3 3) ⟨[5, 4, 3], [3, 5, 4], []⟩
      [.pop, .pop, .pop] = some ⟨[], [3, 5, 4], popped⟩ ∧
    popped.Pairwise fun first second => numbersBelow first second = false := by
  obtain ⟨popped, pops, -, descending⟩ := pops_descending
    { asymm := by simp [numbersBelow]; omega
      negTrans := by simp [numbersBelow]; omega }
    heapAlgorithms_sorted (Nat.le_refl 3)
    (Runs.reachable_of_execute [Call.push 3, .push 5, .push 4] _ _ .refl rfl)
  exact ⟨popped, pops, descending⟩

end BoundedPriorityQueues
