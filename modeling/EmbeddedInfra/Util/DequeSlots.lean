import EmbeddedInfra.Util.BoundedDeque
import Mathlib.Order.Nat

/-! The slots of `BoundedDeque` in their order from the start on, and what the loops do to them. -/

namespace BoundedDeques

open BoundedDeque Function

variable {τ : Type} {d : BoundedDeque τ} {f g : Nat → Option τ} {movedFrom : τ → τ}

/-- The slots in their order from the start on. -/
structure Views (d : BoundedDeque τ) (f : Nat → Option τ) : Prop where
  started : 0 < d.maxSize → d.start < d.maxSize
  slot : ∀ e < d.maxSize, d.slots (d.index e) = f e

structure Keeps (d d' : BoundedDeque τ) : Prop where
  maxSize : d'.maxSize = d.maxSize
  start : d'.start = d.start
  numAllocated : d'.numAllocated = d.numAllocated

namespace Keeps

theorem refl : Keeps d d := ⟨rfl, rfl, rfl⟩

theorem trans {d₁ d₂ : BoundedDeque τ} (front : Keeps d d₁) (back : Keeps d₁ d₂) : Keeps d d₂ :=
  ⟨back.maxSize.trans front.maxSize, back.start.trans front.start,
    back.numAllocated.trans front.numAllocated⟩

theorem put (slot : Nat) (object : Option τ) : Keeps d (d.put slot object) := ⟨rfl, rfl, rfl⟩

end Keeps

theorem index_inj {a b : Nat} (first : a < d.maxSize)
    (second : b < d.maxSize) : d.index a = d.index b ↔ a = b := by
  rw [index, index]
  split_ifs <;> omega

namespace Views

theorem congr (views : Views d f) (same : ∀ e < d.maxSize, f e = g e) : Views d g :=
  ⟨views.started, fun e inside => (views.slot e inside).trans (same e inside)⟩

theorem counted (views : Views d f) (number : Nat) :
    Views { d with numAllocated := number } f :=
  ⟨views.started, views.slot⟩

variable {e : Nat} {old : τ}

theorem put (views : Views d f) (inside : e < d.maxSize) (object : Option τ) :
    Views (d.put (d.index e) object) (update f e object) where
  started := views.started
  slot i inside' := by
    change update d.slots (d.index e) object (d.index i) = _
    rw [update_apply, update_apply, views.slot i inside']
    exact if_congr (index_inj inside' inside) rfl rfl

theorem rotate (views : Views d f) {shift : Nat} (bound : shift ≤ d.maxSize) :
    Views { d with start := d.index shift } fun e =>
      f (if e + shift < d.maxSize then e + shift else e + shift - d.maxSize) where
  started some := by
    have started := views.started some
    change d.index shift < d.maxSize
    rw [index]
    split_ifs <;> omega
  slot e inside := by
    change e < d.maxSize at inside
    have started := views.started (by omega)
    rw [← views.slot _ (by split_ifs <;> omega)]
    change d.slots _ = d.slots _
    congr 1
    simp only [index]
    split_ifs <;> omega

theorem index_zero (views : Views d f) (some : 0 < d.maxSize) : d.index 0 = d.start := by
  rw [index, Nat.add_zero, if_pos (views.started some)]

/-! What is done with one slot. -/

theorem construct (views : Views d f) (inside : e < d.maxSize) (free : f e = none) (value : τ) :
    d.construct (d.index e) value = some (d.put (d.index e) (some value)) := by
  rw [BoundedDeque.construct, views.slot e inside, free]

theorem assign (views : Views d f) (inside : e < d.maxSize) (live : f e = some old) (value : τ) :
    d.assign (d.index e) value = some (d.put (d.index e) (some value)) := by
  rw [BoundedDeque.assign, views.slot e inside, live]
  rfl

theorem destruct (views : Views d f) (inside : e < d.maxSize) (live : f e = some old) :
    d.destruct (d.index e) = some (d.put (d.index e) none) := by
  rw [BoundedDeque.destruct, views.slot e inside, live]
  rfl

theorem constructFrom (views : Views d f) (movedFrom : τ → τ) {source : Nat}
    (inside : e < d.maxSize) (inside' : source < d.maxSize) (free : f e = none) {value : τ}
    (live : f source = some value) :
    d.constructFrom movedFrom (d.index e) (d.index source) =
      some ((d.put (d.index e) (some value)).put (d.index source) (some (movedFrom value))) := by
  rw [BoundedDeque.constructFrom, views.slot source inside', live, Option.bind_some,
    views.construct inside free]
  rfl

theorem assignFrom (views : Views d f) (movedFrom : τ → τ) {source : Nat} (inside : e < d.maxSize)
    (inside' : source < d.maxSize) {value : τ} (target : f e = some old)
    (live : f source = some value) :
    d.assignFrom movedFrom (d.index e) (d.index source) =
      some ((d.put (d.index e) (some value)).put (d.index source) (some (movedFrom value))) := by
  rw [BoundedDeque.assignFrom, views.slot source inside', live, Option.bind_some,
    views.assign inside target]
  rfl

end Views

theorem fill_views {write : Nat → τ → BoundedDeque τ → Option (BoundedDeque τ)} {live : Bool}
    (writes : ∀ (d : BoundedDeque τ) (g : Nat → Option τ) (e : Nat) (value : τ), Views d g →
      e < d.maxSize → (g e).isSome = live →
      write (d.index e) value d = some (d.put (d.index e) (some value)))
    (values : List τ) (element : Nat) (views : Views d f)
    (inside : element + values.length ≤ d.maxSize)
    (ready : ∀ e, element ≤ e → e < element + values.length → (f e).isSome = live) :
    ∃ d', fill write element values d = some d' ∧ Keeps d d' ∧ Views d' fun e =>
      if element ≤ e ∧ e < element + values.length then values[e - element]? else f e := by
  induction values generalizing element d f with
  | nil =>
    refine ⟨d, rfl, .refl, views.congr ?_⟩
    intro e _
    rw [if_neg]
    rw [List.length_nil]
    omega
  | cons value values ih =>
    rw [List.length_cons] at inside ready
    have first := writes d f element value views (by omega) (ready element le_rfl (by omega))
    have ⟨d', filled, keeps, views'⟩ := ih (element + 1)
      (views.put (show element < d.maxSize by omega) (some value))
      (show element + 1 + values.length ≤ d.maxSize by omega) (by
        intro e later before
        rw [update_of_ne (by omega)]
        exact ready e (by omega) (by omega))
    refine ⟨d', by rw [fill, first, Option.bind_some]; exact filled,
      (Keeps.put _ _).trans keeps, views'.congr ?_⟩
    intro e _
    rw [List.length_cons]
    by_cases here : e = element
    · rw [if_neg (by omega), if_pos (by omega), here, update_self, Nat.sub_self]
      rfl
    by_cases later : element + 1 ≤ e ∧ e < element + 1 + values.length
    · have next : e - element = e - (element + 1) + 1 := by omega
      rw [if_pos later, if_pos (by omega), next, List.getElem?_cons_succ]
    · rw [if_neg later, if_neg (by omega), update_of_ne here]

theorem construct_writes (d : BoundedDeque τ) (g : Nat → Option τ) (e : Nat) (value : τ)
    (views : Views d g) (inside : e < d.maxSize) (free : (g e).isSome = false) :
    d.construct (d.index e) value = some (d.put (d.index e) (some value)) :=
  views.construct inside (Option.isNone_iff_eq_none.mp (by simpa using free)) value

theorem assign_writes (d : BoundedDeque τ) (g : Nat → Option τ) (e : Nat) (value : τ)
    (views : Views d g) (inside : e < d.maxSize) (live : (g e).isSome = true) :
    d.assign (d.index e) value = some (d.put (d.index e) (some value)) :=
  have ⟨_, found⟩ := Option.isSome_iff_exists.mp live
  views.assign inside found value

/-- The elements up to position `top` that have been moved up by `n`, of those after `copied`. -/
def shifted (movedFrom : τ → τ) (n top copied : Nat) (f : Nat → Option τ) : Nat → Option τ :=
  fun e =>
    if copied < e ∧ e ≤ top then f (e - n)
    else if copied < e + n ∧ e + n ≤ top then (f e).map movedFrom
    else f e

theorem shifted_none (n top : Nat) : shifted movedFrom n top top f = f := by
  funext e
  rw [shifted, if_neg (by omega), if_neg (by omega)]

variable {n top copied : Nat}

theorem shifted_step (some : 1 ≤ n) (low : n ≤ copied) (high : copied ≤ top) :
    update (update (shifted movedFrom n top copied f) copied (f (copied - n)))
        (copied - n) ((f (copied - n)).map movedFrom) =
      shifted movedFrom n top (copied - 1) f := by
  funext e
  simp only [update_apply, shifted]
  by_cases source : e = copied - n
  · rw [if_pos source, if_neg (by omega), if_pos (by omega), source]
  rw [if_neg source]
  by_cases target : e = copied
  · rw [if_pos target, if_pos (by omega), target]
  rw [if_neg target]
  refine if_congr (by omega) rfl (if_congr (by omega) rfl rfl)

/-- The elements at the positions before `number`, and no others. -/
structure Live (f : Nat → Option τ) (number : Nat) : Prop where
  some : ∀ e < number, ∃ value, f e = some value
  none : ∀ e, number ≤ e → f e = none

theorem moved_views (views : Views d (shifted movedFrom n top copied f)) (some : 1 ≤ n)
    (low : n ≤ copied) (high : copied ≤ top) (fits : top < d.maxSize) {value : τ}
    (found : f (copied - n) = Option.some value) :
    Views ((d.put (d.index copied) (Option.some value)).put (d.index (copied - n))
      (Option.some (movedFrom value))) (shifted movedFrom n top (copied - 1) f) := by
  rw [← shifted_step some low high, found]
  exact (views.put (show copied < d.maxSize by omega) _).put
    (show copied - n < d.maxSize by omega) _

theorem source_eq (some : 1 ≤ n) (low : n ≤ copied) :
    shifted movedFrom n top copied f (copied - n) = f (copied - n) := by
  rw [shifted, if_neg (by omega), if_neg (by omega)]

section

variable (copies : Nat) (views : Views d (shifted movedFrom n top copied f))
  (live : Live f d.numAllocated) (some : 1 ≤ n) (fits : top < d.maxSize)
  (last : top + 1 = d.numAllocated + n) (high : copied ≤ top) (room : copies + n ≤ copied + 1)

include copies views live some fits last high room

theorem moveUpConstruct_views :
    ∃ left copied' d', moveUpConstruct movedFrom n copies copied d =
        Option.some (left, copied', d') ∧ Keeps d d' ∧
      Views d' (shifted movedFrom n top copied' f) ∧ copied' + copies = copied + left ∧
      (left = 0 ∨ copied' < d.numAllocated) ∧ left ≤ copies := by
  induction copies generalizing copied d with
  | zero => exact ⟨0, copied, d, rfl, .refl, views, rfl, Or.inl rfl, le_rfl⟩
  | succ copies ih =>
    rw [moveUpConstruct]
    by_cases above : d.numAllocated ≤ copied
    · have ⟨value, found⟩ := live.some (copied - n) (by omega)
      have free : shifted movedFrom n top copied f copied = Option.none := by
        rw [shifted, if_neg (by omega), live.none copied above]
        split <;> rfl
      have moves := views.constructFrom movedFrom
        (show copied < d.maxSize by omega) (show copied - n < d.maxSize by omega) free
        ((source_eq some (by omega)).trans found)
      have ⟨left, copied', d', returns, keeps, views', count, done, less⟩ :=
        ih (moved_views views some (by omega) high fits found) live fits last (by omega)
          (by omega)
      rw [if_pos above, moves, Option.bind_some]
      refine ⟨left, copied', d', returns, (Keeps.put _ _).trans ((Keeps.put _ _).trans keeps),
        views', by omega, done, by omega⟩
    · rw [if_neg above]
      exact ⟨copies + 1, copied, d, rfl, .refl, views, rfl, Or.inr (by omega), le_rfl⟩

theorem moveUpAssign_views (below : copies = 0 ∨ copied < d.numAllocated) :
    ∃ d', moveUpAssign movedFrom n copies copied d = Option.some d' ∧ Keeps d d' ∧
      Views d' (shifted movedFrom n top (copied - copies) f) := by
  induction copies generalizing copied d with
  | zero => exact ⟨d, rfl, .refl, views⟩
  | succ copies ih =>
    have less : copied < d.numAllocated := by omega
    have ⟨value, found⟩ := live.some (copied - n) (by omega)
    have ⟨old, target⟩ : ∃ old, shifted movedFrom n top copied f copied = Option.some old := by
      have ⟨old, found⟩ := live.some copied less
      rw [shifted, if_neg (by omega), found]
      split
      · exact ⟨_, rfl⟩
      · exact ⟨_, rfl⟩
    have moves := views.assignFrom movedFrom
      (show copied < d.maxSize by omega) (show copied - n < d.maxSize by omega) target
      ((source_eq some (by omega)).trans found)
    have ⟨d', returns, keeps, views'⟩ :=
      ih (moved_views views some (by omega) high fits found) live fits last (by omega)
        (by omega) (Or.inr (show copied - 1 < d.numAllocated by omega))
    rw [moveUpAssign, moves, Option.bind_some]
    refine ⟨d', returns, (Keeps.put _ _).trans ((Keeps.put _ _).trans keeps), ?_⟩
    rw [Nat.sub_add_eq, Nat.sub_right_comm]
    exact views'

end

theorem moveUp_views (movedFrom : τ → τ) {position : Nat} (views : Views d f)
    (live : Live f d.numAllocated) (some : 1 ≤ n) (bound : position ≤ d.numAllocated)
    (room : d.numAllocated + n ≤ d.maxSize) :
    ∃ d', d.moveUp movedFrom position n = Option.some d' ∧ d'.maxSize = d.maxSize ∧
      d'.start = d.start ∧ d'.numAllocated = d.numAllocated + n ∧
      Views d' (shifted movedFrom n (d.numAllocated + n - 1) (position + n - 1) f) := by
  have start : Views d (shifted movedFrom n (d.numAllocated + n - 1) (d.numAllocated + n - 1) f) := by
    rw [shifted_none]
    exact views
  have ⟨left, copied, d₁, first, keeps, views₁, count, done, less⟩ :=
    moveUpConstruct_views (d.numAllocated - position) start live some (by omega) (by omega) le_rfl
      (by omega)
  have live₁ : Live f d₁.numAllocated := keeps.numAllocated ▸ live
  have ⟨d₂, second, keeps₂, views₂⟩ := moveUpAssign_views left views₁ live₁ some
    (by rw [keeps.maxSize]; omega) (by rw [keeps.numAllocated]; omega) (by omega) (by omega)
    (by rw [keeps.numAllocated]; exact done)
  refine ⟨{ d₂ with numAllocated := d₂.numAllocated + n }, ?_, ?_, ?_, ?_, ?_⟩
  · rw [moveUp, first, Option.bind_some]
    dsimp only
    rw [second]
    rfl
  · exact keeps₂.maxSize.trans keeps.maxSize
  · exact keeps₂.start.trans keeps.start
  · change d₂.numAllocated + n = _
    rw [keeps₂.numAllocated, keeps.numAllocated]
  · have final : copied - left = position + n - 1 := by omega
    exact (final ▸ views₂).counted _

/-- The first `count` elements from `first` on have been replaced by those `gap` behind them. -/
def closed (movedFrom : τ → τ) (gap first count : Nat) (f : Nat → Option τ) : Nat → Option τ :=
  fun e =>
    if first ≤ e ∧ e < first + count then f (e + gap)
    else if first + gap ≤ e ∧ e < first + gap + count then (f e).map movedFrom
    else f e

theorem closed_none (gap first : Nat) : closed movedFrom gap first 0 f = f := by
  funext e
  rw [closed, if_neg (by omega), if_neg (by omega)]

theorem closed_step {gap first count : Nat} (some : 1 ≤ gap) :
    update (update (closed movedFrom gap first count f) (first + count)
        (f (first + count + gap))) (first + count + gap)
        ((f (first + count + gap)).map movedFrom) =
      closed movedFrom gap first (count + 1) f := by
  funext e
  simp only [update_apply, closed]
  by_cases source : e = first + count + gap
  · rw [if_pos source, if_neg (by omega), if_pos (by omega), source]
  rw [if_neg source]
  by_cases target : e = first + count
  · rw [if_pos target, if_pos (by omega), target]
  rw [if_neg target]
  refine if_congr (by omega) rfl (if_congr (by omega) rfl rfl)

theorem moveDown_views {gap first : Nat} (left : Nat) {count : Nat}
    (views : Views d (closed movedFrom gap first count f)) (live : Live f d.numAllocated)
    (some : 1 ≤ gap) (fits : d.numAllocated ≤ d.maxSize)
    (room : first + count + gap + left ≤ d.numAllocated) :
    ∃ d', moveDown movedFrom left (first + count) (first + count + gap) d = Option.some d' ∧
      Keeps d d' ∧ Views d' (closed movedFrom gap first (count + left) f) := by
  induction left generalizing count d with
  | zero => exact ⟨d, rfl, .refl, views⟩
  | succ left ih =>
    have ⟨value, found⟩ := live.some (first + count + gap) (by omega)
    have ⟨old, target⟩ :
        ∃ old, closed movedFrom gap first count f (first + count) = Option.some old := by
      have ⟨old, found⟩ := live.some (first + count) (by omega)
      rw [closed, if_neg (by omega), found]
      split
      · exact ⟨_, rfl⟩
      · exact ⟨_, rfl⟩
    have source : closed movedFrom gap first count f (first + count + gap) =
        Option.some value := by
      rw [closed, if_neg (by omega), if_neg (by omega), found]
    have inside : first + count < d.maxSize := by omega
    have inside' : first + count + gap < d.maxSize := by omega
    have moves := views.assignFrom movedFrom inside inside' target source
    have moved : Views ((d.put (d.index (first + count)) (Option.some value)).put
        (d.index (first + count + gap)) (Option.some (movedFrom value)))
        (closed movedFrom gap first (count + 1) f) := by
      rw [← closed_step some, found]
      exact (views.put inside _).put inside' _
    have ⟨d', returns, keeps, views'⟩ := ih moved live fits (by
      change first + (count + 1) + gap + left ≤ d.numAllocated
      omega)
    rw [moveDown, moves, Option.bind_some]
    refine ⟨d', ?_, (Keeps.put _ _).trans ((Keeps.put _ _).trans keeps), ?_⟩
    · have next : first + count + gap + 1 = first + (count + 1) + gap := by omega
      rw [next]
      exact returns
    · rw [Nat.add_right_comm] at views'
      exact views'

theorem destructAll_views (count first : Nat) (views : Views d f)
    (live : ∀ e, first ≤ e → e < first + count → ∃ value, f e = some value)
    (fits : first + count ≤ d.maxSize) :
    ∃ d', destructAll count first d = some d' ∧ d'.maxSize = d.maxSize ∧
      d'.numAllocated = d.numAllocated - count ∧
      Views d' fun e => if first ≤ e ∧ e < first + count then none else f e := by
  induction count generalizing first d f with
  | zero =>
    refine ⟨d, rfl, rfl, rfl, views.congr ?_⟩
    intro e _
    rw [if_neg (by omega)]
  | succ count ih =>
    have ⟨old, found⟩ := live first le_rfl (by omega)
    have inside : first < d.maxSize := by omega
    have ⟨d', returns, same, number, views'⟩ :=
      ih (first + 1) ((views.put inside none).counted (d.numAllocated - 1)) (by
        intro e after before
        rw [update_of_ne (by omega)]
        exact live e (by omega) (by omega))
        (show first + 1 + count ≤ d.maxSize by omega)
    refine ⟨d', by rw [destructAll, views.destruct inside found]; exact returns, same, ?_,
      views'.congr ?_⟩
    · rw [number]
      change d.numAllocated - 1 - count = _
      omega
    · intro e _
      by_cases here : e = first
      · rw [if_neg (by omega), if_pos (by omega), here, update_self]
      · rw [update_of_ne here]
        exact if_congr (by omega) rfl rfl

end BoundedDeques
