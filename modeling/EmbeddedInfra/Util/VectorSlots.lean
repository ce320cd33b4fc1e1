import EmbeddedInfra.Util.BoundedVector
import EmbeddedInfra.Util.DequeRefines

/-! The slots of `BoundedVector`, and what the loops do to them. What the loops move is the same as
in a `BoundedDeque` whose first slot is its start. -/

namespace BoundedVectors

open BoundedVector Function
open BoundedDeques (shifted shifted_none shifted_step source_eq closed closed_none closed_step mixed
  mixed_none mixed_step mixed_all Live)

variable {τ : Type} {v other : BoundedVector τ} {f g : Nat → Option τ} {movedFrom : τ → τ}

def Views (v : BoundedVector τ) (f : Nat → Option τ) : Prop := ∀ e < v.maxSize, v.slots e = f e

structure Keeps (v v' : BoundedVector τ) : Prop where
  maxSize : v'.maxSize = v.maxSize
  numAllocated : v'.numAllocated = v.numAllocated

namespace Keeps

theorem refl : Keeps v v := ⟨rfl, rfl⟩

theorem trans {v₁ v₂ : BoundedVector τ} (front : Keeps v v₁) (back : Keeps v₁ v₂) : Keeps v v₂ :=
  ⟨back.maxSize.trans front.maxSize, back.numAllocated.trans front.numAllocated⟩

theorem put (slot : Nat) (object : Option τ) : Keeps v (v.put slot object) := ⟨rfl, rfl⟩

end Keeps

namespace Views

theorem congr (views : Views v f) (same : ∀ e < v.maxSize, f e = g e) : Views v g :=
  fun e inside => (views e inside).trans (same e inside)

theorem counted (views : Views v f) (number : Nat) : Views { v with numAllocated := number } f := views

theorem put (views : Views v f) (slot : Nat) (object : Option τ) :
    Views (v.put slot object) (update f slot object) := by
  intro e inside
  change update v.slots slot object e = _
  rw [update_apply, update_apply, views e inside]

variable {e : Nat} {old : τ}

theorem construct (views : Views v f) (inside : e < v.maxSize) (free : f e = none) (value : τ) :
    v.construct e value = some (v.put e (some value)) := by
  rw [BoundedVector.construct, views e inside, free]

theorem assign (views : Views v f) (inside : e < v.maxSize) (live : f e = some old) (value : τ) :
    v.assign e value = some (v.put e (some value)) := by
  rw [BoundedVector.assign, views e inside, live]
  rfl

theorem destruct (views : Views v f) (inside : e < v.maxSize) (live : f e = some old) :
    v.destruct e = some (v.put e none) := by
  rw [BoundedVector.destruct, views e inside, live]
  rfl

theorem constructFrom (views : Views v f) (movedFrom : τ → τ) {source : Nat}
    (inside : e < v.maxSize) (inside' : source < v.maxSize) (free : f e = none) {value : τ}
    (live : f source = some value) :
    v.constructFrom movedFrom e source =
      some ((v.put e (some value)).put source (some (movedFrom value))) := by
  rw [BoundedVector.constructFrom, views source inside', live, Option.bind_some,
    views.construct inside free]
  rfl

theorem assignFrom (views : Views v f) (movedFrom : τ → τ) {source : Nat} (inside : e < v.maxSize)
    (inside' : source < v.maxSize) {value : τ} (target : f e = some old)
    (live : f source = some value) :
    v.assignFrom movedFrom e source =
      some ((v.put e (some value)).put source (some (movedFrom value))) := by
  rw [BoundedVector.assignFrom, views source inside', live, Option.bind_some,
    views.assign inside target]
  rfl

end Views

theorem fill_views {write : Nat → τ → BoundedVector τ → Option (BoundedVector τ)} {live : Bool}
    (writes : ∀ (v : BoundedVector τ) (g : Nat → Option τ) (e : Nat) (value : τ), Views v g →
      e < v.maxSize → (g e).isSome = live → write e value v = some (v.put e (some value)))
    (values : List τ) (slot : Nat) (views : Views v f) (inside : slot + values.length ≤ v.maxSize)
    (ready : ∀ e, slot ≤ e → e < slot + values.length → (f e).isSome = live) :
    ∃ v', fill write slot values v = some v' ∧ Keeps v v' ∧ Views v' fun e =>
      if slot ≤ e ∧ e < slot + values.length then values[e - slot]? else f e := by
  induction values generalizing slot v f with
  | nil =>
    refine ⟨v, rfl, .refl, views.congr fun e _ => ?_⟩
    rw [if_neg]
    rw [List.length_nil]
    omega
  | cons value values ih =>
    rw [List.length_cons] at inside ready
    have first := writes v f slot value views (by omega) (ready slot le_rfl (by omega))
    obtain ⟨v', filled, keeps, views'⟩ := ih (slot + 1) (views.put slot (some value))
      (show slot + 1 + values.length ≤ v.maxSize by omega) (by
        intro e later before
        rw [update_of_ne (by omega)]
        exact ready e (by omega) (by omega))
    refine ⟨v', by rw [fill, first, Option.bind_some, filled], (Keeps.put _ _).trans keeps,
      views'.congr fun e _ => ?_⟩
    rw [List.length_cons]
    by_cases here : e = slot
    · rw [if_neg (by omega), if_pos (by omega), here, update_self, Nat.sub_self]
      rfl
    by_cases later : slot + 1 ≤ e ∧ e < slot + 1 + values.length
    · have next : e - slot = e - (slot + 1) + 1 := by omega
      rw [if_pos later, if_pos (by omega), next, List.getElem?_cons_succ]
    · rw [if_neg later, if_neg (by omega), update_of_ne here]

theorem construct_writes (v : BoundedVector τ) (g : Nat → Option τ) (e : Nat) (value : τ)
    (views : Views v g) (inside : e < v.maxSize) (free : (g e).isSome = false) :
    v.construct e value = some (v.put e (some value)) :=
  views.construct inside (Option.isNone_iff_eq_none.mp (by simpa using free)) value

theorem assign_writes (v : BoundedVector τ) (g : Nat → Option τ) (e : Nat) (value : τ)
    (views : Views v g) (inside : e < v.maxSize) (live : (g e).isSome = true) :
    v.assign e value = some (v.put e (some value)) :=
  have ⟨_, found⟩ := Option.isSome_iff_exists.mp live
  views.assign inside found value

variable {n top place : Nat}

theorem moved_views (views : Views v (shifted movedFrom n top (place + n - 1) f)) (some_ : 1 ≤ n)
    (low : 1 ≤ place) (high : place + n - 1 ≤ top) {value : τ}
    (found : f (place - 1) = some value) :
    Views ((v.put (place + n - 1) (some value)).put (place - 1) (some (movedFrom value)))
      (shifted movedFrom n top (place - 1 + n - 1) f) := by
  have source : place + n - 1 - n = place - 1 := by omega
  have next : place + n - 1 - 1 = place - 1 + n - 1 := by omega
  have step := @shifted_step _ f movedFrom _ top _ some_
    (show n ≤ place + n - 1 by omega) high
  rw [source, next, found] at step
  rw [← step]
  exact (views.put _ _).put _ _

theorem source_live (some_ : 1 ≤ n) (low : 1 ≤ place) {value : τ}
    (found : f (place - 1) = some value) :
    shifted movedFrom n top (place + n - 1) f (place - 1) = some value := by
  have source : place + n - 1 - n = place - 1 := by omega
  have same := @source_eq _ f movedFrom _ top _ some_
    (show n ≤ place + n - 1 by omega)
  rw [source] at same
  exact same.trans found

section

variable (copies : Nat) (views : Views v (shifted movedFrom n top (place + n - 1) f))
  (live : Live f v.numAllocated) (some_ : 1 ≤ n) (fits : top < v.maxSize)
  (last : top + 1 = v.numAllocated + n)

include copies views live some_ fits last

theorem moveUpConstruct_views (high : place ≤ v.numAllocated) (above : v.numAllocated ≤ place + n)
    (room : copies ≤ place) :
    ∃ left place' v', moveUpConstruct movedFrom n copies place v = some (left, place', v') ∧
      Keeps v v' ∧ Views v' (shifted movedFrom n top (place' + n - 1) f) ∧
      place' + copies = place + left ∧ (left = 0 ∨ place' + n = v.numAllocated) ∧ left ≤ copies := by
  induction copies generalizing place v with
  | zero => exact ⟨0, place, v, rfl, .refl, views, rfl, .inl rfl, le_rfl⟩
  | succ copies ih =>
    rw [moveUpConstruct]
    by_cases more : place + n ≠ v.numAllocated
    · obtain ⟨value, found⟩ := live.some (place - 1) (by omega)
      have free : shifted movedFrom n top (place + n - 1) f (place + n - 1) = none := by
        rw [shifted, if_neg (by omega), live.none (place + n - 1) (by omega)]
        split <;> rfl
      have moves := views.constructFrom movedFrom (show place + n - 1 < v.maxSize by omega)
        (show place - 1 < v.maxSize by omega) free (source_live some_ (by omega) found)
      obtain ⟨left, place', v', returns, keeps, views', count, done, less⟩ :=
        ih (moved_views views some_ (by omega) (by omega) found) live fits last
          (show place - 1 ≤ v.numAllocated by omega) (show v.numAllocated ≤ place - 1 + n by omega)
          (by omega)
      rw [if_pos more, moves, Option.bind_some]
      exact ⟨left, place', v', returns, (Keeps.put _ _).trans ((Keeps.put _ _).trans keeps),
        views', by omega, done, by omega⟩
    · rw [if_neg more]
      exact ⟨copies + 1, place, v, rfl, .refl, views, rfl, .inr (by omega), le_rfl⟩

theorem moveUpAssign_views (below : copies = 0 ∨ place + n ≤ v.numAllocated)
    (room : copies ≤ place) :
    ∃ v', moveUpAssign movedFrom n copies place v = some v' ∧ Keeps v v' ∧
      Views v' (shifted movedFrom n top (place - copies + n - 1) f) := by
  induction copies generalizing place v with
  | zero => exact ⟨v, rfl, .refl, views⟩
  | succ copies ih =>
    obtain ⟨value, found⟩ := live.some (place - 1) (by omega)
    have target : ∃ old, shifted movedFrom n top (place + n - 1) f (place + n - 1) = some old := by
      obtain ⟨old, found⟩ := live.some (place + n - 1) (by omega)
      rw [shifted, if_neg (by omega), found]
      split <;> exact ⟨_, rfl⟩
    obtain ⟨old, target⟩ := target
    have moves := views.assignFrom movedFrom (show place + n - 1 < v.maxSize by omega)
      (show place - 1 < v.maxSize by omega) target (source_live some_ (by omega) found)
    obtain ⟨v', returns, keeps, views'⟩ :=
      ih (moved_views views some_ (by omega) (by omega) found) live fits last
        (.inr (show place - 1 + n ≤ v.numAllocated by omega)) (by omega)
    rw [moveUpAssign, moves, Option.bind_some]
    refine ⟨v', returns, (Keeps.put _ _).trans ((Keeps.put _ _).trans keeps), ?_⟩
    have same : place - (copies + 1) = place - 1 - copies := by omega
    rw [same]
    exact views'

end

theorem moveUp_views (movedFrom : τ → τ) {position : Nat} (views : Views v f)
    (live : Live f v.numAllocated) (some_ : 1 ≤ n) (bound : position ≤ v.numAllocated)
    (room : v.numAllocated + n ≤ v.maxSize) :
    ∃ v', v.moveUp movedFrom position n = some v' ∧ v'.maxSize = v.maxSize ∧
      v'.numAllocated = v.numAllocated + n ∧
      Views v' (shifted movedFrom n (v.numAllocated + n - 1) (position + n - 1) f) := by
  have start : Views v
      (shifted movedFrom n (v.numAllocated + n - 1) (v.numAllocated + n - 1) f) := by
    rw [shifted_none]
    exact views
  obtain ⟨left, place, v₁, first, keeps, views₁, count, done, less⟩ :=
    moveUpConstruct_views (v.numAllocated - position) start live some_ (by omega) (by omega) le_rfl
      (by omega) (by omega)
  have live₁ : Live f v₁.numAllocated := keeps.numAllocated ▸ live
  obtain ⟨v₂, second, keeps₂, views₂⟩ := moveUpAssign_views left views₁ live₁ some_
    (by rw [keeps.maxSize]; omega) (by rw [keeps.numAllocated]; omega)
    (by rw [keeps.numAllocated]; omega) (by omega)
  refine ⟨{ v₂ with numAllocated := v₂.numAllocated + n }, ?_, keeps₂.maxSize.trans keeps.maxSize,
    ?_, ?_⟩
  · rw [moveUp, first, Option.bind_some]
    dsimp only
    rw [second]
    rfl
  · change v₂.numAllocated + n = _
    rw [keeps₂.numAllocated, keeps.numAllocated]
  · have final : place - left = position := by omega
    rw [final] at views₂
    exact views₂.counted _

theorem moveDown_views {gap first : Nat} (left : Nat) {count : Nat}
    (views : Views v (closed movedFrom gap first count f)) (live : Live f v.numAllocated)
    (some_ : 1 ≤ gap) (fits : v.numAllocated ≤ v.maxSize)
    (room : first + count + gap + left ≤ v.numAllocated) :
    ∃ v', moveDown movedFrom left (first + count) (first + count + gap) v = some v' ∧
      Keeps v v' ∧ Views v' (closed movedFrom gap first (count + left) f) := by
  induction left generalizing count v with
  | zero => exact ⟨v, rfl, .refl, views⟩
  | succ left ih =>
    obtain ⟨value, found⟩ := live.some (first + count + gap) (by omega)
    have target : ∃ old, closed movedFrom gap first count f (first + count) = some old := by
      obtain ⟨old, found⟩ := live.some (first + count) (by omega)
      rw [closed, if_neg (by omega), found]
      split <;> exact ⟨_, rfl⟩
    obtain ⟨old, target⟩ := target
    have source : closed movedFrom gap first count f (first + count + gap) = some value := by
      rw [closed, if_neg (by omega), if_neg (by omega), found]
    have moves := views.assignFrom movedFrom (show first + count < v.maxSize by omega)
      (show first + count + gap < v.maxSize by omega) target source
    have moved : Views ((v.put (first + count) (some value)).put (first + count + gap)
        (some (movedFrom value))) (closed movedFrom gap first (count + 1) f) := by
      rw [← closed_step some_, found]
      exact (views.put _ _).put _ _
    obtain ⟨v', returns, keeps, views'⟩ := ih moved live fits
      (show first + (count + 1) + gap + left ≤ v.numAllocated by omega)
    have next : first + count + gap + 1 = first + (count + 1) + gap := by omega
    rw [Nat.add_right_comm] at views'
    refine ⟨v', ?_, (Keeps.put _ _).trans ((Keeps.put _ _).trans keeps), views'⟩
    rw [moveDown, moves, Option.bind_some, next]
    exact returns

theorem destructAll_views (count first : Nat) (views : Views v f)
    (live : ∀ e, first ≤ e → e < first + count → ∃ value, f e = some value)
    (fits : first + count ≤ v.maxSize) :
    ∃ v', destructAll count first v = some v' ∧ v'.maxSize = v.maxSize ∧
      v'.numAllocated = v.numAllocated - count ∧
      Views v' fun e => if first ≤ e ∧ e < first + count then none else f e := by
  induction count generalizing first v f with
  | zero =>
    refine ⟨v, rfl, rfl, rfl, views.congr fun e _ => ?_⟩
    rw [if_neg (by omega)]
  | succ count ih =>
    obtain ⟨old, found⟩ := live first le_rfl (by omega)
    obtain ⟨v', returns, same, number, views'⟩ :=
      ih (first + 1) ((views.put first none).counted (v.numAllocated - 1)) (by
        intro e after before
        rw [update_of_ne (by omega)]
        exact live e (by omega) (by omega))
        (show first + 1 + count ≤ v.maxSize by omega)
    refine ⟨v', ?_, same, ?_, views'.congr fun e _ => ?_⟩
    · rw [destructAll, views.destruct (by omega) found, Option.bind_some]
      exact returns
    · rw [number]
      change v.numAllocated - 1 - count = _
      omega
    · by_cases here : e = first
      · rw [if_neg (by omega), if_pos (by omega), here, update_self]
      · rw [update_of_ne here]
        exact if_congr (by omega) rfl rfl

end BoundedVectors
