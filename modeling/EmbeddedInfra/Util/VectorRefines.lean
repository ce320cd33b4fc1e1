import EmbeddedInfra.Util.VectorSlots

/-! `BoundedVector` is a list, of which every element is in the slot of its index and no other slot
holds an object, in the runs whose calls write to the slots as they are. -/

namespace BoundedVectors

open Function (update update_apply update_of_ne update_self)
open List (getElem?_eq_none getElem?_eq_getElem append_nil drop_length filter_append filter_nil
  length_append length_drop length_dropLast length_nil length_replicate length_singleton
  length_take take_length take_of_length_le)
open Option (bind_some map_some)

open BoundedVector
open BoundedDeques (shifted closed closed_none mixed mixed_none mixed_step mixed_all Live
  getElem?_insert getElem?_erase)

variable {τ : Type} {v other : BoundedVector τ} {xs ys : List τ} {movedFrom : τ → τ}

/-- The first slots hold the elements, and the other slots hold no object. -/
structure Holds (v : BoundedVector τ) (xs : List τ) : Prop where
  views : Views v fun e => xs[e]?
  number : v.numAllocated = xs.length
  fits : xs.length ≤ v.maxSize

theorem Holds.live (holds : Holds v xs) : Live (fun e => xs[e]?) v.numAllocated where
  some _ before := ⟨xs.get ⟨_, holds.number ▸ before⟩, getElem?_eq_getElem _⟩
  none _ after := getElem?_eq_none (holds.number ▸ after)

/-! ### The ends -/

theorem pushBack_holds (holds : Holds v xs) (value : τ) (room : xs.length < v.maxSize) :
    ∃ v', v.pushBack value = some v' ∧ v'.maxSize = v.maxSize ∧ Holds v' (xs ++ [value]) := by
  have inside : v.numAllocated < v.maxSize := holds.number ▸ room
  have constructed := holds.views.construct inside (holds.live.none _ le_rfl) value
  refine ⟨{ v.put v.numAllocated (some value) with numAllocated := v.numAllocated + 1 }, ?_, rfl,
    ?_, ?_, ?_⟩
  · rw [pushBack, if_neg (by omega), constructed]
    rfl
  · refine ((holds.views.put _ _).counted _).congr fun e _ => ?_
    rw [update_apply, holds.number, List.getElem?_append]
    split_ifs with here before
    · omega
    · rw [here, Nat.sub_self]
      rfl
    · rfl
    · rw [getElem?_eq_none (by omega), getElem?_eq_none]
      rw [length_singleton]
      omega
  · change v.numAllocated + 1 = _
    rw [holds.number, length_append, length_singleton]
  · rw [length_append, length_singleton]
    exact room

theorem popBack_holds (holds : Holds v xs) (some_ : xs ≠ []) :
    ∃ v', v.popBack = some v' ∧ v'.maxSize = v.maxSize ∧ Holds v' xs.dropLast := by
  have length := List.length_pos_iff.mpr some_
  have number := holds.number
  have fits := holds.fits
  obtain ⟨old, found⟩ := holds.live.some (v.numAllocated - 1) (by omega)
  have destructed := holds.views.destruct (show v.numAllocated - 1 < v.maxSize by omega) found
  refine ⟨{ v.put (v.numAllocated - 1) none with numAllocated := v.numAllocated - 1 }, ?_, rfl, ?_,
    ?_, ?_⟩
  · rw [popBack, if_neg (by omega), destructed]
    rfl
  · refine ((holds.views.put _ none).counted _).congr fun e _ => ?_
    rw [update_apply, number, List.getElem?_dropLast]
    split_ifs <;> first | rfl | (exfalso; omega) | exact getElem?_eq_none (by omega)
  · change v.numAllocated - 1 = _
    rw [number, length_dropLast]
  · rw [length_dropLast]
    change _ ≤ v.maxSize
    omega

theorem popTo_holds (n rounds : Nat) (holds : Holds v xs) (enough : xs.length ≤ n + rounds) :
    ∃ v', popTo n rounds v = some v' ∧ v'.maxSize = v.maxSize ∧ Holds v' (xs.take n) := by
  induction rounds generalizing v xs with
  | zero => exact ⟨v, rfl, rfl, (take_of_length_le enough).symm ▸ holds⟩
  | succ rounds ih =>
    have number := holds.number
    rw [popTo]
    by_cases more : n < v.numAllocated
    · obtain ⟨v₁, popped, same, holds₁⟩ :=
        popBack_holds holds (List.ne_nil_of_length_pos (by omega))
      obtain ⟨v', returns, same', holds'⟩ := ih holds₁ (by rw [length_dropLast]; omega)
      rw [List.dropLast_eq_take, List.take_take, Nat.min_eq_left (by omega)] at holds'
      exact ⟨v', by rw [if_pos more, popped, bind_some, returns], same'.trans same, holds'⟩
    · rw [if_neg more]
      exact ⟨v, rfl, rfl, (take_of_length_le (show xs.length ≤ n by omega)).symm ▸ holds⟩

theorem clear_holds (holds : Holds v xs) :
    ∃ v', v.clear = some v' ∧ v'.maxSize = v.maxSize ∧ Holds v' [] := by
  obtain ⟨v', returns, same, holds'⟩ := popTo_holds 0 v.numAllocated holds
    (by rw [holds.number, Nat.zero_add])
  exact ⟨v', returns, same, List.take_zero ▸ holds'⟩

theorem pushAll_holds (values : List τ) (holds : Holds v xs)
    (room : xs.length + values.length ≤ v.maxSize) :
    ∃ v', pushAll values v = some v' ∧ v'.maxSize = v.maxSize ∧ Holds v' (xs ++ values) := by
  induction values generalizing v xs with
  | nil => exact ⟨v, rfl, rfl, (append_nil xs).symm ▸ holds⟩
  | cons value values ih =>
    rw [List.length_cons] at room
    obtain ⟨v₁, pushed, same, holds₁⟩ := pushBack_holds holds value (by omega)
    obtain ⟨v', returns, same', holds'⟩ := ih holds₁ (by
      rw [length_append, length_singleton, same]
      omega)
    rw [List.append_assoc] at holds'
    exact ⟨v', by rw [pushAll, pushed, bind_some, returns], same'.trans same, holds'⟩

theorem resize_holds (n : Nat) (value : τ) (holds : Holds v xs) (room : n ≤ v.maxSize) :
    ∃ v', v.resize n value = some v' ∧ v'.maxSize = v.maxSize ∧
      Holds v' (xs.take n ++ List.replicate (n - xs.length) value) := by
  have number := holds.number
  obtain ⟨v₁, popped, same, holds₁⟩ := popTo_holds n v.numAllocated holds (by omega)
  have left : n - v₁.numAllocated = n - xs.length := by
    rw [holds₁.number, length_take]
    omega
  obtain ⟨v', pushed, same', holds'⟩ :=
    pushAll_holds (List.replicate (n - xs.length) value) holds₁ (by
      rw [length_take, length_replicate, same]
      omega)
  exact ⟨v', by rw [resize, popped, bind_some, left, pushed], same'.trans same, holds'⟩

theorem assignValues_holds (values : List τ) (holds : Holds v xs) (room : values.length ≤ v.maxSize) :
    ∃ v', v.assignValues values = some v' ∧ v'.maxSize = v.maxSize ∧ Holds v' values := by
  obtain ⟨v₁, cleared, same, holds₁⟩ := clear_holds holds
  obtain ⟨v', pushed, same', holds'⟩ := pushAll_holds values holds₁ (by
    rw [length_nil, Nat.zero_add, same]
    exact room)
  exact ⟨v', by rw [assignValues, cleared, bind_some, pushed], same'.trans same, holds'⟩

/-! ### Insertion -/

def InsertsSoundly (position n length : Nat) : Prop :=
  (n = 0 ∧ position = length) ∨ (1 ≤ n ∧ (position = 0 ∨ position + n ≤ length))

def ErasesSoundly (first last length : Nat) : Prop := first < last ∨ last = length

theorem insertValues_holds (holds : Holds v xs) {position : Nat} (values : List τ)
    (bound : position ≤ xs.length) (room : xs.length + values.length ≤ v.maxSize)
    (sound : InsertsSoundly position values.length xs.length) :
    ∃ v', v.insertValues movedFrom position values = some v' ∧ v'.maxSize = v.maxSize ∧
      Holds v' (xs.take position ++ values ++ xs.drop position) := by
  have number := holds.number
  rw [insertValues]
  dsimp only
  rw [if_pos (by omega)]
  rcases sound with ⟨nothing, last⟩ | ⟨some_, place⟩
  · cases List.length_eq_zero_iff.mp nothing
    refine ⟨v, ?_, rfl, ?_⟩
    · rw [moveUp, number, last, Nat.sub_self, length_nil, List.take_nil, List.drop_nil]
      rw [← number]
      rfl
    · rw [last, take_length, drop_length, append_nil, append_nil]
      exact holds
  obtain ⟨v₁, moved, size, total, views⟩ :=
    moveUp_views movedFrom holds.views holds.live some_ (show position ≤ v.numAllocated by omega)
      (by omega)
  -- The elements before this one find objects, and those from it on find none.
  have initialized : min (min (position + values.length) v.numAllocated) values.length =
      min (v.numAllocated - position) values.length := by omega
  rw [moved, bind_some, initialized]
  generalize isCount : min (v.numAllocated - position) values.length = count
  have taken : (values.take count).length = count := by
    rw [length_take]
    omega
  have dropped : (values.drop count).length = values.length - count := length_drop
  obtain ⟨v₂, assigned, keeps₂, views₂⟩ := fill_views assign_writes (values.take count) position
    views (by omega) (by
      intro e after before
      obtain ⟨old, found⟩ := holds.live.some e (by omega)
      rw [shifted, if_neg (by omega), if_pos (by omega), found]
      rfl)
  obtain ⟨v', constructed, keeps, views'⟩ := fill_views construct_writes (values.drop count)
    (position + count) views₂ (by rw [keeps₂.maxSize]; omega) (by
      intro e after before
      rw [if_neg (by omega), shifted, if_neg (by omega)]
      have free := holds.live.none e (by omega)
      rw [free]
      split <;> rfl)
  have same : v'.maxSize = v.maxSize := keeps.maxSize.trans (keeps₂.maxSize.trans size)
  refine ⟨v', by rw [assigned, bind_some, constructed], same, views'.congr ?_, ?_, ?_⟩
  · intro e inside
    rw [getElem?_insert values bound]
    by_cases front : e < position
    · rw [if_neg (by omega), if_neg (by omega), if_pos front, shifted, if_neg (by omega),
        if_neg (by omega)]
    rw [if_neg front]
    by_cases written : e < position + values.length
    · rw [if_pos written]
      by_cases early : e < position + count
      · rw [if_neg (by omega), if_pos (by omega), List.getElem?_take_of_lt (by omega)]
      · rw [if_pos (by omega), List.getElem?_drop]
        congr 1
        omega
    rw [if_neg (by omega), if_neg (by omega), if_neg written, shifted]
    by_cases within : e ≤ v.numAllocated + values.length - 1
    · rw [if_pos (by omega)]
    · rw [if_neg (by omega), if_neg (by omega), getElem?_eq_none (by omega),
        getElem?_eq_none (by omega)]
  · rw [keeps.numAllocated, keeps₂.numAllocated, total, length_append, length_append,
      length_drop, length_take]
    omega
  · rw [same, length_append, length_append, length_drop, length_take]
    omega

theorem emplace_last (v : BoundedVector τ) (movedFrom : τ → τ) (value : τ) :
    v.emplace movedFrom v.numAllocated value = v.pushBack value := by
  have moved : v.moveUp movedFrom v.numAllocated 1 =
      some { v with numAllocated := v.numAllocated + 1 } := by
    rw [moveUp, Nat.sub_self]
    rfl
  rw [emplace, moved, bind_some, pushBack, construct, construct]
  by_cases full : v.numAllocated = v.maxSize
  · rw [if_pos full, if_neg (not_not_intro full)]
  · rw [if_neg full, if_pos full]
    dsimp only
    cases v.slots v.numAllocated <;> rfl

theorem emplace_holds (movedFrom : τ → τ) (holds : Holds v xs) (value : τ)
    (room : xs.length < v.maxSize) :
    ∃ v', v.emplace movedFrom xs.length value = some v' ∧ v'.maxSize = v.maxSize ∧
      Holds v' (xs ++ [value]) := by
  rw [← holds.number, emplace_last]
  exact pushBack_holds holds value room

/-! ### Erasure -/

theorem erase_holds (holds : Holds v xs) {first last : Nat} (ordered : first ≤ last)
    (bound : last ≤ xs.length) (sound : ErasesSoundly first last xs.length) :
    ∃ v', v.erase movedFrom first last = some v' ∧ v'.maxSize = v.maxSize ∧
      Holds v' (xs.take first ++ xs.drop last) := by
  have number := holds.number
  have fits := holds.fits
  rw [erase]
  by_cases less : first < last
  swap
  · have same : first = xs.length := by
      rcases sound with less' | all <;> omega
    have same' : last = xs.length := by omega
    refine ⟨v, ?_, rfl, ?_⟩
    · rw [same', same, number, Nat.sub_self]
      rfl
    · rw [same', same, take_length, drop_length, append_nil]
      exact holds
  have start : Views v (closed movedFrom (last - first) first 0 fun e => xs[e]?) := by
    rw [closed_none]
    exact holds.views
  obtain ⟨v₁, moved, keeps, views⟩ := moveDown_views (v.numAllocated - last) start holds.live
    (by omega) (by omega) (by omega)
  have place : first + 0 + (last - first) = last := by omega
  rw [place, Nat.add_zero] at moved
  rw [Nat.zero_add] at views
  obtain ⟨v', destructed, same, total, views'⟩ := destructAll_views (last - first)
    (first + (v.numAllocated - last)) views (by
      intro e after before
      obtain ⟨old, found⟩ := holds.live.some e (by omega)
      rw [closed, if_neg (by omega)]
      split_ifs
      · exact ⟨_, by rw [found]; rfl⟩
      · exact ⟨_, found⟩) (by rw [keeps.maxSize]; omega)
  have size : v'.maxSize = v.maxSize := same.trans keeps.maxSize
  refine ⟨v', by rw [moved, bind_some, destructed], size, views'.congr ?_, ?_, ?_⟩
  · intro e inside
    rw [getElem?_erase ordered bound]
    by_cases front : e < first
    · rw [if_neg (by omega), if_pos front, closed, if_neg (by omega), if_neg (by omega)]
    rw [if_neg front]
    by_cases kept : e < first + (v.numAllocated - last)
    · rw [if_neg (by omega), closed, if_pos (by omega)]
    · rw [getElem?_eq_none (show xs.length ≤ e + (last - first) by omega)]
      by_cases gone : e < first + (v.numAllocated - last) + (last - first)
      · rw [if_pos (by omega)]
      · rw [if_neg (by omega), closed, if_neg (by omega), if_neg (by omega),
          getElem?_eq_none (by omega)]
  · rw [total, keeps.numAllocated, length_append, length_take, length_drop]
    omega
  · rw [size, length_append, length_take, length_drop]
    omega

/-- The state of the loop of `erase_if`: what is kept of the elements before `in_` stands before
`out`, and the elements from `in_` on are as they were. -/
structure Sifted (v v' : BoundedVector τ) (xs : List τ) (pred : τ → Bool) (in_ out : Nat) : Prop where
  keeps : Keeps v v'
  count : out = ((xs.take in_).filter fun x => !pred x).length
  kept : ∀ e < out, v'.slots e = ((xs.take in_).filter fun x => !pred x)[e]?
  rest : ∀ e, in_ ≤ e → e < v.maxSize → v'.slots e = xs[e]?
  between : ∀ e, out ≤ e → e < in_ → (v'.slots e).isSome

theorem out_le (xs : List τ) (pred : τ → Bool) (in_ : Nat) :
    ((xs.take in_).filter fun x => !pred x).length ≤ in_ :=
  (List.length_filter_le _ _).trans (List.length_take_le _ _)

theorem eraseIfLoop_sifts (holds : Holds v xs) (pred : τ → Bool) (left : Nat) {in_ out : Nat}
    {v₁ : BoundedVector τ} (sifted : Sifted v v₁ xs pred in_ out) (all : in_ + left = xs.length) :
    ∃ out' v', eraseIfLoop movedFrom pred left in_ out v₁ = some (out', v') ∧
      Sifted v v' xs pred xs.length out' := by
  induction left generalizing in_ out v₁ with
  | zero => exact ⟨out, v₁, rfl, all ▸ sifted⟩
  | succ left ih =>
    have fits := holds.fits
    have inside : in_ < xs.length := by omega
    have low := out_le xs pred in_
    rw [← sifted.count] at low
    have here : v₁.slots in_ = some xs[in_] := by
      rw [sifted.rest in_ le_rfl (by omega), getElem?_eq_getElem inside]
    have next : xs.take (in_ + 1) = xs.take in_ ++ [xs[in_]] := List.take_succ_eq_append_getElem inside
    rw [eraseIfLoop, here, bind_some]
    cases erased : pred xs[in_] with
    | true =>
      rw [if_pos rfl]
      refine ih ?_ (by omega)
      have same : (xs.take (in_ + 1)).filter (fun x => !pred x) =
          (xs.take in_).filter fun x => !pred x := by
        rw [next, filter_append, List.filter_cons_of_neg (by simp [erased]), filter_nil,
          append_nil]
      refine ⟨sifted.keeps, same ▸ sifted.count, same ▸ sifted.kept,
        fun e after => sifted.rest e (by omega), fun e after before => ?_⟩
      by_cases last : e = in_
      · rw [last, here]
        rfl
      · exact sifted.between e after (by omega)
    | false =>
      rw [if_neg nofun]
      have more : (xs.take (in_ + 1)).filter (fun x => !pred x) =
          ((xs.take in_).filter fun x => !pred x) ++ [xs[in_]] := by
        rw [next, filter_append, List.filter_cons_of_pos (by simp [erased]), filter_nil]
      have longer : out + 1 = ((xs.take (in_ + 1)).filter fun x => !pred x).length := by
        rw [more, length_append, ← sifted.count, length_singleton]
      have placed {slots : Nat → Option τ} (before : ∀ e < out, slots e = v₁.slots e)
          (atOut : slots out = some xs[in_]) :
          ∀ e < out + 1, slots e = ((xs.take (in_ + 1)).filter fun x => !pred x)[e]? := by
        intro e less
        rw [more, List.getElem?_append, ← sifted.count]
        by_cases early : e < out
        · rw [if_pos early, before e early, sifted.kept e early]
        · obtain rfl : e = out := by omega
          rw [if_neg early, atOut, Nat.sub_self]
          rfl
      by_cases same : in_ = out
      · rw [if_neg (not_not_intro same), bind_some]
        refine ih ⟨sifted.keeps, longer, placed (fun _ _ => rfl) (same ▸ here),
          fun e after => sifted.rest e (by omega), fun e after before => by omega⟩ (by omega)
      · obtain ⟨old, isOld⟩ := Option.isSome_iff_exists.mp (sifted.between out le_rfl (by omega))
        have moves : v₁.assignFrom movedFrom out in_ =
            some ((v₁.put out (some xs[in_])).put in_ (some (movedFrom xs[in_]))) := by
          rw [BoundedVector.assignFrom, here, bind_some, BoundedVector.assign, isOld]
          rfl
        have slots (e : Nat) : ((v₁.put out (some xs[in_])).put in_
            (some (movedFrom xs[in_]))).slots e = if e = in_ then some (movedFrom xs[in_])
              else if e = out then some xs[in_] else v₁.slots e := by
          change update (update v₁.slots out _) in_ _ e = _
          rw [update_apply, update_apply]
        rw [if_pos same, moves, bind_some]
        refine ih ⟨sifted.keeps.trans ((Keeps.put _ _).trans (Keeps.put _ _)), longer,
          placed ?_ ?_, ?_, ?_⟩ (by omega)
        · intro e less
          rw [slots, if_neg (by omega), if_neg (by omega)]
        · rw [slots, if_neg (by omega), if_pos rfl]
        · intro e after within
          rw [slots, if_neg (by omega), if_neg (by omega)]
          exact sifted.rest e (by omega) within
        · intro e after before
          rw [slots]
          split
          · rfl
          · rw [if_neg (by omega)]
            exact sifted.between e (by omega) (by omega)

theorem eraseIf_holds (pred : τ → Bool) (holds : Holds v xs) :
    ∃ v', v.eraseIf movedFrom pred = some ((xs.filter pred).length, v') ∧ v'.maxSize = v.maxSize ∧
      Holds v' (xs.filter fun x => !pred x) := by
  have number := holds.number
  have fits := holds.fits
  have start : Sifted v v xs pred 0 0 :=
    ⟨.refl, rfl, nofun, fun e _ inside => holds.views e inside, fun e _ => nofun⟩
  obtain ⟨out, v₁, loops, sifted⟩ := @eraseIfLoop_sifts _ v xs movedFrom holds pred xs.length 0 0 v start
    (Nat.zero_add _)
  have count := sifted.count
  rw [take_length] at count
  have total : (xs.filter pred).length + out = xs.length := by
    rw [count]
    exact (List.length_eq_length_filter_add _).symm
  have same : v₁.numAllocated = xs.length := sifted.keeps.numAllocated.trans number
  have size : v₁.maxSize = v.maxSize := sifted.keeps.maxSize
  -- The slots between the kept elements and the end hold what was moved from or is erased.
  obtain ⟨v', destructed, size', left, views⟩ := destructAll_views (xs.length - out) out
    (show Views v₁ v₁.slots from fun _ _ => rfl)
    (fun e after before => Option.isSome_iff_exists.mp (sifted.between e after (by omega)))
    (by omega)
  refine ⟨v', ?_, size'.trans size, ?_, ?_, ?_⟩
  · rw [eraseIf, number, loops, bind_some]
    dsimp only
    rw [erase, same, Nat.sub_self, moveDown, bind_some, Nat.add_zero, destructed,
      map_some, ← total, Nat.add_sub_cancel]
  · intro e inside
    rw [views e inside]
    dsimp only
    by_cases early : e < out
    · rw [if_neg (by omega), sifted.kept e early, take_length]
    · rw [getElem?_eq_none (show (xs.filter fun x => !pred x).length ≤ e by omega)]
      by_cases gone : e < xs.length
      · rw [if_pos (by omega)]
      · rw [if_neg (by omega), sifted.rest e (by omega) (by omega),
          getElem?_eq_none (by omega)]
  · rw [left, same, ← count]
    omega
  · rw [← count, size', size]
    omega

/-! ### `swap` -/

/-- What both vectors keep, and how far they have been exchanged. -/
structure Exchanged (v other v' other' : BoundedVector τ) (xs ys : List τ) (i : Nat) : Prop where
  keeps : Keeps v v'
  keeps' : Keeps other other'
  views : Views v' (mixed xs ys i)
  views' : Views other' (mixed ys xs i)

theorem swapElements_views (count i : Nat) (views : Views v (mixed xs ys i))
    (views' : Views other (mixed ys xs i)) (first : i + count ≤ xs.length)
    (second : i + count ≤ ys.length) (fits : xs.length ≤ v.maxSize)
    (fits' : ys.length ≤ other.maxSize) :
    ∃ v' other', swapElements count i v other = some (v', other') ∧
      Exchanged v other v' other' xs ys (i + count) := by
  induction count generalizing i v other with
  | zero => exact ⟨v, other, rfl, .refl, .refl, views, views'⟩
  | succ count ih =>
    have here : xs[i]? = some xs[i] := getElem?_eq_getElem (show i < xs.length by omega)
    have here' : ys[i]? = some ys[i] := getElem?_eq_getElem (show i < ys.length by omega)
    have found : v.slots i = some xs[i] := by
      rw [views i (by omega), mixed, if_neg (lt_irrefl i), here]
    have found' : other.slots i = some ys[i] := by
      rw [views' i (by omega), mixed, if_neg (lt_irrefl i), here']
    have put := views.put i (some ys[i])
    have put' := views'.put i (some xs[i])
    rw [← here', mixed_step] at put
    rw [← here, mixed_step] at put'
    obtain ⟨v', other', returns, exchanged⟩ :=
      ih (i + 1) put put' (by omega) (by omega) fits fits'
    rw [Nat.add_right_comm] at exchanged
    rw [swapElements, found, found', bind_some, bind_some, ← here, ← here']
    exact ⟨v', other', returns, (Keeps.put _ _).trans exchanged.keeps,
      (Keeps.put _ _).trans exchanged.keeps', exchanged.views, exchanged.views'⟩

theorem moveElements_views (count i : Nat) (views : Views v (mixed xs ys i))
    (views' : Views other (mixed ys xs i)) (first : xs.length ≤ i)
    (second : i + count ≤ ys.length) (fits : ys.length ≤ v.maxSize)
    (fits' : ys.length ≤ other.maxSize) :
    ∃ v' other', moveElements count i v other = some (v', other') ∧
      Exchanged v other v' other' xs ys (i + count) := by
  induction count generalizing i v other with
  | zero => exact ⟨v, other, rfl, .refl, .refl, views, views'⟩
  | succ count ih =>
    have nothing : xs[i]? = none := getElem?_eq_none first
    have free : mixed xs ys i i = none := by rw [mixed, if_neg (lt_irrefl i), nothing]
    have here : ys[i]? = some ys[i] := getElem?_eq_getElem (show i < ys.length by omega)
    have live : mixed ys xs i i = some ys[i] := by rw [mixed, if_neg (lt_irrefl i), here]
    have found : other.slots i = some ys[i] := by rw [views' i (by omega), live]
    have put := views.put i (some ys[i])
    have put' := views'.put i none
    rw [← here, mixed_step] at put
    rw [← nothing, mixed_step] at put'
    obtain ⟨v', other', returns, exchanged⟩ :=
      ih (i + 1) put put' (by omega) (by omega) fits fits'
    rw [Nat.add_right_comm] at exchanged
    rw [moveElements, found, bind_some, views.construct (by omega) free, bind_some,
      views'.destruct (by omega) live, bind_some, ← here, ← nothing]
    exact ⟨v', other', returns, (Keeps.put _ _).trans exchanged.keeps,
      (Keeps.put _ _).trans exchanged.keeps', exchanged.views, exchanged.views'⟩

namespace Exchanged

variable {v' other' : BoundedVector τ} {i : Nat}

theorem holds (exchanged : Exchanged v other v' other' xs ys i) (before : Holds v xs)
    (before' : Holds other ys) (first : xs.length ≤ i) (second : ys.length ≤ i)
    (fits : ys.length ≤ v.maxSize) (fits' : xs.length ≤ other.maxSize) :
    Holds { v' with numAllocated := other'.numAllocated } ys ∧
      Holds { other' with numAllocated := v'.numAllocated } xs := by
  have views := exchanged.views
  have views' := exchanged.views'
  rw [mixed_all xs ys first second] at views
  rw [mixed_all ys xs second first] at views'
  constructor
  · exact ⟨views, exchanged.keeps'.numAllocated.trans before'.number,
      fits.trans exchanged.keeps.maxSize.ge⟩
  · exact ⟨views', exchanged.keeps.numAllocated.trans before.number,
      fits'.trans exchanged.keeps'.maxSize.ge⟩

theorem trans {v₁ other₁ v₂ other₂ : BoundedVector τ} {i j : Nat}
    (front : Exchanged v other v₁ other₁ xs ys i) (back : Exchanged v₁ other₁ v₂ other₂ xs ys j) :
    Exchanged v other v₂ other₂ xs ys j :=
  ⟨front.keeps.trans back.keeps, front.keeps'.trans back.keeps', back.views, back.views'⟩

theorem symm (exchanged : Exchanged v other v' other' xs ys i) :
    Exchanged other v other' v' ys xs i :=
  ⟨exchanged.keeps', exchanged.keeps, exchanged.views', exchanged.views⟩

end Exchanged

theorem swap_holds (holds : Holds v xs) (holds' : Holds other ys) (fits : ys.length < v.maxSize)
    (fits' : xs.length ≤ other.maxSize) :
    ∃ v' other', v.swap other = some (v', other') ∧ v'.maxSize = v.maxSize ∧
      other'.maxSize = other.maxSize ∧ Holds v' ys ∧ Holds other' xs := by
  have number := holds.number
  have number' := holds'.number
  have start : Views v (mixed xs ys 0) := mixed_none xs ys ▸ holds.views
  have start' : Views other (mixed ys xs 0) := mixed_none ys xs ▸ holds'.views
  obtain ⟨v₁, other₁, swapped, exchanged⟩ :=
    swapElements_views (min v.numAllocated other.numAllocated) 0 start start' (by omega)
      (by omega) holds.fits holds'.fits
  have same := exchanged.keeps.numAllocated
  have same' := exchanged.keeps'.numAllocated
  have size := exchanged.keeps.maxSize
  have size' := exchanged.keeps'.maxSize
  have bound := holds.fits
  have bound' := holds'.fits
  have asserts : swapAsserts v other := ⟨by omega, by omega⟩
  have final {v₂ other₂ : BoundedVector τ}
      (all : Exchanged v other v₂ other₂ xs ys (max xs.length ys.length))
      (returns : v.swap other = some ({ v₂ with numAllocated := other₂.numAllocated },
        { other₂ with numAllocated := v₂.numAllocated })) :
      ∃ v' other', v.swap other = some (v', other') ∧ v'.maxSize = v.maxSize ∧
        other'.maxSize = other.maxSize ∧ Holds v' ys ∧ Holds other' xs := by
    obtain ⟨first, second⟩ := all.holds holds holds' (Nat.le_max_left _ _) (Nat.le_max_right _ _)
      (by omega) fits'
    exact ⟨_, _, returns, all.keeps.maxSize, all.keeps'.maxSize, first, second⟩
  rcases Nat.le_total xs.length ys.length with less | more
  · have both : 0 + min v.numAllocated other.numAllocated = xs.length := by omega
    have all : xs.length + (ys.length - xs.length) = max xs.length ys.length := by omega
    rw [both] at exchanged
    obtain ⟨v₂, other₂, moved, exchanged₂⟩ := moveElements_views (ys.length - xs.length) xs.length
      exchanged.views exchanged.views' le_rfl (by omega) (by omega) (by omega)
    have none : v₂.numAllocated - other₂.numAllocated = 0 := by
      rw [exchanged₂.keeps.numAllocated, exchanged₂.keeps'.numAllocated]
      omega
    rw [all] at exchanged₂
    apply final (exchanged.trans exchanged₂)
    rw [swap, if_pos asserts, swapped, bind_some]
    dsimp only
    rw [same, same', number, number', moved, bind_some]
    dsimp only
    rw [none]
    rfl
  · have both : 0 + min v.numAllocated other.numAllocated = ys.length := by omega
    have all : ys.length + (xs.length - ys.length) = max xs.length ys.length := by omega
    have none : other₁.numAllocated - v₁.numAllocated = 0 := by omega
    rw [both] at exchanged
    obtain ⟨other₂, v₂, moved, exchanged₂⟩ := moveElements_views (xs.length - ys.length) ys.length
      exchanged.views' exchanged.views le_rfl (by omega) (by omega) (by omega)
    rw [all] at exchanged₂
    apply final (exchanged.trans exchanged₂.symm)
    rw [swap, if_pos asserts, swapped, bind_some]
    dsimp only
    rw [none, moveElements, bind_some]
    dsimp only
    rw [same, same', number, number', moved]
    rfl

/-! ### Runs -/

inductive Operation (τ : Type)
  | pushBack (value : τ)
  | popBack
  | emplaceBack (value : τ)
  | emplace (position : Nat) (value : τ)
  | insert (position : Nat) (value : τ)
  | insertCopies (position n : Nat) (value : τ)
  | insertRange (position : Nat) (values : List τ)
  | erase (position : Nat)
  | eraseRange (first last : Nat)
  | eraseIf (pred : τ → Bool)
  | resize (n : Nat) (value : τ)
  | assignCopies (n : Nat) (value : τ)
  | assign (values : List τ)
  | clear

def perform (movedFrom : τ → τ) : Operation τ → BoundedVector τ → Option (BoundedVector τ)
  | .pushBack value, v => v.pushBack value
  | .popBack, v => v.popBack
  | .emplaceBack value, v => v.emplaceBack value
  | .emplace position value, v => v.emplace movedFrom position value
  | .insert position value, v => v.insert movedFrom position value
  | .insertCopies position n value, v => v.insertCopies movedFrom position n value
  | .insertRange position values, v => v.insertValues movedFrom position values
  | .erase position, v => v.erase movedFrom position (position + 1)
  | .eraseRange first last, v => v.erase movedFrom first last
  | .eraseIf pred, v => (v.eraseIf movedFrom pred).map Prod.snd
  | .resize n value, v => v.resize n value
  | .assignCopies n value, v => v.assignValues (List.replicate n value)
  | .assign values, v => v.assignValues values
  | .clear, v => v.clear

def listed : Operation τ → List τ → List τ
  | .pushBack value, xs | .emplaceBack value, xs => xs ++ [value]
  | .popBack, xs => xs.dropLast
  | .emplace position value, xs | .insert position value, xs =>
    xs.take position ++ [value] ++ xs.drop position
  | .insertCopies position n value, xs =>
    xs.take position ++ List.replicate n value ++ xs.drop position
  | .insertRange position values, xs => xs.take position ++ values ++ xs.drop position
  | .erase position, xs => xs.take position ++ xs.drop (position + 1)
  | .eraseRange first last, xs => xs.take first ++ xs.drop last
  | .eraseIf pred, xs => xs.filter fun x => !pred x
  | .resize n value, xs => xs.take n ++ List.replicate (n - xs.length) value
  | .assignCopies n value, _ => List.replicate n value
  | .assign values, _ => values
  | .clear, _ => []

/-- The capacity is respected, and positions are those of elements or at the end. -/
def Respects (maxSize : Nat) (xs : List τ) : Operation τ → Prop
  | .pushBack _ | .emplaceBack _ => xs.length < maxSize
  | .popBack => xs ≠ []
  | .emplace position _ | .insert position _ => position ≤ xs.length ∧ xs.length < maxSize
  | .insertCopies position n _ => position ≤ xs.length ∧ xs.length + n ≤ maxSize
  | .insertRange position values => position ≤ xs.length ∧ xs.length + values.length ≤ maxSize
  | .erase position => position < xs.length
  | .eraseRange first last => first ≤ last ∧ last ≤ xs.length
  | .resize n _ | .assignCopies n _ => n ≤ maxSize
  | .assign values => values.length ≤ maxSize
  | .eraseIf _ | .clear => True

def Sound (xs : List τ) : Operation τ → Prop
  | .emplace position _ => position = xs.length
  | .insert position _ => InsertsSoundly position 1 xs.length
  | .insertCopies position n _ => InsertsSoundly position n xs.length
  | .insertRange position values => InsertsSoundly position values.length xs.length
  | .eraseRange first last => ErasesSoundly first last xs.length
  | _ => True

theorem perform_holds (movedFrom : τ → τ) (holds : Holds v xs) (operation : Operation τ)
    (respects : Respects v.maxSize xs operation) (sound : Sound xs operation) :
    ∃ v', perform movedFrom operation v = some v' ∧ v'.maxSize = v.maxSize ∧
      Holds v' (listed operation xs) := by
  cases operation with
  | pushBack value => exact pushBack_holds holds value respects
  | popBack => exact popBack_holds holds respects
  | emplaceBack value => exact pushBack_holds holds value respects
  | emplace position value =>
    cases sound
    obtain ⟨v', returns, same, holds'⟩ := emplace_holds movedFrom holds value respects.2
    refine ⟨v', returns, same, ?_⟩
    rw [listed, take_length, drop_length, append_nil]
    exact holds'
  | insert position value => exact insertValues_holds holds [value] respects.1 respects.2 sound
  | insertCopies position n value =>
    have length : (List.replicate n value).length = n := length_replicate
    exact insertValues_holds holds (List.replicate n value) respects.1
      (by rw [length]; exact respects.2) (by rw [length]; exact sound)
  | insertRange position values => exact insertValues_holds holds values respects.1 respects.2 sound
  | erase position =>
    exact erase_holds holds (Nat.le_succ position) respects (.inl (Nat.lt_succ_self position))
  | eraseRange first last => exact erase_holds holds respects.1 respects.2 sound
  | eraseIf pred =>
    obtain ⟨v', returns, same, holds'⟩ := @eraseIf_holds _ v xs movedFrom pred holds
    exact ⟨v', by rw [perform, returns]; rfl, same, holds'⟩
  | resize n value => exact resize_holds n value holds respects
  | assignCopies n value =>
    exact assignValues_holds _ holds (by rw [length_replicate]; exact respects)
  | assign values => exact assignValues_holds values holds respects
  | clear => exact clear_holds holds

section

variable {ι : Type} [DecidableEq ι]

structure Vectors (ι τ : Type) where
  vectors : ι → BoundedVector τ
  lists : ι → List τ

inductive Call (ι τ : Type)
  | on (i : ι) (operation : Operation τ)
  | swap (i j : ι)

/-- In a swap with itself a vector exchanges each element with itself, if the assertion holds. -/
def step (movedFrom : τ → τ) (s : Vectors ι τ) : Call ι τ → Option (Vectors ι τ)
  | .on i operation => (perform movedFrom operation (s.vectors i)).map fun v =>
    ⟨update s.vectors i v, update s.lists i (listed operation (s.lists i))⟩
  | .swap i j =>
    if i = j then if swapAsserts (s.vectors i) (s.vectors i) then some s else none
    else
      ((s.vectors i).swap (s.vectors j)).map fun (v, other) =>
        ⟨update (update s.vectors i v) j other,
          update (update s.lists i (s.lists j)) j (s.lists i)⟩

def Fits (s : Vectors ι τ) : Call ι τ → Prop
  | .on i operation => Respects (s.vectors i).maxSize (s.lists i) operation
  | .swap i j => (s.lists j).length ≤ (s.vectors i).maxSize ∧
      (s.lists i).length ≤ (s.vectors j).maxSize

def UsesSlots (s : Vectors ι τ) : Call ι τ → Prop
  | .on i operation => Sound (s.lists i) operation
  | .swap i j => (s.lists j).length < (s.vectors i).maxSize

def emptyVectors (maxSizes : ι → Nat) : Vectors ι τ :=
  ⟨fun i => ⟨maxSizes i, fun _ => none, 0⟩, fun _ => []⟩

theorem step_holds (movedFrom : τ → τ) {s : Vectors ι τ}
    (holds : ∀ i, Holds (s.vectors i) (s.lists i)) {call : Call ι τ} (fits : Fits s call)
    (uses : UsesSlots s call) :
    ∃ t, step movedFrom s call = some t ∧ ∀ i, Holds (t.vectors i) (t.lists i) := by
  cases call with
  | on i operation =>
    obtain ⟨v', returns, _, holds'⟩ := perform_holds movedFrom (holds i) operation fits uses
    refine ⟨_, by rw [step, returns, map_some], fun j => ?_⟩
    dsimp only
    by_cases same : j = i
    · rw [same, update_self, update_self]
      exact holds'
    · rw [update_of_ne same, update_of_ne same]
      exact holds j
  | swap i j =>
    by_cases itself : i = j
    · subst itself
      have asserts : swapAsserts (s.vectors i) (s.vectors i) := by
        rw [swapAsserts, (holds i).number]
        exact ⟨fits.1, uses⟩
      exact ⟨s, by rw [step, if_pos rfl, if_pos asserts], holds⟩
    obtain ⟨v', other', returns, _, _, holds', holds''⟩ :=
      swap_holds (holds i) (holds j) uses fits.2
    refine ⟨_, by rw [step, if_neg itself, returns, map_some], fun k => ?_⟩
    dsimp only
    by_cases second : k = j
    · rw [second, update_self, update_self]
      exact holds''
    rw [update_of_ne second, update_of_ne second]
    by_cases first : k = i
    · rw [first, update_self, update_self]
      exact holds'
    · rw [update_of_ne first, update_of_ne first]
      exact holds k

theorem empty_holds (maxSize : Nat) : Holds (⟨maxSize, fun _ => none, 0⟩ : BoundedVector τ) [] :=
  ⟨fun _ _ => rfl, rfl, Nat.zero_le _⟩

/-- In a run whose calls use the slots as they are, every vector is its list, with objects in the
slots below its size and in no others, and every further such call comes to its end. -/
theorem vectors_are_lists (movedFrom : τ → τ) (maxSizes : ι → Nat) {s : Vectors ι τ}
    (reached : Runs.Reachable (step movedFrom) (fun s call => Fits s call ∧ UsesSlots s call)
      (emptyVectors maxSizes) s) :
    (∀ i, Holds (s.vectors i) (s.lists i)) ∧
      ∀ call, Fits s call → UsesSlots s call → ∃ t, step movedFrom s call = some t := by
  have holds : ∀ i, Holds (s.vectors i) (s.lists i) := by
    induction reached with
    | refl => exact fun i => empty_holds (maxSizes i)
    | tail call _ meets last ih =>
      obtain ⟨t, returns, holds⟩ := step_holds movedFrom ih meets.1 meets.2
      cases Option.some.inj (returns.symm.trans last)
      exact holds
  refine ⟨holds, fun call fits uses => ?_⟩
  obtain ⟨t, returns, _⟩ := step_holds movedFrom holds fits uses
  exact ⟨t, returns⟩

/-- An element is put at the back, and two are inserted before it. -/
theorem vectors_are_lists_three : ∃ s : Vectors Unit Nat, s.lists () = [3, 4, 5] ∧
    Holds (s.vectors ()) (s.lists ()) := by
  have reached : Runs.Reachable (step id) (fun s call => Fits s call ∧ UsesSlots s call)
      (emptyVectors fun _ : Unit => 4) _ :=
    .tail (.on () (.insertRange 0 [3, 4]))
      (.tail (.on () (.pushBack 5)) .refl ⟨(by decide : 0 < 4), trivial⟩ rfl)
      ⟨⟨Nat.zero_le 1, (by decide : 1 + 2 ≤ 4)⟩, .inr ⟨(by decide : 1 ≤ 2), .inl rfl⟩⟩ rfl
  exact ⟨_, rfl, (vectors_are_lists id _ reached).1 ()⟩

/-- `insert` at the end of a vector with an element assigns to a slot without an object. -/
theorem vectors_are_lists_not : ¬∀ s : Vectors Unit Nat,
    Runs.Reachable (step id) Fits (emptyVectors fun _ => 4) s →
      ∀ call, Fits s call → ∃ t, step id s call = some t := by
  intro always
  have reached : Runs.Reachable (step id) Fits (emptyVectors fun _ : Unit => 4) _ :=
    .tail (.on () (.pushBack 5)) .refl (by decide : 0 < 4) rfl
  obtain ⟨t, returns⟩ := always _ reached (.on () (.insert 1 7))
    ⟨Nat.le_refl 1, (by decide : 1 < 4)⟩
  cases returns

end

end BoundedVectors
