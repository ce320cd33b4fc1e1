import EmbeddedInfra.Runs
import EmbeddedInfra.Util.DequeSlots

/-! `BoundedDeque` is a list, of which every element is in a slot of its own and no other slot
holds an object, in the runs whose calls write to the slots as they are. -/

namespace BoundedDeques

open Function (update update_apply update_of_ne update_self)
open List (getElem?_eq_none getElem?_eq_getElem getElem?_append append_assoc append_nil
  drop_length length_append length_cons length_drop length_dropLast length_eq_zero_iff length_nil
  length_pos_iff length_singleton length_tail length_take length_take_of_le take_length)
open Option (bind_some)

open BoundedDeque

variable {τ : Type} {d : BoundedDeque τ} {xs : List τ} {movedFrom : τ → τ}

/-- The slots from the start on hold the elements, and the other slots hold no object. -/
structure Holds (d : BoundedDeque τ) (xs : List τ) : Prop where
  views : Views d fun e => xs[e]?
  number : d.numAllocated = xs.length
  fits : xs.length ≤ d.maxSize

theorem Holds.live (holds : Holds d xs) : Live (fun e => xs[e]?) d.numAllocated where
  some _ before := ⟨xs.get ⟨_, holds.number ▸ before⟩, getElem?_eq_getElem _⟩
  none e after := getElem?_eq_none (holds.number ▸ after)

/-! ### Lists -/

variable {position first last i : Nat}

theorem getElem?_insert (values : List τ) (bound : position ≤ xs.length) (e : Nat) :
    (xs.take position ++ values ++ xs.drop position)[e]? =
      if e < position then xs[e]? else if e < position + values.length then values[e - position]?
      else xs[e - values.length]? := by
  have front : (xs.take position).length = position := length_take_of_le bound
  rw [append_assoc, getElem?_append, front]
  split_ifs with before inside
  · rw [List.getElem?_take_of_lt before]
  · rw [List.getElem?_append_left (by omega)]
  · rw [List.getElem?_append_right (by omega), List.getElem?_drop]
    congr 1
    omega

theorem getElem?_erase (ordered : first ≤ last) (bound : last ≤ xs.length) (e : Nat) :
    (xs.take first ++ xs.drop last)[e]? =
      if e < first then xs[e]? else xs[e + (last - first)]? := by
  have front : (xs.take first).length = first := length_take_of_le (by omega)
  rw [getElem?_append, front]
  split_ifs with before
  · rw [List.getElem?_take_of_lt before]
  · rw [List.getElem?_drop]
    congr 1
    omega

/-! ### The operations -/

theorem insertFront_holds (holds : Holds d xs) (values : List τ)
    (room : xs.length + values.length ≤ d.maxSize) :
    ∃ d', fill construct 0 values { d with
        start := d.index (d.maxSize - values.length)
        numAllocated := d.numAllocated + values.length } = Option.some d' ∧
      d'.maxSize = d.maxSize ∧ Holds d' (values ++ xs) := by
  have rotated := (holds.views.rotate (Nat.sub_le d.maxSize values.length)).counted
    (d.numAllocated + values.length)
  have ⟨d', filled, keeps, views⟩ := fill_views construct_writes values 0 rotated (by
    change 0 + values.length ≤ d.maxSize
    omega) (by
    intro e _ before
    rw [getElem?_eq_none]
    · rfl
    · split_ifs <;> omega)
  refine ⟨d', filled, keeps.maxSize, ⟨views.congr ?_, ?_, ?_⟩⟩
  · intro e inside
    rw [keeps.maxSize] at inside
    change e < d.maxSize at inside
    rw [getElem?_append]
    by_cases front : e < values.length
    · rw [if_pos (by omega), if_pos front, Nat.sub_zero]
    · rw [if_neg (by omega), if_neg front]
      congr 1
      split_ifs <;> omega
  · rw [keeps.numAllocated, length_append]
    change d.numAllocated + values.length = _
    rw [holds.number]
    omega
  · rw [keeps.maxSize, length_append]
    change _ ≤ d.maxSize
    omega

theorem pushFront_holds (holds : Holds d xs) (value : τ) (room : xs.length < d.maxSize) :
    ∃ d', d.pushFront value = some d' ∧ d'.maxSize = d.maxSize ∧ Holds d' (value :: xs) := by
  have inside : 0 < d.maxSize := by omega
  have rotated := holds.views.rotate (Nat.sub_le d.maxSize 1)
  have free : xs[if 0 + (d.maxSize - 1) < d.maxSize then 0 + (d.maxSize - 1)
      else 0 + (d.maxSize - 1) - d.maxSize]? = none := by
    rw [if_pos (by omega)]
    exact getElem?_eq_none (by omega)
  have constructed := rotated.construct inside free value
  have added := rotated.put inside (some value)
  rw [rotated.index_zero inside] at constructed added
  refine ⟨{ d with
      slots := update d.slots (d.index (d.maxSize - 1)) (some value)
      start := d.index (d.maxSize - 1)
      numAllocated := d.numAllocated + 1 },
    by rw [pushFront]; dsimp only; rw [constructed]; rfl, rfl, ⟨?_, ?_, ?_⟩⟩
  · refine (added.counted _).congr ?_
    intro e inside'
    change e < d.maxSize at inside'
    cases e with
    | zero => rw [update_self, List.getElem?_cons_zero]
    | succ e =>
      rw [update_of_ne (Nat.succ_ne_zero e), List.getElem?_cons_succ]
      congr 1
      split_ifs <;> omega
  · change d.numAllocated + 1 = _
    rw [holds.number, length_cons]
  · rw [length_cons]
    exact room

theorem emplaceFront_holds (holds : Holds d xs) (value : τ) (room : xs.length < d.maxSize) :
    ∃ d', d.emplaceFront value = some d' ∧ d'.maxSize = d.maxSize ∧ Holds d' (value :: xs) := by
  have inside : 0 < d.maxSize := by omega
  have started := holds.views.started inside
  have start : (if d.start ≠ 0 then d.start - 1 else d.maxSize - 1) = d.index (d.maxSize - 1) := by
    rw [index]
    split_ifs <;> omega
  have first := (holds.views.rotate (Nat.sub_le d.maxSize 1)).index_zero inside
  have same : d.emplaceFront value = d.pushFront value := by
    rw [emplaceFront, pushFront, start]
    dsimp only
    rw [first]
  rw [same]
  exact pushFront_holds holds value room

theorem pushBack_holds (holds : Holds d xs) (value : τ) (room : xs.length < d.maxSize) :
    ∃ d', d.pushBack value = some d' ∧ d'.maxSize = d.maxSize ∧ Holds d' (xs ++ [value]) := by
  have inside : d.numAllocated < d.maxSize := holds.number ▸ room
  have constructed := holds.views.construct inside (holds.live.none _ le_rfl) value
  refine ⟨{ d.put (d.index d.numAllocated) (some value) with numAllocated := d.numAllocated + 1 },
    by rw [pushBack, constructed]; rfl, rfl, ⟨?_, ?_, ?_⟩⟩
  · refine ((holds.views.put inside _).counted _).congr ?_
    intro e _
    rw [update_apply, holds.number, getElem?_append]
    split_ifs with here before
    · omega
    · rw [here, Nat.sub_self]
      rfl
    · rfl
    · rw [getElem?_eq_none (by omega), getElem?_eq_none]
      rw [length_singleton]
      omega
  · change d.numAllocated + 1 = _
    rw [holds.number, length_append, length_singleton]
  · rw [length_append, length_singleton]
    exact room

theorem popBack_holds (holds : Holds d xs) (some : xs ≠ []) :
    ∃ d', d.popBack = Option.some d' ∧ d'.maxSize = d.maxSize ∧ Holds d' xs.dropLast := by
  have length := length_pos_iff.mpr some
  have number := holds.number
  have fits := holds.fits
  have inside : d.numAllocated - 1 < d.maxSize := by omega
  have ⟨old, found⟩ := holds.live.some (d.numAllocated - 1) (by omega)
  have destructed := holds.views.destruct inside found
  refine ⟨{ d.put (d.index (d.numAllocated - 1)) none with numAllocated := d.numAllocated - 1 },
    by rw [popBack, destructed]; rfl, rfl, ⟨?_, ?_, ?_⟩⟩
  · refine ((holds.views.put inside none).counted _).congr ?_
    intro e _
    rw [update_apply, number, List.getElem?_dropLast]
    split_ifs <;> first | rfl | (exfalso; omega) | exact getElem?_eq_none (by omega)
  · change d.numAllocated - 1 = _
    rw [number, length_dropLast]
  · rw [length_dropLast]
    change _ ≤ d.maxSize
    omega

theorem popFront_holds (holds : Holds d xs) (some : xs ≠ []) :
    ∃ d', d.popFront = Option.some d' ∧ d'.maxSize = d.maxSize ∧ Holds d' xs.tail := by
  have length := length_pos_iff.mpr some
  have number := holds.number
  have fits := holds.fits
  have inside : 0 < d.maxSize := by omega
  have ⟨old, found⟩ := holds.live.some 0 (by omega)
  have destructed := holds.views.destruct inside found
  rw [holds.views.index_zero inside] at destructed
  have cleared := holds.views.put inside none
  rw [holds.views.index_zero inside] at cleared
  refine ⟨{ d.put d.start none with start := d.index 1, numAllocated := d.numAllocated - 1 },
    by rw [popFront, destructed]; rfl, rfl, ⟨?_, ?_, ?_⟩⟩
  · refine ((cleared.rotate (show 1 ≤ d.maxSize from inside)).counted _).congr ?_
    intro e inside'
    change e < d.maxSize at inside'
    rw [update_apply, List.getElem?_tail]
    have same : (d.put d.start none).maxSize = d.maxSize := rfl
    rw [same]
    by_cases last : e + 1 < d.maxSize
    · rw [if_pos last, if_neg (Nat.succ_ne_zero e)]
    · rw [if_neg last, if_pos (by omega), getElem?_eq_none (by omega)]
  · change d.numAllocated - 1 = _
    rw [number, length_tail]
  · rw [length_tail]
    change _ ≤ d.maxSize
    omega

theorem popAll_holds (count : Nat) (holds : Holds d xs) (all : xs.length = count) :
    ∃ d', popAll count d = some d' ∧ d'.maxSize = d.maxSize ∧ Holds d' [] := by
  induction count generalizing d xs with
  | zero =>
    cases length_eq_zero_iff.mp all
    exact ⟨d, rfl, rfl, holds⟩
  | succ count ih =>
    have ⟨d₁, popped, same, holds₁⟩ := popBack_holds holds (List.ne_nil_of_length_eq_add_one all)
    have ⟨d', returns, same', holds'⟩ := ih holds₁ (by rw [length_dropLast]; omega)
    exact ⟨d', by rw [popAll, popped]; exact returns, same'.trans same, holds'⟩

theorem clear_holds (holds : Holds d xs) :
    ∃ d', d.clear = some d' ∧ d'.maxSize = d.maxSize ∧ Holds d' [] := by
  have ⟨d₁, popped, same, holds₁⟩ := popAll_holds d.numAllocated holds holds.number.symm
  refine ⟨{ d₁ with start := 0 }, by rw [clear, popped]; rfl, same, ⟨?_, holds₁.number,
    holds₁.fits⟩⟩
  by_cases none : d₁.maxSize = 0
  · refine ⟨fun some => absurd none (by change 0 < d₁.maxSize at some; omega), ?_⟩
    intro e inside
    change e < d₁.maxSize at inside
    omega
  · have started := holds₁.views.started (by omega)
    have turned := holds₁.views.rotate (Nat.sub_le d₁.maxSize d₁.start)
    have zero : d₁.index (d₁.maxSize - d₁.start) = 0 := by
      rw [index, if_neg (by omega)]
      omega
    rw [zero] at turned
    exact turned.congr fun e _ => rfl

theorem pushAll_holds (values : List τ) (holds : Holds d xs)
    (room : xs.length + values.length ≤ d.maxSize) :
    ∃ d', pushAll values d = some d' ∧ d'.maxSize = d.maxSize ∧ Holds d' (xs ++ values) := by
  induction values generalizing d xs with
  | nil => exact ⟨d, rfl, rfl, (append_nil xs).symm ▸ holds⟩
  | cons value values ih =>
    rw [length_cons] at room
    have ⟨d₁, pushed, same, holds₁⟩ := pushBack_holds holds value (by omega)
    have ⟨d', returns, same', holds'⟩ := ih holds₁ (by
      rw [length_append, length_singleton, same]
      omega)
    refine ⟨d', by rw [pushAll, pushed]; exact returns, same'.trans same, ?_⟩
    rw [append_assoc] at holds'
    exact holds'

theorem eraseFront_holds (count : Nat) (holds : Holds d xs) (bound : count ≤ xs.length) :
    ∃ d', eraseFront count d = some d' ∧ d'.maxSize = d.maxSize ∧ Holds d' (xs.drop count) := by
  induction count generalizing d xs with
  | zero => exact ⟨d, rfl, rfl, holds⟩
  | succ count ih =>
    have fits := holds.fits
    have ⟨d₁, popped, same, holds₁⟩ :=
      popFront_holds holds (List.ne_nil_of_length_pos (by omega))
    have ⟨d', returns, same', holds'⟩ := ih holds₁ (by rw [length_tail]; omega)
    refine ⟨d', ?_, same'.trans same, ?_⟩
    · rw [eraseFront, holds.views.index_zero (by omega)]
      have ⟨d₂, destructed, moved⟩ := Option.map_eq_some_iff.mp popped
      rw [destructed, bind_some, ← returns, ← moved]
      rfl
    · rw [List.drop_tail] at holds'
      exact holds'

/-- The slots that `insert` writes to are as it takes them to be: at the front of elements all are
empty, and elsewhere all hold objects that have been moved. -/
def InsertsSoundly (position n length : Nat) : Prop :=
  (position = 0 ∧ length ≠ 0) ∨ (n = 0 ∧ position = length) ∨ (1 ≤ n ∧ position + n ≤ length)

def ErasesSoundly (first last length : Nat) : Prop := first = 0 ∨ first < last ∨ last = length

theorem insertBehind_holds (holds : Holds d xs) (values : List τ)
    (room : xs.length + values.length ≤ d.maxSize) (some : 1 ≤ values.length)
    (behind : position + values.length ≤ xs.length) :
    ∃ d', (d.moveUp movedFrom position values.length).bind (fill assign position values) =
        Option.some d' ∧ d'.maxSize = d.maxSize ∧
      Holds d' (xs.take position ++ values ++ xs.drop position) := by
  have number := holds.number
  have ⟨d₁, moved, size, start, total, views⟩ :=
    moveUp_views movedFrom holds.views holds.live some
      (show position ≤ d.numAllocated by omega) (by omega)
  have ⟨d', filled, keeps, views'⟩ := fill_views assign_writes values position views
    (by omega) (by
      intro e after before
      have ⟨old, found⟩ := holds.live.some e (by omega)
      rw [shifted, if_neg (by omega), if_pos (by omega), found]
      rfl)
  have same : d'.maxSize = d.maxSize := keeps.maxSize.trans size
  refine ⟨d', by rw [moved]; exact filled, same, ⟨views'.congr ?_, ?_, ?_⟩⟩
  · intro e inside
    rw [getElem?_insert values (by omega)]
    by_cases front : e < position
    · rw [if_neg (by omega), if_pos front, shifted, if_neg (by omega), if_neg (by omega)]
    rw [if_neg front]
    by_cases written : e < position + values.length
    · rw [if_pos (by omega), if_pos written]
    rw [if_neg (by omega), if_neg written, shifted]
    by_cases within : e ≤ d.numAllocated + values.length - 1
    · rw [if_pos (by omega)]
    · rw [if_neg (by omega), if_neg (by omega), getElem?_eq_none (by omega),
        getElem?_eq_none (by omega)]
  · rw [keeps.numAllocated, total, length_append, length_append, length_drop,
      length_take]
    omega
  · rw [same, length_append, length_append, length_drop, length_take]
    omega

theorem insertValues_holds (holds : Holds d xs) (values : List τ)
    (room : xs.length + values.length ≤ d.maxSize)
    (sound : InsertsSoundly position values.length xs.length) :
    ∃ d', d.insertValues movedFrom position values = some d' ∧ d'.maxSize = d.maxSize ∧
      Holds d' (xs.take position ++ values ++ xs.drop position) := by
  have number := holds.number
  rw [insertValues]
  by_cases front : position = 0 ∧ d.numAllocated ≠ 0
  · rw [if_pos front, front.1]
    exact insertFront_holds holds values room
  rw [if_neg front]
  rcases sound with atFront | ⟨nothing, last⟩ | ⟨some, behind⟩
  · omega
  · cases length_eq_zero_iff.mp nothing
    refine ⟨d, ?_, rfl, ?_⟩
    · rw [moveUp, number, last, Nat.sub_self, length_nil]
      rw [← number]
      rfl
    · rw [last, take_length, drop_length, append_nil, append_nil]
      exact holds
  · exact insertBehind_holds holds values room some behind

theorem emplace_last (d : BoundedDeque τ) (movedFrom : τ → τ) (value : τ) :
    d.emplace movedFrom d.numAllocated value = d.pushBack value := by
  have moved : d.moveUp movedFrom d.numAllocated 1 =
      some { d with numAllocated := d.numAllocated + 1 } := by
    rw [moveUp, Nat.sub_self]
    rfl
  have place : ({ d with numAllocated := d.numAllocated + 1 } : BoundedDeque τ).index
      d.numAllocated = d.index d.numAllocated := rfl
  rw [emplace, moved, bind_some, pushBack, construct, construct, place]
  dsimp only
  cases d.slots (d.index d.numAllocated) <;> rfl

theorem emplace_holds (movedFrom : τ → τ) (holds : Holds d xs) (value : τ)
    (room : xs.length < d.maxSize) :
    ∃ d', d.emplace movedFrom xs.length value = some d' ∧ d'.maxSize = d.maxSize ∧
      Holds d' (xs ++ [value]) := by
  rw [← holds.number, emplace_last]
  exact pushBack_holds holds value room

theorem eraseBehind_holds (holds : Holds d xs) (ordered : first < last) (bound : last ≤ xs.length) :
    ∃ d', (moveDown movedFrom (d.numAllocated - last) first last d).bind
        (destructAll (last - first) (first + (d.numAllocated - last))) = some d' ∧
      d'.maxSize = d.maxSize ∧ Holds d' (xs.take first ++ xs.drop last) := by
  have number := holds.number
  have fits := holds.fits
  have start : Views d (closed movedFrom (last - first) first 0 fun e => xs[e]?) := by
    rw [closed_none]
    exact holds.views
  have ⟨d₁, moved, keeps, views⟩ := moveDown_views (d.numAllocated - last) start holds.live
    (by omega) (by omega) (by omega)
  have place : first + 0 + (last - first) = last := by omega
  rw [place, Nat.add_zero] at moved
  rw [Nat.zero_add] at views
  have ⟨d', destructed, same, total, views'⟩ := destructAll_views (last - first)
    (first + (d.numAllocated - last)) views (by
      intro e after before
      have ⟨old, found⟩ := holds.live.some e (by omega)
      rw [closed, if_neg (by omega)]
      split_ifs
      · exact ⟨_, by rw [found]; rfl⟩
      · exact ⟨_, found⟩) (by rw [keeps.maxSize]; omega)
  have size : d'.maxSize = d.maxSize := same.trans keeps.maxSize
  refine ⟨d', by rw [moved]; exact destructed, size, ⟨views'.congr ?_, ?_, ?_⟩⟩
  · intro e inside
    rw [getElem?_erase ordered.le bound]
    by_cases front : e < first
    · rw [if_neg (by omega), if_pos front, closed, if_neg (by omega), if_neg (by omega)]
    rw [if_neg front]
    by_cases kept : e < first + (d.numAllocated - last)
    · rw [if_neg (by omega), closed, if_pos (by omega)]
    · rw [getElem?_eq_none (i := e + (last - first)) (by omega)]
      by_cases gone : e < first + (d.numAllocated - last) + (last - first)
      · rw [if_pos (by omega)]
      · rw [if_neg (by omega), closed, if_neg (by omega), if_neg (by omega),
          getElem?_eq_none (by omega)]
  · rw [total, keeps.numAllocated, length_append, length_take, length_drop]
    omega
  · rw [size, length_append, length_take, length_drop]
    omega

theorem erase_holds (holds : Holds d xs) (ordered : first ≤ last) (bound : last ≤ xs.length)
    (sound : ErasesSoundly first last xs.length) :
    ∃ d', d.erase movedFrom first last = some d' ∧ d'.maxSize = d.maxSize ∧
      Holds d' (xs.take first ++ xs.drop last) := by
  rw [erase]
  by_cases front : first = 0
  · rw [if_pos front, front]
    exact eraseFront_holds last holds bound
  rw [if_neg front]
  by_cases less : first < last
  · exact eraseBehind_holds holds less bound
  have same : first = xs.length := by
    rcases sound with zero | less' | all <;> omega
  have same' : last = xs.length := by omega
  refine ⟨d, ?_, rfl, ?_⟩
  · rw [same', same, holds.number, Nat.sub_self]
    rfl
  · rw [same', same, take_length, drop_length, append_nil]
    exact holds

/-! ### `swap` -/

/-- Before position `i` the elements have been exchanged. -/
def mixed (xs ys : List τ) (i e : Nat) : Option τ := if e < i then ys[e]? else xs[e]?

theorem mixed_none (xs ys : List τ) : mixed xs ys 0 = fun e => xs[e]? := by
  funext e
  rw [mixed, if_neg (by omega)]

theorem mixed_step (xs ys : List τ) (i : Nat) :
    update (mixed xs ys i) i ys[i]? = mixed xs ys (i + 1) := by
  funext e
  rw [update_apply, mixed, mixed]
  by_cases here : e = i
  · rw [if_pos here, if_pos (by omega), here]
  · rw [if_neg here]
    exact if_congr (by omega) rfl rfl

theorem mixed_all (xs ys : List τ) (first : xs.length ≤ i) (second : ys.length ≤ i) :
    mixed xs ys i = fun e => ys[e]? := by
  funext e
  rw [mixed]
  split
  · rfl
  · rw [getElem?_eq_none (by omega), getElem?_eq_none (by omega)]

variable {other : BoundedDeque τ} {ys : List τ}

/-- What both deques keep, and how far they have been exchanged. -/
structure Exchanged (d other d' other' : BoundedDeque τ) (xs ys : List τ) (i : Nat) : Prop where
  keeps : Keeps d d'
  keeps' : Keeps other other'
  views : Views d' (mixed xs ys i)
  views' : Views other' (mixed ys xs i)

theorem swapElements_views (count i : Nat) (views : Views d (mixed xs ys i))
    (views' : Views other (mixed ys xs i)) (first : i + count ≤ xs.length)
    (second : i + count ≤ ys.length) (fits : xs.length ≤ d.maxSize)
    (fits' : ys.length ≤ other.maxSize) :
    ∃ d' other', swapElements count i d other = some (d', other') ∧
      Exchanged d other d' other' xs ys (i + count) := by
  induction count generalizing i d other with
  | zero => exact ⟨d, other, rfl, .refl, .refl, views, views'⟩
  | succ count ih =>
    have ⟨value, here⟩ : ∃ value, xs[i]? = some value :=
      ⟨_, getElem?_eq_getElem (show i < xs.length by omega)⟩
    have ⟨value', here'⟩ : ∃ value, ys[i]? = some value :=
      ⟨_, getElem?_eq_getElem (show i < ys.length by omega)⟩
    have found : d.slots (d.index i) = some value := by
      rw [views.slot i (by omega), mixed, if_neg (lt_irrefl i), here]
    have found' : other.slots (other.index i) = some value' := by
      rw [views'.slot i (by omega), mixed, if_neg (lt_irrefl i), here']
    have put := views.put (show i < d.maxSize by omega) (some value')
    have put' := views'.put (show i < other.maxSize by omega) (some value)
    rw [← here', mixed_step] at put
    rw [← here, mixed_step] at put'
    have ⟨d', other', returns, exchanged⟩ :=
      ih (i + 1) put put' (by omega) (by omega) fits fits'
    rw [swapElements, found, found', bind_some, bind_some, ← here, ← here']
    refine ⟨d', other', returns, (Keeps.put _ _).trans exchanged.keeps,
      (Keeps.put _ _).trans exchanged.keeps', ?_, ?_⟩
    · rw [Nat.add_right_comm] at exchanged
      exact exchanged.views
    · rw [Nat.add_right_comm] at exchanged
      exact exchanged.views'

theorem moveElements_views (count i : Nat) (views : Views d (mixed xs ys i))
    (views' : Views other (mixed ys xs i)) (first : xs.length ≤ i)
    (second : i + count ≤ ys.length) (fits : ys.length ≤ d.maxSize)
    (fits' : ys.length ≤ other.maxSize) :
    ∃ d' other', moveElements count i d other = some (d', other') ∧
      Exchanged d other d' other' xs ys (i + count) := by
  induction count generalizing i d other with
  | zero => exact ⟨d, other, rfl, .refl, .refl, views, views'⟩
  | succ count ih =>
    have free : mixed xs ys i i = none := by
      rw [mixed, if_neg (lt_irrefl i), getElem?_eq_none first]
    have ⟨value, here⟩ : ∃ value, ys[i]? = some value :=
      ⟨_, getElem?_eq_getElem (show i < ys.length by omega)⟩
    have live : mixed ys xs i i = some value := by
      rw [mixed, if_neg (lt_irrefl i), here]
    have found : other.slots (other.index i) = some value := by
      rw [views'.slot i (by omega), live]
    have put := views.put (show i < d.maxSize by omega) (some value)
    have put' := views'.put (show i < other.maxSize by omega) none
    rw [← here, mixed_step] at put
    rw [← getElem?_eq_none first, mixed_step] at put'
    have ⟨d', other', returns, exchanged⟩ :=
      ih (i + 1) put put' (by omega) (by omega) fits fits'
    rw [moveElements, found, bind_some, views.construct (by omega) free, bind_some,
      views'.destruct (by omega) live, bind_some, ← here, ← getElem?_eq_none first]
    refine ⟨d', other', returns, (Keeps.put _ _).trans exchanged.keeps,
      (Keeps.put _ _).trans exchanged.keeps', ?_, ?_⟩
    · rw [Nat.add_right_comm] at exchanged
      exact exchanged.views
    · rw [Nat.add_right_comm] at exchanged
      exact exchanged.views'

theorem Exchanged.holds {d' other' : BoundedDeque τ}
    (exchanged : Exchanged d other d' other' xs ys i) (before : Holds d xs)
    (before' : Holds other ys) (first : xs.length ≤ i) (second : ys.length ≤ i)
    (fits : ys.length ≤ d.maxSize) (fits' : xs.length ≤ other.maxSize) :
    Holds { d' with numAllocated := other'.numAllocated } ys ∧
      Holds { other' with numAllocated := d'.numAllocated } xs := by
  have views := exchanged.views
  have views' := exchanged.views'
  rw [mixed_all xs ys first second] at views
  rw [mixed_all ys xs second first] at views'
  constructor
  · exact ⟨views.counted _, exchanged.keeps'.numAllocated.trans before'.number,
      fits.trans exchanged.keeps.maxSize.ge⟩
  · exact ⟨views'.counted _, exchanged.keeps.numAllocated.trans before.number,
      fits'.trans exchanged.keeps'.maxSize.ge⟩

theorem Exchanged.trans {d₁ other₁ d₂ other₂ : BoundedDeque τ} {j : Nat}
    (front : Exchanged d other d₁ other₁ xs ys i) (back : Exchanged d₁ other₁ d₂ other₂ xs ys j) :
    Exchanged d other d₂ other₂ xs ys j :=
  ⟨front.keeps.trans back.keeps, front.keeps'.trans back.keeps', back.views, back.views'⟩

theorem Exchanged.symm {d' other' : BoundedDeque τ}
    (exchanged : Exchanged d other d' other' xs ys i) : Exchanged other d other' d' ys xs i :=
  ⟨exchanged.keeps', exchanged.keeps, exchanged.views', exchanged.views⟩

theorem swap_exchanges (holds : Holds d xs) (holds' : Holds other ys)
    (fits : ys.length ≤ d.maxSize) (fits' : xs.length ≤ other.maxSize) :
    ∃ d' other', d.swap other = some ({ d' with numAllocated := other'.numAllocated },
        { other' with numAllocated := d'.numAllocated }) ∧
      Exchanged d other d' other' xs ys (max xs.length ys.length) := by
  have number := holds.number
  have number' := holds'.number
  have start : Views d (mixed xs ys 0) := mixed_none xs ys ▸ holds.views
  have start' : Views other (mixed ys xs 0) := mixed_none ys xs ▸ holds'.views
  have ⟨d₁, other₁, swapped, exchanged⟩ :=
    swapElements_views (min d.numAllocated other.numAllocated) 0 start start' (by omega)
      (by omega) holds.fits holds'.fits
  have same := exchanged.keeps.numAllocated
  have same' := exchanged.keeps'.numAllocated
  have size := exchanged.keeps.maxSize
  have size' := exchanged.keeps'.maxSize
  have bound := holds.fits
  have bound' := holds'.fits
  rw [swap, swapped, bind_some]
  dsimp only
  rcases Nat.le_total xs.length ys.length with less | more
  · have both : 0 + min d.numAllocated other.numAllocated = xs.length := by omega
    have all : xs.length + (ys.length - xs.length) = max xs.length ys.length := by omega
    rw [both] at exchanged
    have ⟨d₂, other₂, moved, exchanged₂⟩ := moveElements_views (ys.length - xs.length) xs.length
      exchanged.views exchanged.views' le_rfl (by omega) (by omega) (by omega)
    have none : d₂.numAllocated - other₂.numAllocated = 0 := by
      rw [exchanged₂.keeps.numAllocated, exchanged₂.keeps'.numAllocated]
      omega
    rw [same, same', number, number', moved, bind_some]
    dsimp only
    rw [none]
    exact ⟨d₂, other₂, rfl, all ▸ exchanged.trans exchanged₂⟩
  · have both : 0 + min d.numAllocated other.numAllocated = ys.length := by omega
    have all : ys.length + (xs.length - ys.length) = max xs.length ys.length := by omega
    have none : other₁.numAllocated - d₁.numAllocated = 0 := by omega
    rw [both] at exchanged
    have ⟨other₂, d₂, moved, exchanged₂⟩ := moveElements_views (xs.length - ys.length) ys.length
      exchanged.views' exchanged.views le_rfl (by omega) (by omega) (by omega)
    rw [none, moveElements, bind_some]
    dsimp only
    rw [same, same', number, number', moved]
    exact ⟨d₂, other₂, rfl, all ▸ exchanged.trans exchanged₂.symm⟩

theorem swap_holds (holds : Holds d xs) (holds' : Holds other ys) (fits : ys.length ≤ d.maxSize)
    (fits' : xs.length ≤ other.maxSize) :
    ∃ d' other', d.swap other = some (d', other') ∧ d'.maxSize = d.maxSize ∧
      other'.maxSize = other.maxSize ∧ Holds d' ys ∧ Holds other' xs := by
  have ⟨d', other', returns, exchanged⟩ := swap_exchanges holds holds' fits fits'
  have ⟨first, second⟩ := exchanged.holds holds holds' (Nat.le_max_left _ _)
    (Nat.le_max_right _ _) fits fits'
  exact ⟨_, _, returns, exchanged.keeps.maxSize, exchanged.keeps'.maxSize, first, second⟩

/-! ### Ranges in memory -/

theorem contiguousRange_longest (holds : Holds d xs) (bound : position ≤ xs.length) :
    (∀ k < (d.contiguousRange position).2,
      d.slots ((d.contiguousRange position).1 + k) = xs[position + k]?) ∧
    position + (d.contiguousRange position).2 ≤ xs.length ∧
    (position + (d.contiguousRange position).2 = xs.length ∨
      (d.contiguousRange position).1 + (d.contiguousRange position).2 = d.maxSize) := by
  have number := holds.number
  have fits := holds.fits
  by_cases empty : d.numAllocated = 0
  · rw [contiguousRange, if_neg (fun some => some empty)]
    refine ⟨fun k inside => absurd inside (Nat.not_lt_zero k), ?_, Or.inl ?_⟩
    · omega
    · dsimp only
      omega
  have started := holds.views.started (by omega)
  rw [contiguousRange, if_pos empty]
  dsimp only
  by_cases wraps : d.start + position < d.maxSize
  · have place : d.index position = d.start + position := if_pos wraps
    rw [place]
    refine ⟨?_, by omega, by omega⟩
    intro k inside
    rw [← holds.views.slot (position + k) (by omega), index, if_pos (by omega), Nat.add_assoc]
  · have place : d.index position = d.start + position - d.maxSize := if_neg wraps
    rw [place]
    refine ⟨?_, by omega, by omega⟩
    intro k inside
    rw [← holds.views.slot (position + k) (by omega), index, if_neg (by omega)]
    congr 1
    omega

theorem contiguousRangeAtEnd_longest (holds : Holds d xs) (bound : position ≤ xs.length) :
    (∀ k < (d.contiguousRangeAtEnd position).2,
      d.slots ((d.contiguousRangeAtEnd position).1 + k) =
        xs[position - (d.contiguousRangeAtEnd position).2 + k]?) ∧
    (d.contiguousRangeAtEnd position).2 ≤ position ∧
    ((d.contiguousRangeAtEnd position).2 = position ∨
      (d.contiguousRangeAtEnd position).1 = 0) := by
  have number := holds.number
  have fits := holds.fits
  by_cases empty : d.numAllocated = 0
  · rw [contiguousRangeAtEnd, if_neg (fun some => some empty)]
    refine ⟨fun k inside => absurd inside (Nat.not_lt_zero k), Nat.zero_le _, Or.inr rfl⟩
  have started := holds.views.started (by omega)
  rw [contiguousRangeAtEnd, if_pos empty]
  dsimp only
  have behind : ∃ i, (if d.index position = 0 then d.maxSize else d.index position) = i ∧
      (i = d.start + position ∨ i + d.maxSize = d.start + position ∨ position = 0) ∧
      i ≤ d.maxSize ∧ 0 < i := by
    refine ⟨_, rfl, ?_⟩
    rw [index]
    split_ifs <;> omega
  obtain ⟨i, same, place, high, low⟩ := behind
  rw [same]
  refine ⟨?_, by omega, by omega⟩
  intro k inside
  rw [← holds.views.slot (position - (i - max (i - position) 0) + k) (by omega)]
  congr 1
  rw [index]
  split_ifs <;> omega

/-! ### Runs -/

inductive Operation (τ : Type)
  | pushFront (value : τ)
  | popFront
  | pushBack (value : τ)
  | popBack
  | insert (position : Nat) (values : List τ)
  | insertCopies (position n : Nat) (value : τ)
  | emplace (position : Nat) (value : τ)
  | emplaceFront (value : τ)
  | emplaceBack (value : τ)
  | erase (first last : Nat)
  | assign (values : List τ)
  | clear

def perform (movedFrom : τ → τ) : Operation τ → BoundedDeque τ → Option (BoundedDeque τ)
  | .pushFront value => pushFront value
  | .popFront => popFront
  | .pushBack value => pushBack value
  | .popBack => popBack
  | .insert position values => insertValues movedFrom position values
  | .insertCopies position n value => insertCopies movedFrom position n value
  | .emplace position value => emplace movedFrom position value
  | .emplaceFront value => emplaceFront value
  | .emplaceBack value => emplaceBack value
  | .erase first last => erase movedFrom first last
  | .assign values => assignValues values
  | .clear => clear

def listed : Operation τ → List τ → List τ
  | .pushFront value, xs | .emplaceFront value, xs => value :: xs
  | .popFront, xs => xs.tail
  | .pushBack value, xs | .emplaceBack value, xs => xs ++ [value]
  | .popBack, xs => xs.dropLast
  | .insert position values, xs => xs.take position ++ values ++ xs.drop position
  | .insertCopies position n value, xs =>
    xs.take position ++ List.replicate n value ++ xs.drop position
  | .emplace position value, xs => xs.take position ++ [value] ++ xs.drop position
  | .erase first last, xs => xs.take first ++ xs.drop last
  | .assign values, _ => values
  | .clear, _ => []

/-- The capacity is respected, and positions are those of elements or at the end. -/
def Respects (maxSize : Nat) (xs : List τ) : Operation τ → Prop
  | .pushFront _ | .pushBack _ | .emplaceFront _ | .emplaceBack _ => xs.length < maxSize
  | .popFront | .popBack => xs ≠ []
  | .insert position values => position ≤ xs.length ∧ xs.length + values.length ≤ maxSize
  | .insertCopies position n _ => position ≤ xs.length ∧ xs.length + n ≤ maxSize
  | .emplace position _ => position ≤ xs.length ∧ xs.length < maxSize
  | .erase first last => first ≤ last ∧ last ≤ xs.length
  | .assign values => values.length ≤ maxSize
  | .clear => True

/-- The operation uses the slots as they are. -/
def Sound (xs : List τ) : Operation τ → Prop
  | .insert position values => InsertsSoundly position values.length xs.length
  | .insertCopies position n _ => InsertsSoundly position n xs.length
  | .emplace position _ => position = xs.length
  | .erase first last => ErasesSoundly first last xs.length
  | _ => True

theorem perform_holds (movedFrom : τ → τ) (holds : Holds d xs) (operation : Operation τ)
    (respects : Respects d.maxSize xs operation) (sound : Sound xs operation) :
    ∃ d', perform movedFrom operation d = some d' ∧ d'.maxSize = d.maxSize ∧
      Holds d' (listed operation xs) := by
  cases operation with
  | pushFront value => exact pushFront_holds holds value respects
  | popFront => exact popFront_holds holds respects
  | pushBack value => exact pushBack_holds holds value respects
  | popBack => exact popBack_holds holds respects
  | insert position values => exact insertValues_holds holds values respects.2 sound
  | insertCopies position n value =>
    have length : (List.replicate n value).length = n := List.length_replicate
    exact insertValues_holds holds (List.replicate n value)
      (by rw [length]; exact respects.2) (by rw [length]; exact sound)
  | emplace position value =>
    cases sound
    have ⟨d', returns, same, holds'⟩ := emplace_holds movedFrom holds value respects.2
    refine ⟨d', returns, same, ?_⟩
    rw [listed, take_length, drop_length, append_nil]
    exact holds'
  | emplaceFront value => exact emplaceFront_holds holds value respects
  | emplaceBack value => exact pushBack_holds holds value respects
  | erase first last => exact erase_holds holds respects.1 respects.2 sound
  | assign values =>
    have ⟨d₁, cleared, same, holds₁⟩ := clear_holds holds
    have ⟨d', pushed, same', holds'⟩ := pushAll_holds values holds₁ (by
      rw [length_nil, Nat.zero_add, same]
      exact respects)
    exact ⟨d', by rw [perform, assignValues, cleared]; exact pushed, same'.trans same, holds'⟩
  | clear => exact clear_holds holds

section

variable {ι : Type} [DecidableEq ι]

structure Deques (ι τ : Type) where
  deques : ι → BoundedDeque τ
  lists : ι → List τ

inductive Call (ι τ : Type)
  | on (i : ι) (operation : Operation τ)
  | swap (i j : ι)

def step (movedFrom : τ → τ) (s : Deques ι τ) : Call ι τ → Option (Deques ι τ)
  | .on i operation => (perform movedFrom operation (s.deques i)).map fun d =>
    ⟨update s.deques i d, update s.lists i (listed operation (s.lists i))⟩
  | .swap i j => ((s.deques i).swap (s.deques j)).map fun (d, other) =>
    ⟨update (update s.deques i d) j other,
      update (update s.lists i (s.lists j)) j (s.lists i)⟩

/-- The calls that respect the capacity. -/
def Fits (s : Deques ι τ) : Call ι τ → Prop
  | .on i operation => Respects (s.deques i).maxSize (s.lists i) operation
  | .swap i j => i ≠ j ∧ (s.lists j).length ≤ (s.deques i).maxSize ∧
      (s.lists i).length ≤ (s.deques j).maxSize

/-- The calls that use the slots as they are. -/
def UsesSlots (s : Deques ι τ) : Call ι τ → Prop
  | .on i operation => Sound (s.lists i) operation
  | .swap _ _ => True

def emptyDeques (maxSizes : ι → Nat) : Deques ι τ :=
  ⟨fun i => ⟨maxSizes i, fun _ => none, 0, 0⟩, fun _ => []⟩

/-- What a deque is to its list. -/
structure IsList (d : BoundedDeque τ) (xs : List τ) : Prop where
  holds : Holds d xs
  range : ∀ position ≤ xs.length,
    (∀ k < (d.contiguousRange position).2,
      d.slots ((d.contiguousRange position).1 + k) = xs[position + k]?) ∧
    position + (d.contiguousRange position).2 ≤ xs.length ∧
    (position + (d.contiguousRange position).2 = xs.length ∨
      (d.contiguousRange position).1 + (d.contiguousRange position).2 = d.maxSize)
  rangeAtEnd : ∀ position ≤ xs.length,
    (∀ k < (d.contiguousRangeAtEnd position).2,
      d.slots ((d.contiguousRangeAtEnd position).1 + k) =
        xs[position - (d.contiguousRangeAtEnd position).2 + k]?) ∧
    (d.contiguousRangeAtEnd position).2 ≤ position ∧
    ((d.contiguousRangeAtEnd position).2 = position ∨ (d.contiguousRangeAtEnd position).1 = 0)

theorem Holds.isList (holds : Holds d xs) : IsList d xs :=
  ⟨holds, fun _ bound => contiguousRange_longest holds bound,
    fun _ bound => contiguousRangeAtEnd_longest holds bound⟩

theorem step_holds (movedFrom : τ → τ) {s : Deques ι τ}
    (holds : ∀ i, Holds (s.deques i) (s.lists i)) {call : Call ι τ} (fits : Fits s call)
    (uses : UsesSlots s call) :
    ∃ t, step movedFrom s call = some t ∧ ∀ i, Holds (t.deques i) (t.lists i) := by
  cases call with
  | on i operation =>
    have ⟨d', returns, _, holds'⟩ := perform_holds movedFrom (holds i) operation fits uses
    refine ⟨_, by rw [step, returns]; rfl, ?_⟩
    intro j
    dsimp only
    by_cases same : j = i
    · rw [same, update_self, update_self]
      exact holds'
    · rw [update_of_ne same, update_of_ne same]
      exact holds j
  | swap i j =>
    have ⟨different, fits, fits'⟩ := fits
    have ⟨d', other', returns, _, _, holds', holds''⟩ := swap_holds (holds i) (holds j) fits fits'
    refine ⟨_, by rw [step, returns]; rfl, ?_⟩
    intro k
    dsimp only
    by_cases second : k = j
    · rw [second, update_self, update_self]
      exact holds''
    rw [update_of_ne second, update_of_ne second]
    by_cases first : k = i
    · rw [first, update_self, update_self]
      exact holds'
    · rw [update_of_ne first, update_of_ne first]
      exact holds k

theorem empty_holds (maxSize : Nat) : Holds (⟨maxSize, fun _ => none, 0, 0⟩ : BoundedDeque τ) [] :=
  ⟨⟨fun some => some, fun _ _ => rfl⟩, rfl, Nat.zero_le _⟩

end

end BoundedDeques
