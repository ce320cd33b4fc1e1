import Mathlib.Order.MinMax

/-! A cyclic buffer over a range of storage, and the list of elements that it holds. -/

/-- Positions in the storage stand for the pointers. -/
structure CyclicBuffer (α : Type) where
  storage : List α
  front : Nat
  back : Nat
  isFull : Bool

namespace CyclicBuffer

open List

variable {α : Type}

def construct (storage : List α) : CyclicBuffer α := ⟨storage, 0, 0, false⟩

def empty (buffer : CyclicBuffer α) : Bool := buffer.front == buffer.back && !buffer.isFull

def full (buffer : CyclicBuffer α) : Bool := buffer.isFull

def size (buffer : CyclicBuffer α) : Nat :=
  if buffer.isFull = true then buffer.storage.length
  else if buffer.back < buffer.front then buffer.storage.length - buffer.front + buffer.back
  else buffer.back - buffer.front

def available (buffer : CyclicBuffer α) : Nat := buffer.storage.length - buffer.size

/-- `std::copy` into the storage. -/
def copy (storage data : List α) (place : Nat) : List α :=
  storage.take place ++ data ++ storage.drop (place + data.length)

def wrap (buffer : CyclicBuffer α) (place : Nat) : Nat :=
  if place = buffer.storage.length then 0 else place

def push (buffer : CyclicBuffer α) (data : α) : Option (CyclicBuffer α) :=
  if buffer.full = true then none
  else
    let back := buffer.wrap (buffer.back + 1)
    some { buffer with
      storage := copy buffer.storage [data] buffer.back
      back := back
      isFull := buffer.isFull || buffer.front == back }

def pushRange (buffer : CyclicBuffer α) (data : List α) : Option (CyclicBuffer α) :=
  if data.length ≤ buffer.storage.length - buffer.size then
    let size := min data.length (buffer.storage.length - buffer.back)
    let storage := copy buffer.storage (data.take size) buffer.back
    let back := buffer.wrap (buffer.back + size)
    let (storage, back) :=
      if size < data.length then (copy storage (data.drop size) back, back + (data.length - size))
      else (storage, back)
    some { buffer with
      storage := storage
      back := back
      isFull := buffer.isFull || !data.isEmpty && buffer.front == back }
  else none

def pop (buffer : CyclicBuffer α) (numToPop : Nat) : CyclicBuffer α :=
  let isFull := buffer.isFull && numToPop == 0
  let front :=
    if buffer.storage.length - buffer.front ≤ numToPop then
      numToPop - (buffer.storage.length - buffer.front)
    else buffer.front + numToPop
  have popped := { buffer with isFull := isFull, front := front }
  if popped.empty = true then { popped with front := 0, back := 0 } else popped

/-- Where the range begins, and its elements. -/
def contiguousRange (buffer : CyclicBuffer α) (offset : Nat) : Option (Nat × List α) :=
  if offset = 0 ∨ offset < buffer.size then
    if buffer.empty = true then some (0, [])
    else
      let offsetFront := buffer.front + offset
      let offsetFront :=
        if buffer.storage.length ≤ offsetFront then offsetFront - buffer.storage.length
        else offsetFront
      if buffer.back ≤ offsetFront then some (offsetFront, buffer.storage.drop offsetFront)
      else some (offsetFront, (buffer.storage.take buffer.back).drop offsetFront)
  else none

inductive Operation (α : Type)
  | push (data : α)
  | pushRange (data : List α)
  | pop (numToPop : Nat)

def perform (buffer : CyclicBuffer α) : Operation α → Option (CyclicBuffer α)
  | .push data => buffer.push data
  | .pushRange data => buffer.pushRange data
  | .pop numToPop => some (buffer.pop numToPop)

/-- A list of at most `capacity` elements; an operation that it has no room or too few elements
for is not allowed. -/
def performList (capacity : Nat) (xs : List α) : Operation α → Option (List α)
  | .push data => if xs.length < capacity then some (xs ++ [data]) else none
  | .pushRange data => if data.length ≤ capacity - xs.length then some (xs ++ data) else none
  | .pop numToPop => if numToPop ≤ xs.length then some (xs.drop numToPop) else none

/-- The elements lie in one piece that ends before the storage does, or in two pieces, of which the
first one ends where the storage does. -/
inductive Holds : CyclicBuffer α → List α → Prop
  | plain (before xs behind : List α) (room : behind ≠ []) :
    Holds ⟨before ++ xs ++ behind, before.length, before.length + xs.length, false⟩ xs
  | wrapped (first second gap : List α) (some : first ≠ []) :
    Holds ⟨second ++ gap ++ first, second.length + gap.length, second.length, gap.isEmpty⟩
      (first ++ second)

variable {buffer : CyclicBuffer α} {xs : List α}

theorem holds_plain (before behind : List α) (storage : buffer.storage = before ++ xs ++ behind)
    (front : buffer.front = before.length) (back : buffer.back = before.length + xs.length)
    (notFull : buffer.isFull = false) (room : behind ≠ []) : Holds buffer xs := by
  cases buffer
  subst storage front back notFull
  exact .plain before xs behind room

theorem holds_wrapped (first second gap : List α) (elements : xs = first ++ second)
    (storage : buffer.storage = second ++ gap ++ first)
    (front : buffer.front = second.length + gap.length) (back : buffer.back = second.length)
    (full : buffer.isFull = gap.isEmpty) (some : first ≠ []) : Holds buffer xs := by
  cases buffer
  subst elements storage front back full
  exact .wrapped first second gap some

theorem holds_construct {storage : List α} (some : storage ≠ []) : Holds (construct storage) [] :=
  .plain [] [] storage some

theorem Holds.size_eq (holds : Holds buffer xs) : buffer.size = xs.length := by
  cases holds with
  | plain before xs behind room =>
    simp only [size, Bool.false_eq_true, if_false]
    rw [if_neg (by omega), Nat.add_sub_cancel_left]
  | wrapped first second gap some =>
    cases gap with
    | nil => simp [size, Nat.add_comm]
    | cons x gap => simp [size]; omega

theorem Holds.full_eq (holds : Holds buffer xs) :
    buffer.full = decide (xs.length = buffer.storage.length) := by
  cases holds with
  | plain before xs behind room =>
    have := length_pos_iff.mpr room
    simp [full]
    omega
  | wrapped first second gap some =>
    cases gap <;> simp [full]
    all_goals omega

theorem Holds.empty_eq (holds : Holds buffer xs) : buffer.empty = decide (xs = []) := by
  cases holds with
  | plain before xs behind room => cases xs <;> simp [empty]
  | wrapped first second gap some => cases gap <;> simp [empty, some]

theorem Holds.inside (holds : Holds buffer xs) :
    buffer.front < buffer.storage.length ∧ buffer.back < buffer.storage.length := by
  cases holds with
  | plain before xs behind room =>
    have := length_pos_iff.mpr room
    simp only [length_append]
    omega
  | wrapped first second gap some =>
    have := length_pos_iff.mpr some
    simp only [length_append]
    omega

theorem Holds.length_le (holds : Holds buffer xs) : xs.length ≤ buffer.storage.length := by
  cases holds <;> simp only [length_append] <;> omega

theorem copy_between (front middle behind data : List α) (same : data.length = middle.length) :
    copy (front ++ middle ++ behind) data front.length = front ++ data ++ behind := by
  rw [copy, append_assoc front, take_left, same, ← length_append,
    ← append_assoc front, drop_left]

theorem pushRange_eq (holds : Holds buffer xs) {data : List α}
    (room : data.length ≤ buffer.storage.length - xs.length) {size : Nat}
    (first : size = min data.length (buffer.storage.length - buffer.back)) :
    buffer.pushRange data =
      if size < data.length then
        some { buffer with
          storage := copy (copy buffer.storage (data.take size) buffer.back) (data.drop size) 0
          back := data.length - size
          isFull := buffer.isFull || !data.isEmpty && buffer.front == data.length - size }
      else
        some { buffer with
          storage := copy buffer.storage data buffer.back
          back := buffer.wrap (buffer.back + data.length)
          isFull := buffer.isFull ||
            !data.isEmpty && buffer.front == buffer.wrap (buffer.back + data.length) } := by
  have inside := holds.inside.2
  rw [pushRange, holds.size_eq, if_pos room, ← first]
  split
  next more =>
    have whole : buffer.back + size = buffer.storage.length := by omega
    simp only [wrap, if_pos whole, if_pos more, Nat.zero_add]
  next =>
    have all : size = data.length := by omega
    simp only [all, lt_irrefl, if_false, take_length]

theorem Holds.pushRange (holds : Holds buffer xs) (data : List α)
    (room : data.length ≤ buffer.storage.length - xs.length) :
    ∃ next, buffer.pushRange data = some next ∧ Holds next (xs ++ data) ∧
      next.storage.length = buffer.storage.length := by
  rw [pushRange_eq holds room rfl]
  cases holds with
  | plain before xs behind some_ =>
    have positive := length_pos_iff.mpr some_
    simp only [length_append] at room
    simp only [length_append, wrap, Bool.false_or]
    have left : before.length + xs.length + behind.length - (before.length + xs.length) =
        behind.length := Nat.add_sub_cancel_left ..
    rw [left]
    by_cases short : data.length < behind.length
    · -- The copy ends before the storage does.
      have stored := copy_between (before ++ xs) (behind.take data.length)
        (behind.drop data.length) data (by rw [length_take, min_eq_left short.le])
      rw [append_assoc (before ++ xs), take_append_drop, length_append] at stored
      rw [min_eq_left short.le, if_neg (lt_irrefl _), if_neg (by omega), stored]
      refine ⟨_, rfl, holds_plain before (behind.drop data.length) (by simp) rfl (by simp; omega)
        ?_ (ne_nil_of_length_pos (by rw [length_drop]; omega)), by simp; omega⟩
      cases data with
      | nil => rfl
      | cons x data => exact beq_false_of_ne (by rw [length_cons]; omega)
    · -- The copy reaches the end of the storage, and goes on at its start.
      have long := not_lt.mp short
      have nonempty : data.isEmpty = false := isEmpty_eq_false_iff.mpr
        (ne_nil_of_length_pos (by omega))
      have stored := copy_between (before ++ xs) behind [] (data.take behind.length)
        (by rw [length_take, min_eq_left long])
      rw [append_nil, append_nil, length_append] at stored
      have full : (before.length == data.length - behind.length) =
          (before.drop (data.length - behind.length)).isEmpty := by
        rw [Bool.eq_iff_iff, List.isEmpty_iff, drop_eq_nil_iff, beq_iff_eq]
        omega
      have first : xs ++ data.take behind.length ≠ [] :=
        ne_nil_of_length_pos (by rw [length_append, length_take]; omega)
      have wrapped := fun next => @holds_wrapped _ next _ (xs ++ data.take behind.length)
        (data.drop behind.length) (before.drop (data.length - behind.length))
        (by rw [append_assoc, take_append_drop])
      rw [min_eq_right long, nonempty]
      by_cases more : behind.length < data.length
      · have again := copy_between [] (before.take (data.length - behind.length))
          (before.drop (data.length - behind.length) ++ (xs ++ data.take behind.length))
          (data.drop behind.length) (by simp; omega)
        rw [nil_append, ← append_assoc, take_append_drop, ← append_assoc,
          nil_append, length_nil] at again
        rw [if_pos more, stored, again]
        refine ⟨_, rfl, wrapped _ (by simp) (by simp; omega) (by simp) full first, by simp; omega⟩
      · have exactly : data.length = behind.length := by omega
        rw [← exactly, take_length] at stored
        rw [if_neg more, stored, exactly, if_pos rfl]
        rw [exactly, Nat.sub_self] at full
        rw [exactly, Nat.sub_self, drop_zero] at wrapped
        refine ⟨_, rfl, wrapped _ ?_ ?_ ?_ full first, by simp; omega⟩
        · simp [← exactly]
        · simp [← exactly]
        · simp [← exactly]
  | wrapped first second gap some_ =>
    have positive := length_pos_iff.mpr some_
    simp only [length_append] at room
    have short : data.length ≤ gap.length := by omega
    have stored := copy_between second (gap.take data.length) (gap.drop data.length ++ first) data
      (by rw [length_take, min_eq_left short])
    rw [append_assoc second, ← append_assoc (gap.take _), take_append_drop,
      ← append_assoc second] at stored
    simp only [length_append, wrap]
    rw [min_eq_left (by omega), if_neg (lt_irrefl _), if_neg (by omega), stored]
    refine ⟨_, rfl, holds_wrapped first (second ++ data) (gap.drop data.length) (by simp) (by simp)
      (by simp; omega) (by simp) ?_ some_, by simp; omega⟩
    cases data with
    | nil => simp
    | cons x data =>
      have gapSome : gap ≠ [] := ne_nil_of_length_pos (Nat.lt_of_lt_of_le (by simp) short)
      simp only [isEmpty_eq_false_iff.mpr gapSome, isEmpty_cons, Bool.not_false,
        Bool.true_and, Bool.false_or]
      rw [Bool.eq_iff_iff, List.isEmpty_iff, drop_eq_nil_iff, beq_iff_eq]
      omega

theorem Holds.push (holds : Holds buffer xs) (data : α) (room : xs.length < buffer.storage.length) :
    buffer.push data = buffer.pushRange [data] := by
  have inside := holds.inside.2
  have notFull : buffer.full = false := by
    rw [holds.full_eq]
    exact decide_eq_false room.ne
  rw [pushRange_eq holds (by rw [length_singleton]; omega) rfl, CyclicBuffer.push, notFull,
    length_singleton, min_eq_left (by omega), if_neg Bool.false_ne_true,
    if_neg (lt_irrefl _)]
  rfl

theorem pop_eq (buffer : CyclicBuffer α) (numToPop front : Nat)
    (moved : front = if buffer.storage.length - buffer.front ≤ numToPop
      then numToPop - (buffer.storage.length - buffer.front) else buffer.front + numToPop) :
    buffer.pop numToPop =
      if (front == buffer.back && !(buffer.isFull && numToPop == 0)) = true then
        ⟨buffer.storage, 0, 0, buffer.isFull && numToPop == 0⟩
      else ⟨buffer.storage, front, buffer.back, buffer.isFull && numToPop == 0⟩ := by
  subst moved
  rfl

theorem holds_popped {before rest behind : List α} {front : Nat} (front_eq : front = before.length)
    {back : Nat} (back_eq : back = before.length + rest.length) (room : behind ≠ []) :
    Holds (if (front == back && !false) = true then ⟨before ++ rest ++ behind, 0, 0, false⟩
      else ⟨before ++ rest ++ behind, front, back, false⟩) rest := by
  subst front_eq back_eq
  cases rest with
  | nil =>
    rw [if_pos (by simp)]
    exact holds_plain [] (before ++ [] ++ behind) rfl rfl rfl rfl (by simp [room])
  | cons x rest =>
    rw [if_neg (by simp)]
    exact .plain before (x :: rest) behind room

theorem Holds.pop (holds : Holds buffer xs) (numToPop : Nat) (inside : numToPop ≤ xs.length) :
    Holds (buffer.pop numToPop) (xs.drop numToPop) ∧
      (buffer.pop numToPop).storage.length = buffer.storage.length := by
  refine ⟨?_, by rw [CyclicBuffer.pop, apply_ite storage, ite_self]⟩
  cases holds with
  | plain before xs behind some_ =>
    have positive := length_pos_iff.mpr some_
    rw [pop_eq _ numToPop (before.length + numToPop)
      (by simp only [length_append]; rw [if_neg (by omega)])]
    have popped := @holds_popped _ (before ++ xs.take numToPop) (xs.drop numToPop) behind
      (before.length + numToPop) (by simp; omega) (before.length + xs.length) (by simp; omega) some_
    rwa [append_assoc before, take_append_drop] at popped
  | wrapped first second gap some_ =>
    have positive := length_pos_iff.mpr some_
    rw [length_append] at inside
    by_cases more : numToPop < first.length
    · have full : (second.length + gap.length + numToPop == second.length &&
          !(gap.isEmpty && numToPop == 0)) = false := by
        cases gap <;> cases numToPop <;> simp
        omega
      rw [pop_eq _ numToPop (second.length + gap.length + numToPop)
        (by simp only [length_append]; rw [if_neg (by omega)]), full,
        if_neg Bool.false_ne_true]
      refine holds_wrapped (first.drop numToPop) second (gap ++ first.take numToPop) ?_ ?_ ?_ rfl
        ?_ ?_
      · rw [drop_append_of_le_length more.le]
      · simp
      · simp
        omega
      · cases gap <;> cases numToPop <;> simp [some_]
      · exact ne_nil_of_length_pos (by rw [length_drop]; omega)
    · have emptied : (gap.isEmpty && numToPop == 0) = false := by
        rw [beq_false_of_ne (by omega), Bool.and_false]
      rw [pop_eq _ numToPop (numToPop - first.length)
        (by simp only [length_append, Nat.add_sub_cancel_left]; rw [if_pos (by omega)]),
        emptied, drop_append, drop_eq_nil_of_le (not_lt.mp more), nil_append]
      have popped := @holds_popped _ (second.take (numToPop - first.length))
        (second.drop (numToPop - first.length)) (gap ++ first) (numToPop - first.length)
        (by simp; omega) second.length (by simp; omega) (by simp [some_])
      rwa [take_append_drop, ← append_assoc] at popped

theorem Holds.contiguousRange (holds : Holds buffer xs) {offset : Nat}
    (inside : offset < xs.length) :
    ∃ begin_ range, buffer.contiguousRange offset = some (begin_, range) ∧ range ≠ [] ∧
      range <+: xs.drop offset ∧
        (range = xs.drop offset ∨ begin_ + range.length = buffer.storage.length) := by
  have some_ : buffer.empty = false := by
    rw [holds.empty_eq]
    exact decide_eq_false (ne_nil_of_length_pos (by omega))
  have rest : xs.drop offset ≠ [] := ne_nil_of_length_pos (by rw [length_drop]; omega)
  simp only [CyclicBuffer.contiguousRange, holds.size_eq, if_pos (Or.inr inside), some_,
    Bool.false_eq_true, if_false]
  generalize place : (if buffer.storage.length ≤ buffer.front + offset then
    buffer.front + offset - buffer.storage.length else buffer.front + offset) = offsetFront
  cases holds with
  | plain before xs behind room =>
    simp only [length_append] at place ⊢
    rw [if_neg (by omega)] at place
    subst place
    rw [if_neg (by omega), ← length_append, take_left, ← drop_drop, drop_left]
    exact ⟨_, _, rfl, rest, List.prefix_rfl, .inl rfl⟩
  | wrapped first second gap some_ =>
    simp only [length_append] at inside place ⊢
    by_cases more : offset < first.length
    · rw [if_neg (by omega)] at place
      subst place
      have tail : (second ++ gap ++ first).drop (second.length + gap.length + offset) =
          first.drop offset := by
        rw [← length_append, ← drop_drop, drop_left]
      rw [if_pos (by omega), tail, drop_append_of_le_length more.le]
      refine ⟨_, _, rfl, ne_nil_of_length_pos (by rw [length_drop]; omega),
        List.prefix_append _ _, .inr ?_⟩
      rw [length_drop]
      omega
    · rw [if_pos (by omega)] at place
      obtain rfl : offset - first.length = offsetFront := by omega
      have tail : (first ++ second).drop offset = second.drop (offset - first.length) := by
        rw [drop_append, drop_eq_nil_of_le (not_lt.mp more), nil_append]
      rw [tail] at rest ⊢
      rw [if_neg (by omega), append_assoc, take_left]
      exact ⟨_, _, rfl, rest, List.prefix_rfl, .inl rfl⟩

def run : CyclicBuffer α → List (Operation α) → Option (CyclicBuffer α) := List.foldlM perform

def runList (capacity : Nat) : List α → List (Operation α) → Option (List α) :=
  List.foldlM (performList capacity)

theorem Holds.perform (holds : Holds buffer xs) {operation : Operation α} {ys : List α}
    (allowed : performList buffer.storage.length xs operation = some ys) :
    ∃ next, buffer.perform operation = some next ∧ Holds next ys ∧
      next.storage.length = buffer.storage.length := by
  cases operation with
  | push data =>
    rw [performList] at allowed
    split at allowed
    next room =>
      obtain rfl := Option.some.inj allowed
      rw [CyclicBuffer.perform, holds.push data room]
      exact holds.pushRange [data] (by rw [length_singleton]; omega)
    next => cases allowed
  | pushRange data =>
    rw [performList] at allowed
    split at allowed
    next room =>
      obtain rfl := Option.some.inj allowed
      exact holds.pushRange data room
    next => cases allowed
  | pop numToPop =>
    rw [performList] at allowed
    split at allowed
    next inside =>
      obtain rfl := Option.some.inj allowed
      exact ⟨_, rfl, holds.pop numToPop inside⟩
    next => cases allowed

theorem Holds.run (holds : Holds buffer xs) {operations : List (Operation α)} {ys : List α}
    (allowed : runList buffer.storage.length xs operations = some ys) :
    ∃ next, buffer.run operations = some next ∧ Holds next ys ∧
      next.storage.length = buffer.storage.length := by
  induction operations generalizing buffer xs with
  | nil =>
    obtain rfl := Option.some.inj allowed
    exact ⟨buffer, rfl, holds, rfl⟩
  | cons operation operations ih =>
    obtain ⟨zs, first, later⟩ := Option.bind_eq_some_iff.mp allowed
    obtain ⟨middle, performed, holds', same⟩ := holds.perform first
    rw [← same] at later ⊢
    obtain ⟨next, runs, done⟩ := ih holds' later
    exact ⟨next, Option.bind_eq_some_iff.mpr ⟨middle, performed, runs⟩, done⟩

/-- After any operations that a list of at most as many elements as the storage has allows, the
buffer holds that list. -/
theorem behaves_as_list (storage : List α) (nonempty : storage ≠ []) (operations : List (Operation α))
    (xs : List α) (allowed : runList storage.length [] operations = some xs) :
    ∃ buffer, (construct storage).run operations = some buffer ∧ xs.length ≤ storage.length ∧
      buffer.empty = decide (xs = []) ∧ buffer.full = decide (xs.length = storage.length) ∧
      buffer.size = xs.length ∧ buffer.available = storage.length - xs.length ∧
      buffer.front < storage.length ∧ buffer.back < storage.length ∧
      ∀ offset, offset < xs.length →
        ∃ begin_ range, buffer.contiguousRange offset = some (begin_, range) ∧ range ≠ [] ∧
          range <+: xs.drop offset ∧
            (range = xs.drop offset ∨ begin_ + range.length = storage.length) := by
  obtain ⟨buffer, runs, holds, same⟩ := (holds_construct nonempty).run allowed
  change buffer.storage.length = storage.length at same
  rw [← same]
  exact ⟨buffer, runs, holds.length_le, holds.empty_eq, holds.full_eq, holds.size_eq,
    congrArg (buffer.storage.length - ·) holds.size_eq, holds.inside.1, holds.inside.2,
    fun offset inside => holds.contiguousRange inside⟩

theorem behaves_as_list_three :
    ∃ buffer, (construct [0, 0, 0]).run [.pushRange [1, 2, 3], .pop 2, .push 4] = some buffer ∧
      buffer.size = 2 := by
  obtain ⟨buffer, runs, -, -, -, size, -⟩ :=
    behaves_as_list [0, 0, 0] (by simp) [.pushRange [1, 2, 3], .pop 2, .push 4] [3, 4] rfl
  exact ⟨buffer, runs, size⟩

end CyclicBuffer
