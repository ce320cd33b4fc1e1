import Mathlib.Data.List.Basic

/-! `BoundedDeque`: elements in a ring of slots, of which each holds a constructed object or none. -/

namespace BoundedDeques

variable {τ : Type}

structure BoundedDeque (τ : Type) where
  maxSize : Nat
  slots : Nat → Option τ
  start : Nat
  numAllocated : Nat

namespace BoundedDeque

variable (d : BoundedDeque τ) (slot : Nat) (value : τ)

def index (elementIndex : Nat) : Nat :=
  if d.start + elementIndex < d.maxSize then d.start + elementIndex
  else d.start + elementIndex - d.maxSize

def put (object : Option τ) (d : BoundedDeque τ) : BoundedDeque τ :=
  { d with slots := Function.update d.slots slot object }

/-! What is done with a slot has no value where an object is constructed in a slot that has one,
or where an object is used that is not there. -/

def construct (value : τ) (d : BoundedDeque τ) : Option (BoundedDeque τ) :=
  match d.slots slot with
  | none => some (d.put slot (some value))
  | some _ => none

def assign (value : τ) (d : BoundedDeque τ) : Option (BoundedDeque τ) :=
  (d.slots slot).map fun _ => d.put slot (some value)

def destruct (d : BoundedDeque τ) : Option (BoundedDeque τ) :=
  (d.slots slot).map fun _ => d.put slot none

/-- The values of a range, one after the other, by construction or by assignment. -/
def fill (write : Nat → τ → BoundedDeque τ → Option (BoundedDeque τ)) :
    Nat → List τ → BoundedDeque τ → Option (BoundedDeque τ)
  | _, [], d => some d
  | element, value :: values, d =>
    (write (d.index element) value d).bind (fill write (element + 1) values)

def pushFront (d : BoundedDeque τ) : Option (BoundedDeque τ) :=
  let d := { d with start := d.index (d.maxSize - 1) }
  (d.construct d.start value).map fun d => { d with numAllocated := d.numAllocated + 1 }

def popFront : Option (BoundedDeque τ) :=
  (d.destruct d.start).map fun d =>
    { d with start := d.index 1, numAllocated := d.numAllocated - 1 }

def pushBack (d : BoundedDeque τ) : Option (BoundedDeque τ) :=
  (d.construct (d.index d.numAllocated) value).map fun d =>
    { d with numAllocated := d.numAllocated + 1 }

def popBack : Option (BoundedDeque τ) :=
  (d.destruct (d.index (d.numAllocated - 1))).map fun d =>
    { d with numAllocated := d.numAllocated - 1 }

def emplaceFront (d : BoundedDeque τ) : Option (BoundedDeque τ) :=
  let d := { d with start := if d.start ≠ 0 then d.start - 1 else d.maxSize - 1 }
  (d.construct (d.index 0) value).map fun d => { d with numAllocated := d.numAllocated + 1 }

def emplaceBack (d : BoundedDeque τ) : Option (BoundedDeque τ) := d.pushBack value

/-- The loop of `clear` for objects with a destructor. -/
def popAll : Nat → BoundedDeque τ → Option (BoundedDeque τ)
  | 0, d => some d
  | count + 1, d => d.popBack.bind (popAll count)

def clear : Option (BoundedDeque τ) :=
  (popAll d.numAllocated d).map fun d => { d with start := 0 }

def pushAll : List τ → BoundedDeque τ → Option (BoundedDeque τ)
  | [], d => some d
  | value :: values, d => (d.pushBack value).bind (pushAll values)

/-- The values of a range, or `n` times one value. -/
def assignValues (values : List τ) (d : BoundedDeque τ) : Option (BoundedDeque τ) :=
  d.clear.bind (pushAll values)

section

-- What is left of an object that has been moved from, or has been moved to itself.
variable (movedFrom : τ → τ)

/-- `Construct(std::move(..))` -/
def constructFrom (slot source : Nat) (d : BoundedDeque τ) : Option (BoundedDeque τ) :=
  (d.slots source).bind fun value =>
    (d.construct slot value).map fun d => d.put source (some (movedFrom value))

/-- Assignment of `std::move(..)` -/
def assignFrom (slot source : Nat) (d : BoundedDeque τ) : Option (BoundedDeque τ) :=
  (d.slots source).bind fun value =>
    (d.assign slot value).map fun d => d.put source (some (movedFrom value))

/-- The first loop of `move_up`, with the number of copies that it leaves and their position. -/
def moveUpConstruct (n : Nat) :
    Nat → Nat → BoundedDeque τ → Option (Nat × Nat × BoundedDeque τ)
  | 0, copyPosition, d => some (0, copyPosition, d)
  | copies + 1, copyPosition, d =>
    if d.numAllocated ≤ copyPosition then
      (d.constructFrom movedFrom (d.index copyPosition) (d.index (copyPosition - n))).bind
        (moveUpConstruct n copies (copyPosition - 1))
    else some (copies + 1, copyPosition, d)

/-- The second loop of `move_up`. -/
def moveUpAssign (n : Nat) : Nat → Nat → BoundedDeque τ → Option (BoundedDeque τ)
  | 0, _, d => some d
  | copies + 1, copyPosition, d =>
    (d.assignFrom movedFrom (d.index copyPosition) (d.index (copyPosition - n))).bind
      (moveUpAssign n copies (copyPosition - 1))

variable (position : Nat)

def moveUp (n : Nat) (d : BoundedDeque τ) : Option (BoundedDeque τ) :=
  (moveUpConstruct movedFrom n (d.numAllocated - position) (d.numAllocated + n - 1) d).bind
    fun (copies, copyPosition, d) =>
      (moveUpAssign movedFrom n copies copyPosition d).map fun d =>
        { d with numAllocated := d.numAllocated + n }

/-- `insert` of a range, and of `n` times one value. -/
def insertValues (values : List τ) (d : BoundedDeque τ) : Option (BoundedDeque τ) :=
  if position = 0 ∧ d.numAllocated ≠ 0 then
    fill construct position values { d with
      start := d.index (d.maxSize - values.length)
      numAllocated := d.numAllocated + values.length }
  else (d.moveUp movedFrom position values.length).bind (fill assign position values)

def insertCopies (n : Nat) (value : τ) : BoundedDeque τ → Option (BoundedDeque τ) :=
  insertValues movedFrom position (List.replicate n value)

/-- `emplace`, and `insert` of an rvalue. -/
def emplace (value : τ) (d : BoundedDeque τ) : Option (BoundedDeque τ) :=
  (d.moveUp movedFrom position 1).bind fun d => d.construct (d.index position) value

/-- The loop of `erase` at the front. -/
def eraseFront : Nat → BoundedDeque τ → Option (BoundedDeque τ)
  | 0, d => some d
  | count + 1, d =>
    (d.destruct (d.index 0)).bind fun d =>
      let d := { d with numAllocated := d.numAllocated - 1 }
      eraseFront count { d with start := d.index 1 }

def moveDown : Nat → Nat → Nat → BoundedDeque τ → Option (BoundedDeque τ)
  | 0, _, _, d => some d
  | count + 1, firstIndex, lastIndex, d =>
    (d.assignFrom movedFrom (d.index firstIndex) (d.index lastIndex)).bind
      (moveDown count (firstIndex + 1) (lastIndex + 1))

def destructAll : Nat → Nat → BoundedDeque τ → Option (BoundedDeque τ)
  | 0, _, d => some d
  | count + 1, firstIndex, d =>
    (d.destruct (d.index firstIndex)).bind fun d =>
      destructAll count (firstIndex + 1) { d with numAllocated := d.numAllocated - 1 }

def erase (firstIndex lastIndex : Nat) (d : BoundedDeque τ) : Option (BoundedDeque τ) :=
  if firstIndex = 0 then eraseFront lastIndex d
  else
    let moved := d.numAllocated - lastIndex
    (moveDown movedFrom moved firstIndex lastIndex d).bind
      (destructAll (lastIndex - firstIndex) (firstIndex + moved))

end

/-! Of two deques, `swap` exchanges the elements that both have, and moves the others. -/

def swapElements : Nat → Nat → BoundedDeque τ → BoundedDeque τ →
    Option (BoundedDeque τ × BoundedDeque τ)
  | 0, _, d, other => some (d, other)
  | count + 1, i, d, other =>
    (d.slots (d.index i)).bind fun value =>
      (other.slots (other.index i)).bind fun value' =>
        swapElements count (i + 1) (d.put (d.index i) (some value'))
          (other.put (other.index i) (some value))

/-- The elements of `other` from `i` on are constructed in `d` and destructed in `other`. -/
def moveElements : Nat → Nat → BoundedDeque τ → BoundedDeque τ →
    Option (BoundedDeque τ × BoundedDeque τ)
  | 0, _, d, other => some (d, other)
  | count + 1, i, d, other =>
    (other.slots (other.index i)).bind fun value =>
      (d.construct (d.index i) value).bind fun d =>
        (other.destruct (other.index i)).bind fun other => moveElements count (i + 1) d other

def swap (other : BoundedDeque τ) : Option (BoundedDeque τ × BoundedDeque τ) :=
  (swapElements (min d.numAllocated other.numAllocated) 0 d other).bind fun (d, other) =>
    (moveElements (other.numAllocated - d.numAllocated) d.numAllocated d other).bind
      fun (d, other) =>
        (moveElements (d.numAllocated - other.numAllocated) other.numAllocated other d).map
          fun (other, d) =>
            ({ d with numAllocated := other.numAllocated },
              { other with numAllocated := d.numAllocated })

/-- The first slot and the number of slots of a range in memory. -/
def contiguousRange (position : Nat) (d : BoundedDeque τ) : Nat × Nat :=
  if d.numAllocated ≠ 0 then
    let i := d.index position
    (i, min (i + d.numAllocated - position) d.maxSize - i)
  else (0, 0)

def contiguousRangeAtEnd (position : Nat) (d : BoundedDeque τ) : Nat × Nat :=
  if d.numAllocated ≠ 0 then
    let i := if d.index position = 0 then d.maxSize else d.index position
    (max (i - position) 0, i - max (i - position) 0)
  else (0, 0)

end BoundedDeque

end BoundedDeques
