import Mathlib.Data.List.Basic

/-! `BoundedVector`: elements in slots of which each holds a constructed object or none. A position
is that of an iterator. -/

namespace BoundedVectors

variable {τ : Type}

structure BoundedVector (τ : Type) where
  maxSize : Nat
  slots : Nat → Option τ
  numAllocated : Nat

namespace BoundedVector

variable (slot : Nat) (v : BoundedVector τ)

def put (object : Option τ) (v : BoundedVector τ) : BoundedVector τ :=
  { v with slots := Function.update v.slots slot object }

/-! What is done with a slot has no value where an object is constructed in a slot that has one,
or where an object is used that is not there. -/

def construct (value : τ) (v : BoundedVector τ) : Option (BoundedVector τ) :=
  match v.slots slot with
  | none => some (v.put slot (some value))
  | some _ => none

def assign (value : τ) (v : BoundedVector τ) : Option (BoundedVector τ) :=
  (v.slots slot).map fun _ => v.put slot (some value)

def destruct (v : BoundedVector τ) : Option (BoundedVector τ) :=
  (v.slots slot).map fun _ => v.put slot none

def fill (write : Nat → τ → BoundedVector τ → Option (BoundedVector τ)) :
    Nat → List τ → BoundedVector τ → Option (BoundedVector τ)
  | _, [], v => some v
  | slot, value :: values, v => (write slot value v).bind (fill write (slot + 1) values)

def pushBack (value : τ) (v : BoundedVector τ) : Option (BoundedVector τ) :=
  if v.numAllocated = v.maxSize then none
  else
    (v.construct v.numAllocated value).map fun v => { v with numAllocated := v.numAllocated + 1 }

def emplaceBack (value : τ) (v : BoundedVector τ) : Option (BoundedVector τ) := v.pushBack value

def popBack : Option (BoundedVector τ) :=
  if v.numAllocated = 0 then none
  else
    (v.destruct (v.numAllocated - 1)).map fun v => { v with numAllocated := v.numAllocated - 1 }

/-- The loops of `clear` and of `resize`, while more than `n` elements are left. -/
def popTo (n : Nat) : Nat → BoundedVector τ → Option (BoundedVector τ)
  | 0, v => some v
  | rounds + 1, v => if n < v.numAllocated then v.popBack.bind (popTo n rounds) else some v

def clear : Option (BoundedVector τ) := v.popTo 0 v.numAllocated

def pushAll : List τ → BoundedVector τ → Option (BoundedVector τ)
  | [], v => some v
  | value :: values, v => (v.pushBack value).bind (pushAll values)

def resize (n : Nat) (value : τ) (v : BoundedVector τ) : Option (BoundedVector τ) :=
  (v.popTo n v.numAllocated).bind fun v => pushAll (List.replicate (n - v.numAllocated) value) v

/-- The values of a range, or `n` times one value. -/
def assignValues (values : List τ) (v : BoundedVector τ) : Option (BoundedVector τ) :=
  v.clear.bind (pushAll values)

section

-- What is left of an object that has been moved from, or has been moved to itself.
variable (movedFrom : τ → τ)

/-- `Construct(std::move(..))` -/
def constructFrom (slot source : Nat) (v : BoundedVector τ) : Option (BoundedVector τ) :=
  (v.slots source).bind fun value =>
    (v.construct slot value).map fun v => v.put source (some (movedFrom value))

/-- Assignment of `std::move(..)` -/
def assignFrom (slot source : Nat) (v : BoundedVector τ) : Option (BoundedVector τ) :=
  (v.slots source).bind fun value =>
    (v.assign slot value).map fun v => v.put source (some (movedFrom value))

/-- The first loop of `move_up`, over the elements from the position on, with the number of them
that it leaves and the place behind those. -/
def moveUpConstruct (n : Nat) :
    Nat → Nat → BoundedVector τ → Option (Nat × Nat × BoundedVector τ)
  | 0, copyPosition, v => some (0, copyPosition, v)
  | copies + 1, copyPosition, v =>
    if copyPosition + n ≠ v.numAllocated then
      (v.constructFrom movedFrom (copyPosition + n - 1) (copyPosition - 1)).bind
        (moveUpConstruct n copies (copyPosition - 1))
    else some (copies + 1, copyPosition, v)

/-- The second loop of `move_up`. -/
def moveUpAssign (n : Nat) : Nat → Nat → BoundedVector τ → Option (BoundedVector τ)
  | 0, _, v => some v
  | copies + 1, copyPosition, v =>
    (v.assignFrom movedFrom (copyPosition + n - 1) (copyPosition - 1)).bind
      (moveUpAssign n copies (copyPosition - 1))

variable (position : Nat)

def moveUp (n : Nat) (v : BoundedVector τ) : Option (BoundedVector τ) :=
  (moveUpConstruct movedFrom n (v.numAllocated - position) v.numAllocated v).bind
    fun (copies, copyPosition, v) =>
      (moveUpAssign movedFrom n copies copyPosition v).map fun v =>
        { v with numAllocated := v.numAllocated + n }

/-- `insert` of a range, and of `n` times one value. -/
def insertValues (values : List τ) (v : BoundedVector τ) : Option (BoundedVector τ) :=
  let n := values.length
  if v.numAllocated + n ≤ v.maxSize then
    let initializedSize := min (min (position + n) v.numAllocated) n
    (v.moveUp movedFrom position n).bind fun v =>
      (fill assign position (values.take initializedSize) v).bind
        (fill construct (position + initializedSize) (values.drop initializedSize))
  else none

def insertCopies (n : Nat) (value : τ) : BoundedVector τ → Option (BoundedVector τ) :=
  insertValues movedFrom position (List.replicate n value)

def insert (value : τ) : BoundedVector τ → Option (BoundedVector τ) :=
  insertCopies movedFrom position 1 value

def emplace (value : τ) (v : BoundedVector τ) : Option (BoundedVector τ) :=
  if v.numAllocated ≠ v.maxSize then
    (v.moveUp movedFrom position 1).bind fun v => v.construct position value
  else none

/-- The first loop of `erase`, until `last` is at the end. -/
def moveDown : Nat → Nat → Nat → BoundedVector τ → Option (BoundedVector τ)
  | 0, _, _, v => some v
  | count + 1, first, last, v =>
    (v.assignFrom movedFrom first last).bind (moveDown count (first + 1) (last + 1))

/-- The second loop of `erase`, until `first` is where the end was. -/
def destructAll : Nat → Nat → BoundedVector τ → Option (BoundedVector τ)
  | 0, _, v => some v
  | count + 1, first, v =>
    (v.destruct first).bind fun v =>
      destructAll count (first + 1) { v with numAllocated := v.numAllocated - 1 }

/-- `erase` of a range; that of one element erases the range of it. -/
def erase (first last : Nat) (v : BoundedVector τ) : Option (BoundedVector τ) :=
  let moved := v.numAllocated - last
  (moveDown movedFrom moved first last v).bind (destructAll (last - first) (first + moved))

/-- The loop of `erase_if`, with where `out` is in the end. -/
def eraseIfLoop (pred : τ → Bool) :
    Nat → Nat → Nat → BoundedVector τ → Option (Nat × BoundedVector τ)
  | 0, _, out, v => some (out, v)
  | left + 1, in_, out, v =>
    (v.slots in_).bind fun value =>
      if pred value then eraseIfLoop pred left (in_ + 1) out v
      else
        (if in_ ≠ out then v.assignFrom movedFrom out in_ else some v).bind
          (eraseIfLoop pred left (in_ + 1) (out + 1))

/-- `erase_if`, with the number of erased elements. -/
def eraseIf (pred : τ → Bool) (v : BoundedVector τ) : Option (Nat × BoundedVector τ) :=
  (eraseIfLoop movedFrom pred v.numAllocated 0 0 v).bind fun (out, v) =>
    (v.erase movedFrom out v.numAllocated).map fun v' => (v.numAllocated - out, v')

end

/-! Of two vectors, `swap` exchanges the elements that both have, and moves the others. -/

def swapElements : Nat → Nat → BoundedVector τ → BoundedVector τ →
    Option (BoundedVector τ × BoundedVector τ)
  | 0, _, v, other => some (v, other)
  | count + 1, i, v, other =>
    (v.slots i).bind fun value =>
      (other.slots i).bind fun value' =>
        swapElements count (i + 1) (v.put i (some value')) (other.put i (some value))

/-- The elements of `other` from `i` on are constructed in `v` and destructed in `other`. -/
def moveElements : Nat → Nat → BoundedVector τ → BoundedVector τ →
    Option (BoundedVector τ × BoundedVector τ)
  | 0, _, v, other => some (v, other)
  | count + 1, i, v, other =>
    (other.slots i).bind fun value =>
      (v.construct i value).bind fun v =>
        (other.destruct i).bind fun other => moveElements count (i + 1) v other

/-- The assertion of `swap`. -/
def swapAsserts (other : BoundedVector τ) : Prop :=
  v.numAllocated ≤ other.maxSize ∧ other.numAllocated < v.maxSize

instance (v other : BoundedVector τ) : Decidable (swapAsserts v other) :=
  inferInstanceAs (Decidable (_ ∧ _))

/-- `swap` with another vector. -/
def swap (other : BoundedVector τ) : Option (BoundedVector τ × BoundedVector τ) :=
  if swapAsserts v other then
    (swapElements (min v.numAllocated other.numAllocated) 0 v other).bind fun (v, other) =>
      (moveElements (other.numAllocated - v.numAllocated) v.numAllocated v other).bind
        fun (v, other) =>
          (moveElements (v.numAllocated - other.numAllocated) other.numAllocated other v).map
            fun (other, v) =>
              ({ v with numAllocated := other.numAllocated },
                { other with numAllocated := v.numAllocated })
  else none

end BoundedVector

end BoundedVectors
