import EmbeddedInfra.Heaps
import EmbeddedInfra.Runs

/-! A priority queue in a bounded vector: erasing at a position leaves a heap. -/

namespace BoundedPriorityQueues

variable {α : Type}

variable (compare : α → α → Bool) (values : List α)

/-- `compare(*first, *second)` -/
def comparesAt (values : List α) (first second : Nat) : Bool :=
  match values[first]?, values[second]? with
  | some a, some b => compare a b
  | _, _ => false

/-- `*position = std::move(*source)` -/
def moveInto (position source : Nat) : List α :=
  match values[source]? with
  | some moved => values.set position moved
  | none => values

inductive Round (α : Type)
  | again (values : List α) (position : Nat)
  | filled (values : List α)

/-- The body of the loop; a neighbour that is not there is `end`. -/
def eraseHeapRound (values : List α) (index : Nat) : Round α :=
  let size := values.length
  let parent := if 0 < index then (index - 1) / 2 else size
  let child1 := if index * 2 + 1 < size - 1 then index * 2 + 1 else size
  let child2 := if index * 2 + 2 < size - 1 then index * 2 + 2 else size
  if parent ≠ size ∧ comparesAt compare values parent (size - 1) = true then
    .again (moveInto values index parent) parent
  else if child1 ≠ size ∧ comparesAt compare values (size - 1) child1 = true then
    if child2 ≠ size ∧ comparesAt compare values child1 child2 = true then
      .again (moveInto values index child2) child2
    else
      .again (moveInto values index child1) child1
  else if child2 ≠ size ∧ comparesAt compare values (size - 1) child2 = true then
    .again (moveInto values index child2) child2
  else
    .filled (moveInto values index (size - 1))

def eraseHeapLoop (compare : α → α → Bool) : Nat → List α → Nat → Option (List α)
  | 0, _, _ => none
  | fuel + 1, values, position =>
    match eraseHeapRound compare values position with
    | .again next nextPosition => eraseHeapLoop compare fuel next nextPosition
    | .filled result => some result

def eraseHeap (fuel : Nat) (values : List α) (position : Nat) : Option (List α) :=
  if 1 < values.length then eraseHeapLoop compare fuel values position else some values

inductive Call (α : Type)
  | push (value : α)
  | emplace (value : α)
  | pop
  | erase (position : Nat)

/-- A vector that is full or empty fails its assertion, and a position is one of the vector. -/
def Allowed (max : Nat) (values : List α) : Call α → Prop
  | .push _ | .emplace _ => values.length < max
  | .pop => values ≠ []
  | .erase position => position < values.length

section Operations

variable (compare : α → α → Bool) (pushHeap popHeap : List α → List α) (fuel max : Nat)

variable (values : List α)

def push (value : α) : Option (List α) :=
  if values.length < max then some (pushHeap (values ++ [value])) else none

def pop : Option (List α) :=
  match values with
  | [] => none
  | _ :: _ => some (popHeap values).dropLast

def erase (position : Nat) : Option (List α) :=
  if position < values.length then
    (eraseHeap compare fuel values position).map List.dropLast
  else
    none

def perform : Call α → Option (List α)
  | .push value | .emplace value => push pushHeap max values value
  | .pop => pop popHeap values
  | .erase position => erase compare fuel values position

end Operations

def top : Option α := values.head?

def entering : Call α → List α
  | .push value | .emplace value => [value]
  | .pop | .erase _ => []

def leaving : Call α → List α
  | .push _ | .emplace _ => []
  | .pop => (top values).toList
  | .erase position => values[position]?.toList

/-- A queue with all elements that were pushed, and all that were popped or erased. -/
structure History (α : Type) where
  values : List α := []
  pushed : List α := []
  removed : List α := []

def History.step (pushHeap popHeap : List α → List α) (fuel max : Nat) (history : History α)
    (call : Call α) : Option (History α) :=
  (perform compare pushHeap popHeap fuel max history.values call).map fun values =>
    ⟨values, history.pushed ++ entering call, history.removed ++ leaving history.values call⟩

/-- The values are a binary heap in array order. -/
def IsHeap (values : List α) : Prop :=
  ∀ i, 0 < i → i < values.length → comparesAt compare values ((i - 1) / 2) i = false

instance (compare : α → α → Bool) (values : List α) : Decidable (IsHeap compare values) :=
  decidable_of_iff (∀ i < values.length, 0 < i → comparesAt compare values ((i - 1) / 2) i = false)
    ⟨fun h i some inside => h i inside some, fun h i inside some => h i some inside⟩

/-- `std::push_heap` and `std::pop_heap`: the last element joins the heap before it, and the first
element goes behind a heap of the others. -/
structure HeapAlgorithms (compare : α → α → Bool) (pushHeap popHeap : List α → List α) : Prop where
  push_perm : ∀ values, (pushHeap values).Perm values
  push_isHeap : ∀ values value, IsHeap compare values → IsHeap compare (pushHeap (values ++ [value]))
  pop_perm : ∀ values, (popHeap values).Perm values
  pop_last : ∀ first rest, IsHeap compare (first :: rest) →
    (popHeap (first :: rest)).getLast? = some first
  pop_isHeap : ∀ first rest, IsHeap compare (first :: rest) →
    IsHeap compare (popHeap (first :: rest)).dropLast

end BoundedPriorityQueues
