import EmbeddedInfra.Util.NodeChain

/-! `BoundedList`. An operation that dereferences a null pointer, or fails an assertion, has no result. -/

namespace BoundedLists

open Function

structure BoundedList (α : Type) where
  nodes : Nodes α
  previous : Nat → Option Nat := fun _ => none
  numAllocated : Nat := 0
  firstNode : Option Nat := none
  lastNode : Option Nat := none

variable {α : Type}

namespace BoundedList

/-- `BoundedList::WithMaxSize<capacity>` -/
def empty (capacity : Nat) : BoundedList α where
  nodes := { capacity }

variable (l : BoundedList α)

def size : Nat := l.numAllocated

def begin : Option Nat := l.firstNode

def iterate : Option (List α) :=
  l.nodes.elementsFrom l.nodes.passes l.begin

/-- `--` of an iterator. -/
def retreat (position : Option Nat) : Option Nat :=
  match position with
  | some node => l.previous node
  | none => l.lastNode

/-- What `*--position` yields from a position to the beginning. -/
def elementsBack (l : BoundedList α) : Nat → Option Nat → Option (List α)
  | 0, position => if position = l.begin then some [] else none
  | fuel + 1, position =>
    if position = l.begin then some []
    else
      (l.retreat position).bind fun node =>
        (l.nodes.storage node).bind fun element =>
          (elementsBack l fuel (some node)).map (element :: ·)

def iterateBack : Option (List α) := l.elementsBack l.nodes.passes none

/-- `if (node != nullptr) node->previous = pointer; else lastNode = pointer` -/
def setPreviousOf (node pointer : Option Nat) : BoundedList α :=
  match node with
  | some next => { l with previous := update l.previous next pointer }
  | none => { l with lastNode := pointer }

/-- `if (node != nullptr) node->next = pointer; else firstNode = pointer` -/
def setNextOf (node pointer : Option Nat) : BoundedList α :=
  match node with
  | some previous => { l with nodes := l.nodes.setNext previous pointer }
  | none => { l with firstNode := pointer }

/-- Also `emplace_front`. -/
def pushFront (value : α) : Option (BoundedList α) :=
  l.nodes.allocateNode.map fun (node, nodes) =>
    let l' : BoundedList α := { l with
      nodes := (nodes.construct node value).setNext node l.firstNode
      previous := update l.previous node none }
    { l'.setPreviousOf l.firstNode (some node) with
      firstNode := some node
      numAllocated := l.numAllocated + 1 }

def popFront : Option (BoundedList α) :=
  l.firstNode.map fun node =>
    let next := l.nodes.next node
    let l' := { l with nodes := l.nodes.destruct node, firstNode := next }.setPreviousOf next none
    { l' with
      nodes := l'.nodes.release node
      numAllocated := l.numAllocated - 1 }

/-- Also `emplace_back`. -/
def pushBack (value : α) : Option (BoundedList α) :=
  l.nodes.allocateNode.map fun (node, nodes) =>
    let l' : BoundedList α := { l with
      nodes := (nodes.construct node value).setNext node none
      previous := update l.previous node l.lastNode }
    { l'.setNextOf l.lastNode (some node) with
      lastNode := some node
      numAllocated := l.numAllocated + 1 }

def popBack : Option (BoundedList α) :=
  l.lastNode.map fun node =>
    let previous := l.previous node
    let l' := { l with nodes := l.nodes.destruct node, lastNode := previous }.setNextOf previous none
    { l' with
      nodes := l'.nodes.release node
      numAllocated := l.numAllocated - 1 }

/-- `node->next` is the position, so it is not null. -/
def insert (position : Option Nat) (value : α) : Option (BoundedList α) :=
  match position with
  | some place =>
    l.nodes.allocateNode.map fun (node, nodes) =>
      let previous := l.previous place
      let l' : BoundedList α := { l with
        nodes := (nodes.construct node value).setNext node (some place)
        previous := update (update l.previous node previous) place (some node) }
      { l'.setNextOf previous (some node) with numAllocated := l.numAllocated + 1 }
  | none => l.pushBack value

def erase (position : Option Nat) : Option (BoundedList α) :=
  position.map fun node =>
    let next := l.nodes.next node
    let previous := l.previous node
    let l' := (l.setPreviousOf next previous).setNextOf previous next
    { l' with
      nodes := (l'.nodes.destruct node).release node
      numAllocated := l.numAllocated - 1 }

/-- A reference to an element is the address of its node. -/
def remove (node : Nat) : Option (BoundedList α) := l.erase (some node)

/-- The loop of `erase_all_after`. -/
def releaseAll (l : BoundedList α) : Nat → Option Nat → Option (BoundedList α)
  | _, none => some l
  | 0, some _ => none
  | fuel + 1, some node =>
    releaseAll
      { l with
        nodes := (l.nodes.destruct node).release node
        numAllocated := l.numAllocated - 1 }
      fuel (l.nodes.next node)

def eraseAllAfter (position : Option Nat) : Option (BoundedList α) :=
  position.bind fun place =>
    releaseAll { l with nodes := l.nodes.setNext place none, lastNode := some place }
      l.nodes.passes (l.nodes.next place)

/-- The loop of `clear`. -/
def popAll (l : BoundedList α) : Nat → Option (BoundedList α)
  | 0 => if l.numAllocated = 0 then some l else none
  | fuel + 1 => if l.numAllocated = 0 then some l else l.popBack.bind (popAll · fuel)

def clear : Option (BoundedList α) := l.popAll l.nodes.passes

/-- The loop of `assign`, also of the one that is given a value and how often. -/
def pushAll (l : BoundedList α) : List α → Option (BoundedList α)
  | [] => some l
  | value :: rest => (l.pushBack value).bind (pushAll · rest)

def assign (values : List α) : Option (BoundedList α) :=
  l.clear.bind (·.pushAll values)

def assignTimes (count : Nat) (value : α) : Option (BoundedList α) :=
  l.clear.bind (·.pushAll (List.replicate count value))

/-- The loops of `swap` over what the other list has more. -/
def pushSurplus (l other : BoundedList α) : Nat → Option Nat → Option (BoundedList α)
  | _, none => some l
  | 0, some _ => none
  | fuel + 1, some node =>
    (other.nodes.storage node).bind fun value =>
      (l.pushBack value).bind fun l => pushSurplus l other fuel (other.nodes.next node)

/-- What `swap` does with the surplus of `l`, from `i1` on. -/
def moveSurplus (other : BoundedList α) (i1 i1old : Option Nat) :
    Option (BoundedList α × BoundedList α) :=
  if i1 = none then some (l, other)
  else
    (other.pushSurplus l l.nodes.passes i1).bind fun other =>
      (l.eraseAllAfter i1old).map fun l => (l, other)

def swap (other : BoundedList α) : Option (BoundedList α × BoundedList α) :=
  (l.nodes.swapCommon other.nodes l.nodes.passes l.begin other.begin none none).bind
    fun ((nodes, nodes'), i1, i2, i1old, i2old) =>
      (moveSurplus { l with nodes } { other with nodes := nodes' } i1 i1old).bind fun (l, other) =>
        (other.moveSurplus l i2 i2old).map fun (other, l) => (l, other)

end BoundedList

end BoundedLists
