import EmbeddedInfra.Util.NodeChain

/-! `BoundedForwardList`. An operation that dereferences a null pointer, or fails an assertion, has no
result. -/

namespace BoundedLists

structure BoundedForwardList (α : Type) where
  nodes : Nodes α
  numAllocated : Nat := 0
  firstNode : Option Nat := none

variable {α : Type}

namespace BoundedForwardList

/-- `BoundedForwardList::WithMaxSize<capacity>` -/
def empty (capacity : Nat) : BoundedForwardList α where
  nodes := { capacity }

variable (l : BoundedForwardList α)

def size : Nat := l.numAllocated

def begin : Option Nat := l.firstNode

def iterate : Option (List α) :=
  l.nodes.elementsFrom l.nodes.passes l.begin

/-- Also `emplace_front`. -/
def pushFront (value : α) : Option (BoundedForwardList α) :=
  l.nodes.allocateNode.map fun (node, nodes) =>
    { nodes := (nodes.construct node value).setNext node l.firstNode
      numAllocated := l.numAllocated + 1
      firstNode := some node }

def popFront : Option (BoundedForwardList α) :=
  l.firstNode.map fun node =>
    { nodes := (l.nodes.destruct node).release node
      numAllocated := l.numAllocated - 1
      firstNode := l.nodes.next node }

def insertAfter (position : Option Nat) (value : α) : Option (BoundedForwardList α) :=
  l.nodes.allocateNode.bind fun (node, nodes) => position.map fun place =>
    let nodes := (nodes.construct node value).setNext node (nodes.next place)
    { l with
      nodes := nodes.setNext place (some node)
      numAllocated := l.numAllocated + 1 }

/-- `while (previous->next != node) previous = previous->next` -/
def findPrevious (l : BoundedForwardList α) (node : Nat) : Nat → Option Nat → Option Nat
  | _, none => none
  | 0, some _ => none
  | fuel + 1, some previous =>
    if l.nodes.next previous ≠ some node then findPrevious l node fuel (l.nodes.next previous)
    else some previous

/-- The object in the node is not destructed. -/
def eraseSlow (position : Option Nat) : Option (BoundedForwardList α) :=
  position.bind fun node =>
    let released (l : BoundedForwardList α) : BoundedForwardList α :=
      { l with nodes := l.nodes.release node, numAllocated := l.numAllocated - 1 }
    if l.firstNode = some node then some (released { l with firstNode := l.nodes.next node })
    else
      (l.findPrevious node l.nodes.passes l.firstNode).map fun previous =>
        released { l with nodes := l.nodes.setNext previous (l.nodes.next node) }

/-- The loop of `erase_all_after`. -/
def releaseAll (l : BoundedForwardList α) : Nat → Option Nat → Option (BoundedForwardList α)
  | _, none => some l
  | 0, some _ => none
  | fuel + 1, some node =>
    releaseAll
      { l with
        nodes := (l.nodes.destruct node).release node
        numAllocated := l.numAllocated - 1 }
      fuel (l.nodes.next node)

def eraseAllAfter (position : Option Nat) : Option (BoundedForwardList α) :=
  position.bind fun place =>
    { l with nodes := l.nodes.setNext place none }.releaseAll l.nodes.passes (l.nodes.next place)

/-- The loop of `clear`. -/
def popAll (l : BoundedForwardList α) : Nat → Option (BoundedForwardList α)
  | 0 => if l.firstNode = none then some l else none
  | fuel + 1 => if l.firstNode = none then some l else l.popFront.bind (popAll · fuel)

def clear : Option (BoundedForwardList α) := l.popAll l.nodes.passes

/-- The loop of `assign`, with its `current`. -/
def assignLoop (l : BoundedForwardList α) : List α → Option Nat → Option (BoundedForwardList α)
  | [], _ => some l
  | value :: rest, current =>
    if l.numAllocated = 0 then (l.pushFront value).bind fun l => assignLoop l rest l.begin
    else (l.insertAfter current value).bind fun l => assignLoop l rest (l.nodes.advance 1 current)

def assign (values : List α) : Option (BoundedForwardList α) :=
  l.clear.bind fun l => l.assignLoop values none

/-- The loop of the `assign` that is given a value and how often. -/
def pushTimes (l : BoundedForwardList α) (value : α) : Nat → Option (BoundedForwardList α)
  | 0 => some l
  | count + 1 => (l.pushFront value).bind (pushTimes · value count)

def assignTimes (count : Nat) (value : α) : Option (BoundedForwardList α) :=
  l.clear.bind (·.pushTimes value count)

/-- The loops of `swap` over what one list has more: it is inserted into `l` behind `old`. -/
def insertSurplus (l other : BoundedForwardList α) :
    Nat → Option Nat → Option Nat → Option (BoundedForwardList α)
  | _, none, _ => some l
  | 0, some _, _ => none
  | fuel + 1, some node, old =>
    (other.nodes.storage node).bind fun value =>
      (l.insertAfter old value).bind fun l =>
        insertSurplus l other fuel (other.nodes.next node) (l.nodes.advance 1 old)

/-- What `swap` does with the surplus of `l`, from `i1` on. -/
def moveSurplus (other : BoundedForwardList α) (i1 i1old i2old : Option Nat) :
    Option (BoundedForwardList α × BoundedForwardList α) :=
  if i1 = none then some (l, other)
  else
    (other.insertSurplus l l.nodes.passes i1 i2old).bind fun other =>
      (l.eraseAllAfter i1old).map fun l => (l, other)

def swap (other : BoundedForwardList α) : Option (BoundedForwardList α × BoundedForwardList α) :=
  (l.nodes.swapCommon other.nodes l.nodes.passes l.begin other.begin none none).bind
    fun ((nodes, nodes'), i1, i2, i1old, i2old) =>
      (moveSurplus { l with nodes } { other with nodes := nodes' } i1 i1old i2old).bind
        fun (l, other) =>
          (other.moveSurplus l i2 i2old i1old).map fun (other, l) => (l, other)

/-- The loop of `operator<`. -/
def lessLoop [LT α] [DecidableLT α] (l other : BoundedForwardList α) :
    Nat → Option Nat → Option Nat → Option Bool
  | _, none, _ => some (decide (l.size < other.size))
  | _, _, none => some (decide (l.size < other.size))
  | 0, some _, some _ => none
  | fuel + 1, some i1, some i2 =>
    (l.nodes.storage i1).bind fun mine =>
      (other.nodes.storage i2).bind fun theirs =>
        if mine < theirs then some true
        else lessLoop l other fuel (l.nodes.next i1) (other.nodes.next i2)

def less [LT α] [DecidableLT α] (l other : BoundedForwardList α) : Option Bool :=
  l.lessLoop other l.nodes.passes l.begin other.begin

end BoundedForwardList

end BoundedLists
