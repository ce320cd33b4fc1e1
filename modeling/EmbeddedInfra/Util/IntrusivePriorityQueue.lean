import Mathlib.Logic.Function.Basic

/-! `IntrusivePriorityQueue`: elements that are linked to their parent and to two children. -/

namespace PriorityQueues

variable {α : Type} [DecidableEq α]

/-- The links of all elements, and the queue. The element counter does not reach the bounds of
its type: the elements are objects in memory. -/
structure IntrusivePriorityQueue (α : Type) where
  up : α → Option α
  left : α → Option α
  right : α → Option α
  topNode : Option α
  numberOfElements : Nat

namespace IntrusivePriorityQueue

variable (q : IntrusivePriorityQueue α)

def setUp (x : α) (link : Option α) : IntrusivePriorityQueue α :=
  { q with up := Function.update q.up x link }

def setLeft (x : α) (link : Option α) : IntrusivePriorityQueue α :=
  { q with left := Function.update q.left x link }

def setRight (x : α) (link : Option α) : IntrusivePriorityQueue α :=
  { q with right := Function.update q.right x link }

/-- When there is a child, its parent becomes `x`. -/
def setUpOf (child : Option α) (x : α) : IntrusivePriorityQueue α :=
  match child with
  | none => q
  | some child => q.setUp child (some x)

/-- The link from `above` to its child `x` becomes another one. -/
def relink (above x : α) (link : Option α) : IntrusivePriorityQueue α :=
  if q.left above = some x then q.setLeft above link else q.setRight above link

def relinkOf (above : Option α) (x : α) (link : Option α) : IntrusivePriorityQueue α :=
  match above with
  | none => q
  | some above => q.relink above x link

def swapChildAndParentNodes (child parent : α) (q : IntrusivePriorityQueue α) :
    IntrusivePriorityQueue α :=
  let parentUp := q.up parent
  let q := q.relinkOf parentUp parent (some child)
  let leftRotate := decide (q.left parent = some child)
  let otherChild := if leftRotate then q.right parent else q.left parent
  let q := q.setLeft parent (q.left child)
  let q := q.setRight parent (q.right child)
  let q := q.setUpOf (q.left parent) parent
  let q := q.setUpOf (q.right parent) parent
  let q := q.setUp parent (some child)
  let q := q.setUpOf otherChild child
  let q := q.setLeft child (if leftRotate then some parent else otherChild)
  let q := q.setRight child (if leftRotate then otherChild else some parent)
  let q := q.setUp child parentUp
  { q with topNode := if q.topNode = some parent then some child else q.topNode }

/-- `while (direction <= numberOfElements) direction <<= 1` -/
def grow (numberOfElements direction : Nat) : Nat :=
  if direction = 0 ∨ numberOfElements < direction then direction
  else grow numberOfElements (direction <<< 1)
  termination_by numberOfElements + 1 - direction
  decreasing_by
    rw [Nat.shiftLeft_eq]
    omega

/-- Down from a node, to the right at a set bit of the number of elements and to the left at
another one, until the direction is `stop`, which it is before it is 0; without a value at a null
pointer. -/
def descend (q : IntrusivePriorityQueue α) (stop direction : Nat) (node : Option α) : Option α :=
  if direction = stop ∨ direction = 0 then node
  else
    node.bind fun node =>
      descend q stop (direction >>> 1)
        (if q.numberOfElements &&& direction ≠ 0 then q.right node else q.left node)
  termination_by direction
  decreasing_by
    rw [Nat.shiftRight_eq_div_pow]
    omega

def linkLast (node value : α) (q : IntrusivePriorityQueue α) : IntrusivePriorityQueue α :=
  let linked := if q.numberOfElements &&& 1 ≠ 0 then q.setRight node (some value)
    else q.setLeft node (some value)
  linked.setUp value (some node)

def insertAsLast (value : α) (q : IntrusivePriorityQueue α) : Option (IntrusivePriorityQueue α) :=
  let q := (q.setRight value none).setLeft value none
  match q.topNode with
  | none =>
    some ({ q with
      numberOfElements := q.numberOfElements + 1
      topNode := some value }.setUp value none)
  | some top =>
    let q := { q with numberOfElements := q.numberOfElements + 1 }
    let direction := grow q.numberOfElements 1 >>> 2
    (q.descend 1 direction (some top)).map fun node => q.linkLast node value

def lastNode : Option α :=
  q.descend 0 (grow q.numberOfElements 1 >>> 2) q.topNode

section

variable (compare : α → α → Bool)

/-! The loops are given a number of rounds, and have no value when they are not at their end
after them. -/

/-- A node and its parent are swapped as long as there is a parent that it goes above. -/
def climb (goesAbove : α → α → Bool) :
    Nat → α → IntrusivePriorityQueue α → Option (IntrusivePriorityQueue α)
  | 0, _, _ => none
  | rounds + 1, node, q =>
    match q.up node with
    | none => some q
    | some above =>
      if goesAbove node above then
        climb goesAbove rounds node (q.swapChildAndParentNodes node above)
      else some q

/-- The loop of `push`. -/
def bubbleUp : Nat → α → IntrusivePriorityQueue α → Option (IntrusivePriorityQueue α) :=
  climb fun node above => compare above node

def push (value : α) (q : IntrusivePriorityQueue α) : Option (IntrusivePriorityQueue α) :=
  (q.insertAsLast value).bind fun q => bubbleUp compare q.numberOfElements value q

def shiftUpNode (erasingNode : α) (q : IntrusivePriorityQueue α) : Option α :=
  match q.left erasingNode, q.right erasingNode with
  | some left, some right => if compare left right then some right else some left
  | some left, none => some left
  | none, right => right

/-- The first loop of `erase`. -/
def moveDown : Nat → α → IntrusivePriorityQueue α → Option (IntrusivePriorityQueue α)
  | 0, _, _ => none
  | rounds + 1, erasingNode, q =>
    match q.shiftUpNode compare erasingNode with
    | some node => moveDown rounds erasingNode (q.swapChildAndParentNodes node erasingNode)
    | none => some q

/-- The second loop of `erase`. -/
def moveUp : Nat → α → IntrusivePriorityQueue α → Option (IntrusivePriorityQueue α) :=
  climb fun last above => !compare last above

/-- `last`, which is another element, takes the place of the erasing node. -/
def replaceBy (last erasingNode : α) (q : IntrusivePriorityQueue α) :
    Option (IntrusivePriorityQueue α) :=
  (q.up last).bind fun above =>
    let q := q.relink above last none
    let q := q.setUp last (q.up erasingNode)
    let q := q.setLeft last (q.left erasingNode)
    let q := q.setRight last (q.right erasingNode)
    (q.up last).map fun above =>
      let q := q.relink above erasingNode (some last)
      let q := q.setUpOf (q.right last) last
      q.setUpOf (q.left last) last

def removeLast (last : α) (q : IntrusivePriorityQueue α) : IntrusivePriorityQueue α :=
  match q.up last with
  | none => { q with topNode := none }
  | some above => q.relink above last none

def erase (erasingNode : α) (q : IntrusivePriorityQueue α) : Option (IntrusivePriorityQueue α) :=
  (moveDown compare q.numberOfElements erasingNode q).bind fun q =>
    q.lastNode.bind fun last =>
      (if last ≠ erasingNode then
          (q.replaceBy last erasingNode).bind (moveUp compare q.numberOfElements last)
        else some (q.removeLast last)).map
        fun q => { q with numberOfElements := q.numberOfElements - 1 }

def pop (q : IntrusivePriorityQueue α) : Option (IntrusivePriorityQueue α) :=
  q.topNode.bind fun top => q.erase compare top

end

end IntrusivePriorityQueue

end PriorityQueues
