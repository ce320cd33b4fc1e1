import EmbeddedInfra.Lockstep
import EmbeddedInfra.Util.IntrusiveUnorderedSet

/-! The operations of an `IntrusiveList` beside those that a set needs, and any sequence of them. -/

namespace IntrusiveLists

open IntrusiveSets Function

variable {ν : Type} [DecidableEq ν]

variable (s : Sets ν) (c : Owner → List ν)

def pushFront (o : Owner) (v : ν) : Sets ν :=
  let first := s.beginNode o
  let s := { s with
    next := update s.next (.node v) first
    previous := update s.previous (.node v) none }
  let s := match first with
    | some node => { s with previous := update s.previous node (some (.node v)) }
    | none => s
  { s with
    beginNode := update s.beginNode o (some (.node v))
    numberOfElements := update s.numberOfElements o (s.numberOfElements o + 1) }

def pushBack (o : Owner) (v : ν) : Sets ν :=
  let before := s.previous (.last o)
  let s := { s with
    next := update s.next (.node v) (some (.last o))
    previous := update s.previous (.node v) before }
  let s := match before with
    | some node => { s with next := update s.next node (some (.node v)) }
    | none => { s with beginNode := update s.beginNode o (some (.node v)) }
  { s with
    previous := update s.previous (.last o) (some (.node v))
    numberOfElements := update s.numberOfElements o (s.numberOfElements o + 1) }

def popBack (o : Owner) : Option (Sets ν) :=
  (s.previous (.last o)).map fun erasing =>
    let before := s.previous erasing
    let s := { s with previous := update s.previous (.last o) before }
    let s := match before with
      | some node => { s with next := update s.next node (some (.last o)) }
      | none => s
    { s with
      previous := update s.previous erasing none
      numberOfElements := update s.numberOfElements o (s.numberOfElements o - 1) }

def assign (o : Owner) (elements : List ν) : Option (Sets ν) :=
  (s.listClear o).map fun s => elements.foldl (pushBack · o ·) s

/-- After `std::swap` of the end nodes, which leaves their links as they are. -/
def fixEnd (o : Owner) : Sets ν :=
  match s.previous (.last o) with
  | some node => { s with next := update s.next node (some (.last o)) }
  | none => { s with beginNode := update s.beginNode o (some (.last o)) }

def swap (o other : Owner) : Sets ν :=
  let s := { s with
    beginNode := update (update s.beginNode o (s.beginNode other)) other
      (s.beginNode o)
    numberOfElements := update
      (update s.numberOfElements o (s.numberOfElements other)) other
      (s.numberOfElements o) }
  fixEnd (fixEnd s o) other

def size (o : Owner) : Nat := s.numberOfElements o

def empty (o : Owner) : Bool := s.numberOfElements o = 0

/-- What a loop from `begin()` to `end()` meets. -/
def iterate (o : Owner) : Option (List ν) :=
  s.elementsFrom o (size s o) (s.beginNode o)

def elementsBefore (s : Sets ν) (o : Owner) : Nat → Place ν → Option (List ν)
  | 0, position => if s.beginNode o = some position then some [] else none
  | fuel + 1, position =>
    if s.beginNode o = some position then some []
    else
      match s.previous position with
      | some (.node v) => (elementsBefore s o fuel (.node v)).map (v :: ·)
      | _ => none

/-- What a loop from `end()` back to `begin()` meets. -/
def iterateBack (o : Owner) : Option (List ν) :=
  elementsBefore s o (size s o) (.last o)

inductive Call (ν : Type)
  | pushFront (o : Owner) (v : ν)
  | pushBack (o : Owner) (v : ν)
  | popFront (o : Owner)
  | popBack (o : Owner)
  | insert (o : Owner) (position : Option ν) (v : ν)
  | erase (o : Owner) (v : ν)
  | assign (o : Owner) (elements : List ν)
  | swap (o other : Owner)
  | move (o other : Owner)
  | clear (o : Owner)

/-- The node of an iterator, which is at an element or at the end. -/
def place (o : Owner) : Option ν → Place ν
  | some w => .node w
  | none => .last o

def perform (call : Call ν) : Option (Sets ν × Unit) :=
  Option.map (·, ()) <| match call with
    | .pushFront o v => some (pushFront s o v)
    | .pushBack o v => some (pushBack s o v)
    | .popFront o => s.popFront o
    | .popBack o => popBack s o
    | .insert o position v => s.listInsert o (some (place o position)) v
    | .erase o v => s.listErase o v
    | .assign o elements => assign s o elements
    | .swap o other => some (swap s o other)
    | .move o other => s.listMove o other
    | .clear o => s.listClear o

def insertAt (elements : List ν) (position : Option ν) (v : ν) : List ν :=
  match position with
  | some w => elements.takeWhile (· ≠ w) ++ v :: elements.dropWhile (· ≠ w)
  | none => elements ++ [v]

def plain : Call ν → Owner → List ν
  | .pushFront o v => update c o (v :: c o)
  | .pushBack o v => update c o (c o ++ [v])
  | .popFront o => update c o (c o).tail
  | .popBack o => update c o (c o).dropLast
  | .insert o position v => update c o (insertAt (c o) position v)
  | .erase o v => update c o ((c o).erase v)
  | .assign o elements => update c o elements
  | .swap o other => update (update c o (c other)) other (c o)
  | .move o other => update (update c o (c other)) other []
  | .clear o => update c o []

/-- Only nodes that are in no list are pushed, and only elements of a list are popped from it. -/
def Allowed : Call ν → Prop
  | .pushFront _ v | .pushBack _ v => ∀ o, v ∉ c o
  | .popFront o | .popBack o => c o ≠ []
  | .insert o position v => (∀ o', v ∉ c o') ∧ ∀ w, position = some w → w ∈ c o
  | .erase o v => ∀ o', o' ≠ o → v ∉ c o'
  | .assign o elements => elements.Nodup ∧ ∀ v ∈ elements, ∀ o', o' ≠ o → v ∉ c o'
  | .swap _ _ | .move _ _ | .clear _ => True

/-- No element is popped from the back, and lists are swapped with themselves or while both are
empty. -/
def Meets : Call ν → Prop
  | .popBack _ => False
  | .swap o other => o = other ∨ c o = [] ∧ c other = []
  | _ => True

/-- Both iterations, the size and the links of the nodes that are in no list. -/
def Shows (c : Owner → List ν) : Prop :=
  (∀ o, size s o = (c o).length ∧ empty s o = (c o).isEmpty ∧ iterate s o = some (c o) ∧
    iterateBack s o = some (c o).reverse) ∧
    ∀ v, (∀ o, v ∉ c o) → s.next (.node v) = none ∧ s.previous (.node v) = none

/-- All lists are empty, and no node has links. -/
def construct (ν : Type) : Sets ν where
  next _ := none
  previous _ := none
  beginNode o := some (.last o)
  numberOfElements _ := 0
  buckets _ := []

end IntrusiveLists
