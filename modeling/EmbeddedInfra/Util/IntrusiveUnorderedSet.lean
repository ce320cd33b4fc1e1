import Mathlib.Logic.Function.Basic
import Mathlib.Algebra.Group.Nat.Defs

/-! Intrusive lists, and the `IntrusiveUnorderedSet`s that are made of them. A step that dereferences
a null pointer, or takes the end node of a list for an element, has no result. -/

namespace IntrusiveSets

open Function

/-- Whose `values` a list is; `std::swap` moves one to a temporary. -/
inductive Owner
  | set (i : Nat)
  | temporary
  deriving DecidableEq

/-- What a `NodeType*` points to: an element, or the `endNode` of a list. -/
inductive Place (ν : Type)
  | node (v : ν)
  | last (o : Owner)
  deriving DecidableEq

/-- The links of all nodes, and the sets; an iterator is the pointer in it. -/
structure Sets (ν : Type) where
  next : Place ν → Option (Place ν)
  previous : Place ν → Option (Place ν)
  beginNode : Owner → Option (Place ν)
  numberOfElements : Owner → Nat
  buckets : Nat → List (Option (Place ν) × Option (Place ν))

variable {ν : Type} [DecidableEq ν]

namespace Sets

variable (s : Sets ν)

/-- `IntrusiveList::insert` -/
def listInsert (o : Owner) (position : Option (Place ν)) (v : ν) : Option (Sets ν) :=
  position.map fun place =>
    let before := s.previous place
    let s := { s with
      previous := update (update s.previous (.node v) before) place
        (some (.node v))
      next := update s.next (.node v) (some place)
      numberOfElements := update s.numberOfElements o (s.numberOfElements o + 1) }
    match before with
    | some node => { s with next := update s.next node (some (.node v)) }
    | none => { s with beginNode := update s.beginNode o (some (.node v)) }

/-- The end of `IntrusiveList::erase`. -/
def unlinkNext (o : Owner) (v : ν) : Option (Sets ν) :=
  (s.next (.node v)).map fun after =>
    { s with
      previous := update
        (update s.previous after (s.previous (.node v))) (.node v) none
      next := update s.next (.node v) none
      numberOfElements := update s.numberOfElements o (s.numberOfElements o - 1) }

/-- `IntrusiveList::erase` -/
def listErase (o : Owner) (v : ν) : Option (Sets ν) :=
  match s.previous (.node v) with
  | some before =>
    unlinkNext { s with next := update s.next before (s.next (.node v)) } o v
  | none =>
    if s.beginNode o ≠ some (.node v) then some s
    else
      unlinkNext { s with beginNode := update s.beginNode o (s.next (.node v)) } o v

/-- `IntrusiveList::pop_front` -/
def popFront (o : Owner) : Option (Sets ν) :=
  (s.beginNode o).bind fun erasing => (s.next erasing).map fun first =>
    { s with
      beginNode := update s.beginNode o (some first)
      previous := update s.previous first none
      next := update s.next erasing none
      numberOfElements := update s.numberOfElements o (s.numberOfElements o - 1) }

/-- The loop of `IntrusiveList::clear`. -/
def popAll (s : Sets ν) (o : Owner) : Nat → Option (Sets ν)
  | 0 => if s.numberOfElements o = 0 then some s else none
  | fuel + 1 =>
    if s.numberOfElements o = 0 then some s else (s.popFront o).bind (popAll · o fuel)

def listClear (o : Owner) : Option (Sets ν) := s.popAll o (s.numberOfElements o)

/-- `IntrusiveList::operator=`, from a list that is moved. -/
def listMove (o other : Owner) : Option (Sets ν) :=
  (s.listClear o).map fun s =>
    let s := { s with
      numberOfElements := update s.numberOfElements o (s.numberOfElements other)
      beginNode :=
        if s.beginNode other ≠ some (Place.last other) then
          update s.beginNode o (s.beginNode other)
        else s.beginNode
      previous := update s.previous (.last o) (s.previous (.last other)) }
    let s := match s.previous (.last o) with
      | some node => { s with next := update s.next node (some (.last o)) }
      | none => s
    { s with
      beginNode := update s.beginNode other (some (.last other))
      previous := update s.previous (.last other) none
      numberOfElements := update s.numberOfElements other 0 }

def elementsFrom (s : Sets ν) (o : Owner) : Nat → Option (Place ν) → Option (List ν)
  | 0, position => if position = some (Place.last o) then some [] else none
  | fuel + 1, position =>
    match position with
    | some (.node v) => (elementsFrom s o fuel (s.next (.node v))).map (v :: ·)
    | _ => if position = some (.last o) then some [] else none

variable (hash : ν → Nat)

def begin (i : Nat) : Option (Place ν) := s.beginNode (.set i)

def end_ (i : Nat) : Option (Place ν) := some (.last (.set i))

def iterate (i : Nat) : Option (List ν) :=
  s.elementsFrom (.set i) (s.numberOfElements (.set i)) (s.begin i)

def hashToBucket (i : Nat) (v : ν) : Nat := hash v % (s.buckets i).length % 2 ^ 32

def bucket (i : Nat) (v : ν) : Option (Option (Place ν) × Option (Place ν)) :=
  (s.buckets i)[s.hashToBucket hash i v]?

def setBucket (i : Nat) (v : ν) (borders : Option (Place ν) × Option (Place ν)) : Sets ν :=
  { s with
    buckets := update s.buckets i ((s.buckets i).set (s.hashToBucket hash i v) borders) }

def initializeBuckets (i : Nat) : Sets ν :=
  { s with
    buckets := update s.buckets i
      (List.replicate (s.buckets i).length (end_ i, end_ i)) }

/-- The loop of `has_element` and of `contains`. -/
def search (s : Sets ν) (found : ν → Bool) (second : Option (Place ν)) :
    Nat → Option (Place ν) → Option Bool
  | 0, v => if v = second then some false else none
  | fuel + 1, v =>
    if v = second then some false
    else
      match v with
      | some (.node w) => if found w then some true else search s found second fuel (s.next (.node w))
      | _ => none

def hasElement (i : Nat) (value : ν) : Option Bool :=
  (s.bucket hash i value).bind fun (first, second) =>
    s.search (fun v => decide (v = value)) second (s.numberOfElements (.set i)) first

def contains (equal : ν → ν → Bool) (s : Sets ν) (i : Nat) (value : ν) : Option Bool :=
  (s.bucket hash i value).bind fun (first, second) =>
    s.search (equal · value) second (s.numberOfElements (.set i)) first

/-- The loop of `operator==`. -/
def equalsLoop (equal : ν → ν → Bool) (s : Sets ν) (i other : Nat) :
    Nat → Option (Place ν) → Option Bool
  | 0, v => if v = end_ i then some true else none
  | fuel + 1, v =>
    match v with
    | some (.node w) =>
      (s.contains hash equal other w).bind fun contained =>
        if contained then equalsLoop equal s i other fuel (s.next (.node w)) else some false
    | _ => if v = end_ i then some true else none

def equals (equal : ν → ν → Bool) (s : Sets ν) (i other : Nat) : Option Bool :=
  if s.numberOfElements (.set i) ≠ s.numberOfElements (.set other) then some false
  else s.equalsLoop hash equal i other (s.numberOfElements (.set i)) (s.begin i)

def insert (i : Nat) (value : ν) : Option (Sets ν) :=
  (s.bucket hash i value).bind fun (first, second) =>
    (s.listInsert (.set i) first value).bind fun s =>
      second.map fun place => s.setBucket hash i value (s.previous place, second)

/-- An iterator is compared by the address in it, so also one that `std::prev` left null. -/
def erase (i : Nat) (value : ν) : Option (Sets ν) :=
  (s.bucket hash i value).bind fun (first, second) =>
    let s :=
      if first = some (.node value) then s.setBucket hash i value (first.bind s.next, second)
      else if second.bind s.previous = some (.node value) then
        s.setBucket hash i value (first, second.bind s.previous)
      else s
    s.listErase (.set i) value

def clear (i : Nat) : Option (Sets ν) :=
  (s.listClear (.set i)).map (·.initializeBuckets i)

def insertAll (s : Sets ν) (i : Nat) : List ν → Option (Sets ν)
  | [] => some s
  | value :: rest => (s.insert hash i value).bind (insertAll · i rest)

def assign (i : Nat) (values : List ν) : Option (Sets ν) :=
  (s.clear i).bind (·.insertAll hash i values)

/-- The loop of the move assignment. -/
def moveAll (s : Sets ν) (i other : Nat) : Nat → Option (Sets ν)
  | 0 => if s.numberOfElements (.set other) = 0 then some s else none
  | fuel + 1 =>
    if s.numberOfElements (.set other) = 0 then some s
    else
      match s.begin other with
      | some (.node value) =>
        (s.listErase (.set other) value).bind fun s =>
          (s.insert hash i value).bind (moveAll · i other fuel)
      | _ => none

def move (i other : Nat) : Option (Sets ν) :=
  (s.clear i).bind fun s =>
    (s.moveAll hash i other (s.numberOfElements (.set other))).map (·.initializeBuckets other)

/-- The first loop of `swap`, with its `currentEnd`. -/
def takeAll (s : Sets ν) (i other : Nat) :
    Nat → Option (Place ν) → Option (Sets ν × Option (Place ν))
  | 0, currentEnd => if s.numberOfElements (.set other) = 0 then some (s, currentEnd) else none
  | fuel + 1, currentEnd =>
    if s.numberOfElements (.set other) = 0 then some (s, currentEnd)
    else
      match s.begin other with
      | some (.node v) =>
        (s.popFront (.set other)).bind fun s => (s.insert hash i v).bind fun s =>
          takeAll s i other fuel
            (if currentEnd = end_ i then currentEnd.bind s.previous else currentEnd)
      | _ => none

/-- The second loop of `swap`. -/
def giveAll (s : Sets ν) (i other : Nat) (currentEnd : Option (Place ν)) : Nat → Option (Sets ν)
  | 0 => if s.begin i = currentEnd then some s else none
  | fuel + 1 =>
    if s.begin i = currentEnd then some s
    else
      match s.begin i with
      | some (.node v) =>
        (s.popFront (.set i)).bind fun s => (s.insert hash other v).bind
          (giveAll · i other currentEnd fuel)
      | _ => none

def swap (i other : Nat) : Option (Sets ν) :=
  if (s.buckets i).length = (s.buckets other).length then
    (s.listMove .temporary (.set i)).bind fun s =>
      (s.listMove (.set i) (.set other)).bind fun s =>
        (s.listMove (.set other) .temporary).map fun s =>
          { s with
            buckets := update (update s.buckets i (s.buckets other)) other
              (s.buckets i) }
  else
    let s := (s.initializeBuckets i).initializeBuckets other
    (s.takeAll hash i other (s.numberOfElements (.set other)) (end_ i)).bind fun (s, currentEnd) =>
      s.giveAll hash i other currentEnd (s.numberOfElements (.set i))

end Sets

end IntrusiveSets
