import Mathlib.Logic.Function.Basic
import Mathlib.Algebra.Group.Nat.Defs

/-! `SharedPtr` and `WeakPtr`. A destructor and a callback are code that calls what it likes, so the
calls that are not finished are kept on a stack. A step that touches a control block after it was
deallocated, fails an assertion, destructs an object twice, or touches a pointer that is gone, has no
result. -/

namespace SharedPointers

open Function

/-- Whose `Destruct` and `Deallocate` are called: `SharedObjectOnHeap`, a
`SharedObjectAllocatorFixedSize`, or a `SharedOptional`. -/
inductive Deleter
  | onHeap
  | fixedSize (allocator : Nat)
  | optional
  deriving DecidableEq

/-- The counts are of 16 bits. `allocated` says whether the block is in use, and for a `SharedOptional`
it is the opposite of its `allocatable`; `alive` says whether the object is constructed. -/
structure SharedPtrControl where
  sharedPtrCount : Nat := 0
  weakPtrCount : Nat := 0
  deleter : Deleter := .onHeap
  allocated : Bool := false
  alive : Bool := false

/-- A `SharedPtr` or a `WeakPtr`; `resetting` while it is in the middle of its `Reset`, where it still
refers to a control block of which the count was already decreased. -/
structure Pointer where
  isWeak : Bool
  control : Option Nat := none
  object : Option Nat := none
  resetting : Bool := false

/-- What is still to be done. -/
inductive Action
  | user
  | sharedReset (k : Nat)
  | weakReset (k : Nat)
  | weakStore (k : Nat) (control object : Option Nat)
  | decreaseSharedCount (c : Nat)
  | decreaseWeakCount (c : Nat)
  | close (k : Nat)
  deriving DecidableEq

/-- Pointers are numbered in the order of their construction; one that was destroyed is gone. -/
structure State where
  controls : Nat → SharedPtrControl := fun _ => {}
  made : Nat := 0
  pointers : List (Option Pointer) := []
  freeList : Nat → List Nat := fun _ => []
  elements : Nat → Nat := fun _ => 0
  stack : List Action := [.user]

namespace State

variable (s : State)

def push (action : Action) : State := { s with stack := action :: s.stack }

def setControl (c : Nat) (control : SharedPtrControl) : State :=
  { s with controls := update s.controls c control }

def setPointer (k : Nat) (pointer : Option Pointer) : State :=
  { s with pointers := s.pointers.set k pointer }

def pointer (isWeak : Bool) (k : Nat) : Option Pointer :=
  match s.pointers[k]? with
  | some (some p) => if p.isWeak = isWeak then some p else none
  | _ => none

def increaseWeakCount (c : Nat) : Option State :=
  let control := s.controls c
  if control.allocated then
    some (s.setControl c { control with weakPtrCount := (control.weakPtrCount + 1) % 2 ^ 16 })
  else none

def increaseSharedCount (c : Nat) : Option State :=
  let control := s.controls c
  (s.setControl c
    { control with sharedPtrCount := (control.sharedPtrCount + 1) % 2 ^ 16 }).increaseWeakCount c

/-- The node is returned, or the slot is allocatable, and a callback is called. -/
def deallocate (c : Nat) : Option State :=
  let control := s.controls c
  if control.allocated then
    let s := s.setControl c { control with allocated := false }
    match control.deleter with
    | .onHeap => some s
    | .fixedSize a =>
      some ({ s with freeList := update s.freeList a (c :: s.freeList a) }.push .user)
    | .optional => some (s.push .user)
  else none

def decreaseWeakCount (c : Nat) : Option State :=
  let control := s.controls c
  if control.weakPtrCount = 0 then none
  else
    let s := s.setControl c { control with weakPtrCount := control.weakPtrCount - 1 }
    if control.weakPtrCount - 1 = 0 then s.deallocate c else some s

def destruct (c : Nat) : Option State :=
  let control := s.controls c
  if control.alive then some ((s.setControl c { control with alive := false }).push .user) else none

def decreaseSharedCount (c : Nat) : Option State :=
  let control := s.controls c
  if control.sharedPtrCount = 0 then none
  else
    let s := (s.setControl c { control with sharedPtrCount := control.sharedPtrCount - 1 }).push
      (.decreaseWeakCount c)
    if control.sharedPtrCount - 1 = 0 then s.destruct c else some s

def resetShared (k : Nat) (control object : Option Nat) : Option State :=
  (s.pointer false k).bind fun p =>
    let s := s.setPointer k (some { p with control, object })
    let increased := match control with
      | some c => s.increaseSharedCount c
      | none => some s
    increased.map fun s : State =>
      match p.control with
      | some old => s.push (.decreaseSharedCount old)
      | none => s

def resetWeak (k : Nat) (control object : Option Nat) : Option State :=
  (s.pointer true k).map fun p =>
    let s := (s.setPointer k (some { p with resetting := true })).push (.weakStore k control object)
    match p.control with
    | some old => s.push (.decreaseWeakCount old)
    | none => s

/-- The end of `WeakPtr::Reset`. -/
def storeWeak (k : Nat) (control object : Option Nat) : Option State :=
  (s.pointer true k).bind fun p =>
    let s := s.setPointer k (some { p with control, object, resetting := false })
    match control with
    | some c => s.increaseWeakCount c
    | none => some s

/-- The topmost action, where that is not code of the user. -/
def resume : Option State :=
  match s.stack with
  | .sharedReset k :: rest => { s with stack := rest }.resetShared k none none
  | .weakReset k :: rest => { s with stack := rest }.resetWeak k none none
  | .weakStore k control object :: rest => { s with stack := rest }.storeWeak k control object
  | .decreaseSharedCount c :: rest => { s with stack := rest }.decreaseSharedCount c
  | .decreaseWeakCount c :: rest => { s with stack := rest }.decreaseWeakCount c
  | .close k :: rest =>
    s.pointers[k]?.join.map fun _ => { s with stack := rest }.setPointer k none
  | .user :: _ => none
  | [] => none

def make (isWeak : Bool) : State :=
  { s with pointers := s.pointers ++ [some { isWeak }] }

/-- `SharedPtr(control, object)`, also for an object that is contained in another, and the casts and
conversions. -/
def construct (control object : Option Nat) : Option State :=
  (s.make false).resetShared s.pointers.length control object

/-- `SharedPtr(const SharedPtr&)`, and with another object `MakeContainedSharedObject`, the casts and
the conversions. -/
def copyShared (source : Nat) (object : Option Nat → Option Nat) : Option State :=
  (s.pointer false source).bind fun other => s.construct other.control (object other.object)

/-- `SharedPtr(SharedPtr&&)`, and with another object the same as above. -/
def moveShared (source : Nat) (object : Option Nat → Option Nat) : Option State :=
  (s.pointer false source).bind fun other =>
    (s.push (.sharedReset source)).construct other.control (object other.object)

/-- `SharedPtr(const WeakPtr&)`, also `lock`. -/
def lock (source : Nat) : Option State :=
  (s.pointer true source).bind fun other =>
    match other.control with
    | none => some (s.make false)
    | some c =>
      if (s.controls c).allocated then
        if (s.controls c).sharedPtrCount ≠ 0 then s.construct other.control other.object
        else some (s.make false)
      else none

/-- `operator=(const SharedPtr&)` -/
def assignShared (k source : Nat) : Option State :=
  (s.pointer false source).bind fun other =>
    if k ≠ source then s.resetShared k other.control other.object else some s

/-- `operator=(SharedPtr&&)` -/
def moveAssignShared (k source : Nat) : Option State :=
  (s.pointer false source).bind fun other =>
    (s.push (.sharedReset source)).resetShared k other.control other.object

/-- `operator=(const WeakPtr&)` -/
def assignSharedFromWeak (k source : Nat) : Option State :=
  (s.pointer true source).bind fun other => s.resetShared k other.control other.object

/-- `operator=(nullptr)` -/
def assignSharedNull (k : Nat) : Option State := s.resetShared k none none

def destroyShared (k : Nat) : Option State := (s.push (.close k)).resetShared k none none

/-- `WeakPtr(const WeakPtr&)` -/
def copyWeak (source : Nat) (object : Option Nat → Option Nat) : Option State :=
  (s.pointer true source).bind fun other =>
    (s.make true).resetWeak s.pointers.length other.control (object other.object)

/-- `WeakPtr(WeakPtr&&)` -/
def moveWeak (source : Nat) (object : Option Nat → Option Nat) : Option State :=
  (s.pointer true source).bind fun other =>
    ((s.push (.weakReset source)).make true).resetWeak s.pointers.length other.control
      (object other.object)

/-- `WeakPtr(const SharedPtr&)` -/
def weakFromShared (source : Nat) : Option State :=
  (s.pointer false source).bind fun other =>
    (s.make true).resetWeak s.pointers.length other.control other.object

/-- `operator=(const WeakPtr&)` -/
def assignWeak (k source : Nat) : Option State :=
  (s.pointer true source).bind fun other => s.resetWeak k other.control other.object

/-- `operator=(WeakPtr&&)` -/
def moveAssignWeak (k source : Nat) : Option State :=
  (s.pointer true source).bind fun other =>
    (s.push (.weakReset source)).resetWeak k other.control other.object

/-- `operator=(const SharedPtr&)` -/
def assignWeakFromShared (k source : Nat) : Option State :=
  (s.pointer false source).bind fun other => s.resetWeak k other.control other.object

/-- `operator=(nullptr)` -/
def assignWeakNull (k : Nat) : Option State := s.resetWeak k none none

def destroyWeak (k : Nat) : Option State := (s.push (.close k)).resetWeak k none none

/-- The object of a control block is constructed, and the first `SharedPtr` to it is made. -/
def emplaceObject (c object : Nat) : Option State :=
  (s.setControl c { s.controls c with allocated := true, alive := true }).construct (some c)
    (some object)

def newControl (deleter : Deleter) : State :=
  { s.setControl s.made { deleter } with made := s.made + 1 }

def makeSharedOnHeap (object : Nat) : Option State :=
  (s.newControl .onHeap).emplaceObject s.made object

def allocate (capacity : Nat → Nat) (s : State) (a object : Nat) : Option State :=
  match s.freeList a with
  | c :: rest => { s with freeList := update s.freeList a rest }.emplaceObject c object
  | [] =>
    if s.elements a = capacity a then some (s.make false)
    else
      { s.newControl (.fixedSize a) with
        elements := update s.elements a (s.elements a + 1) }.emplaceObject s.made object

def emplace (c object : Nat) : Option State :=
  if (s.controls c).allocated then none else s.emplaceObject c object

def makePtr (c object : Nat) : Option State := s.construct (some c) (some object)

end State

end SharedPointers
