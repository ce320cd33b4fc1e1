import EmbeddedInfra.Lockstep
import EmbeddedInfra.Util.SharedPtrDrops

/-! In every run, also of calls from a destructor or a callback, an object is destructed with its last
`SharedPtr` and its control block deallocated with its last pointer, as long as no expired `WeakPtr`
is assigned to a `SharedPtr` and no `WeakPtr` is assigned to where its own old reference is the last
one to what it gets. -/

namespace SharedPointers

open List
open Option (any_some bind_some)

inductive Operation
  | makeNull (isWeak : Bool)
  | copyShared (source : Nat) (object : Option Nat → Option Nat)
  | moveShared (source : Nat) (object : Option Nat → Option Nat)
  | lock (source : Nat)
  | assignShared (k source : Nat)
  | moveAssignShared (k source : Nat)
  | assignSharedFromWeak (k source : Nat)
  | assignSharedNull (k : Nat)
  | destroyShared (k : Nat)
  | copyWeak (source : Nat) (object : Option Nat → Option Nat)
  | moveWeak (source : Nat) (object : Option Nat → Option Nat)
  | weakFromShared (source : Nat)
  | assignWeak (k source : Nat)
  | moveAssignWeak (k source : Nat)
  | assignWeakFromShared (k source : Nat)
  | assignWeakNull (k : Nat)
  | destroyWeak (k : Nat)
  | makeSharedOnHeap (object : Nat)
  | sharedOptional
  | allocate (a object : Nat)
  | emplace (c object : Nat)
  | makePtr (c object : Nat)

/-- Code of the user calls an operation or comes to its end, or what was put off goes on. -/
inductive Event
  | call (operation : Operation)
  | leave
  | resume

def State.call (capacity : Nat → Nat) (s : State) : Operation → Option State
  | .makeNull isWeak => some (s.make isWeak)
  | .copyShared source object => s.copyShared source object
  | .moveShared source object => s.moveShared source object
  | .lock source => s.lock source
  | .assignShared k source => s.assignShared k source
  | .moveAssignShared k source => s.moveAssignShared k source
  | .assignSharedFromWeak k source => s.assignSharedFromWeak k source
  | .assignSharedNull k => s.assignSharedNull k
  | .destroyShared k => s.destroyShared k
  | .copyWeak source object => s.copyWeak source object
  | .moveWeak source object => s.moveWeak source object
  | .weakFromShared source => s.weakFromShared source
  | .assignWeak k source => s.assignWeak k source
  | .moveAssignWeak k source => s.moveAssignWeak k source
  | .assignWeakFromShared k source => s.assignWeakFromShared k source
  | .assignWeakNull k => s.assignWeakNull k
  | .destroyWeak k => s.destroyWeak k
  | .makeSharedOnHeap object => s.makeSharedOnHeap object
  | .sharedOptional => some (s.newControl .optional)
  | .allocate a object => s.allocate capacity a object
  | .emplace c object => s.emplace c object
  | .makePtr c object => s.makePtr c object

def perform (capacity : Nat → Nat) (s : State) : Event → Option (State × Unit)
  | .call operation => (s.call capacity operation).map (·, ())
  | .leave => some ({ s with stack := s.stack.tail }, ())
  | .resume => s.resume.map (·, ())

variable (s : State)

def Exists (isWeak : Bool) (k : Nat) : Prop := (s.pointer isWeak k).isSome = true

def Open (isWeak : Bool) (k : Nat) : Prop :=
  Exists s isWeak k ∧ Action.close k ∉ s.stack

/-- Pointers are used from their construction to their destruction, and the object of a
`SharedOptional` as its assertions say. -/
def Legal : Operation → Prop
  | .makeNull _ | .makeSharedOnHeap _ | .sharedOptional | .allocate _ _ => True
  | .copyShared source _ | .moveShared source _ | .weakFromShared source => Exists s false source
  | .lock source | .copyWeak source _ | .moveWeak source _ => Exists s true source
  | .assignShared k source | .moveAssignShared k source => Open s false k ∧ Exists s false source
  | .assignSharedFromWeak k source => Open s false k ∧ Exists s true source
  | .assignWeak k source | .moveAssignWeak k source => Open s true k ∧ Exists s true source
  | .assignWeakFromShared k source => Open s true k ∧ Exists s false source
  | .assignSharedNull k => Exists s false k
  | .assignWeakNull k => Exists s true k
  | .destroyShared k => Open s false k
  | .destroyWeak k => Open s true k
  | .emplace c _ => c < s.made ∧ (s.controls c).deleter = .optional ∧ (s.controls c).allocated = false
  | .makePtr c _ => c < s.made ∧ (s.controls c).deleter = .optional ∧ (s.controls c).alive = true

/-- Code of the user goes on until its end. -/
def Allowed : Event → Prop
  | .call operation => s.stack.head? = some .user ∧ Legal s operation
  | .leave => s.stack.head? = some .user ∧ s.stack ≠ [.user]
  | .resume => s.stack.head? ≠ some .user

def controlOf (isWeak : Bool) (k : Nat) : Option Nat :=
  (s.pointer isWeak k).bind (·.control)

/-- A control block can be counted once more. -/
def Room (control : Option Nat) : Prop :=
  ∀ c ∈ control, (s.controls c).weakPtrCount + 1 < 2 ^ 16

/-- A `WeakPtr` is not in the middle of its `Reset`. -/
def Steady (k : Nat) : Prop := ∀ p ∈ s.pointer true k, p.resetting = false

def Action.stores (c : Nat) : Action → Bool
  | .weakStore _ control _ => decide (control = some c)
  | _ => false

/-- A `WeakPtr` is left alone during its `Reset`, no pointer is destroyed that was moved from and will
be reset for it, no `SharedPtr` is assigned from a `WeakPtr` that is expired, no count leaves its range,
not even for a moment, and no control block is deallocated that a `WeakPtr` is about to get. -/
def Meets : Event → Prop
  | .call operation =>
    match operation with
    | .copyShared source _ | .moveShared source _ => Room s (controlOf s false source)
    | .lock source =>
      Steady s source ∧ ∀ c ∈ controlOf s true source,
        (s.controls c).sharedPtrCount ≠ 0 → (s.controls c).weakPtrCount + 1 < 2 ^ 16
    | .assignShared k source => k ≠ source → Room s (controlOf s false source)
    | .moveAssignShared _ source => Room s (controlOf s false source)
    | .assignSharedFromWeak _ source =>
      Steady s source ∧ Room s (controlOf s true source) ∧
        ∀ c ∈ controlOf s true source, (s.controls c).sharedPtrCount ≠ 0
    | .destroyShared k => Action.sharedReset k ∉ s.stack
    | .copyWeak source _ | .moveWeak source _ => Steady s source
    | .assignWeak k source | .moveAssignWeak k source => Steady s k ∧ Steady s source
    | .assignWeakFromShared k _ | .assignWeakNull k => Steady s k
    | .destroyWeak k => Steady s k ∧ Action.weakReset k ∉ s.stack
    | .makePtr c _ => Room s (some c)
    | _ => True
  | .leave => True
  | .resume =>
    match s.stack with
    | .weakStore _ control _ :: _ => Room s control
    | .decreaseWeakCount c :: rest =>
      (s.controls c).weakPtrCount = 1 → ∀ action ∈ rest, action.stores c = false
    | _ => True

def refers (c : Nat) (pointer : Option Pointer) : Bool :=
  pointer.any fun p => decide (p.control = some c)

/-- An object lives as long as there is a `SharedPtr` to it, or one that was just dropped; its control
block is in use as long as there is a pointer to it; what is not in use can be allocated. -/
structure Shows (s : State) : Prop where
  alive : ∀ c, (s.controls c).alive = true ↔
    (∃ k p, s.pointer false k = some p ∧ p.control = some c) ∨ .decreaseSharedCount c ∈ s.stack
  allocated : ∀ c, (s.controls c).allocated = true ↔
    (∃ (k : Nat) (p : Pointer), s.pointers[k]? = some (some p) ∧ p.resetting = false ∧ p.control = some c) ∨
      .decreaseSharedCount c ∈ s.stack ∨ .decreaseWeakCount c ∈ s.stack
  inUse : ∀ c, (s.controls c).alive = true → (s.controls c).allocated = true
  counts : s.stack = [.user] → ∀ c,
    (s.controls c).sharedPtrCount = s.pointers.countP (isShared c) ∧
      (s.controls c).weakPtrCount = s.pointers.countP (refers c)
  nodes : ∀ a, (s.freeList a).Nodup ∧ ∀ c, c ∈ s.freeList a ↔
    c < s.made ∧ (s.controls c).deleter = .fixedSize a ∧ (s.controls c).allocated = false

section

variable {s : State} {k c : Nat} {p : Pointer}

theorem mem_pointer {q : Option Pointer → Bool} (gone : q none = false) :
    0 < s.pointers.countP q ↔
      ∃ (k : Nat) (p : Pointer), s.pointers[k]? = some (some p) ∧ q (some p) = true := by
  rw [countP_pos_iff]
  constructor
  · intro ⟨pointer, inside, holds⟩
    have ⟨k, there⟩ := getElem?_of_mem inside
    cases pointer with
    | none => exact absurd holds (by simp [gone])
    | some p => exact ⟨k, p, there, holds⟩
  · intro ⟨k, p, there, holds⟩
    exact ⟨some p, mem_of_getElem? there, holds⟩

theorem Inv.shows (inv : Inv s none none) : Shows s where
  alive c := by
    rw [inv.alive c (by simp), decide_eq_true_iff, inv.shared c, Nat.add_pos_iff_pos_or_pos,
      mem_pointer rfl, count_pos_iff]
    apply or_congr_left
    constructor
    · rintro ⟨k, p, there, holds⟩
      simp only [isShared, any_some, Bool.and_eq_true, Bool.not_eq_true',
        decide_eq_true_eq] at holds
      exact ⟨k, p, pointer_iff.mpr ⟨there, holds.1⟩, holds.2⟩
    · rintro ⟨k, p, found, refers⟩
      obtain ⟨there, kind⟩ := pointer_iff.mp found
      exact ⟨k, p, there, by simp [isShared, kind, refers]⟩
  allocated c := by
    rw [inv.allocated c (by simp), decide_eq_true_iff, inv.weak c, Nat.add_assoc,
      Nat.add_pos_iff_pos_or_pos, Nat.add_pos_iff_pos_or_pos, mem_pointer rfl,
      count_pos_iff, count_pos_iff]
    apply or_congr_left
    constructor
    · rintro ⟨k, p, there, holds⟩
      simp only [isCounted, any_some, Bool.and_eq_true, Bool.not_eq_true',
        decide_eq_true_eq] at holds
      exact ⟨k, p, there, holds⟩
    · rintro ⟨k, p, there, notResetting, refers⟩
      exact ⟨k, p, there, by simp [isCounted, notResetting, refers]⟩
  inUse c lives := by
    rw [inv.alive c (by simp), decide_eq_true_iff] at lives
    rw [inv.allocated c (by simp)]
    exact decide_eq_true (Nat.lt_of_lt_of_le lives (inv.shared_le_weak c))
  counts atRest c := by
    have settled : s.pointers.countP (isCounted c) = s.pointers.countP (refers c) := by
      apply countP_congr
      intro pointer inside
      cases pointer with
      | none => exact Iff.rfl
      | some p =>
        obtain ⟨k, there⟩ := getElem?_of_mem inside
        have notResetting : p.resetting = false := by
          by_contra resetting
          obtain ⟨_, control, object, pending⟩ := inv.resetting k p there (by simpa using resetting)
          rw [atRest] at pending
          cases mem_singleton.mp pending
        simp [isCounted, refers, notResetting]
    have sharedCount := inv.shared c
    have weakCount := inv.weak c
    rw [atRest] at sharedCount weakCount
    rw [settled] at weakCount
    exact ⟨sharedCount, weakCount⟩
  nodes := inv.nodes

theorem Exists.found {isWeak : Bool} (exists_ : Exists s isWeak k) :
    ∃ p, s.pointer isWeak k = some p := Option.isSome_iff_exists.mp exists_

theorem controlOf_eq {isWeak : Bool} (found : s.pointer isWeak k = some p) :
    controlOf s isWeak k = p.control := by
  rw [controlOf, found]
  rfl

theorem Inv.takes_shared (inv : Inv s none none) (found : s.pointer false k = some p)
    (room : Room s (controlOf s false k)) : ∀ c ∈ p.control, Inv.Takes s c := by
  intro c isControl
  have there := (pointer_iff.mp found).1
  refine ⟨inv.alive_of_shared found isControl,
    inv.allocated_of_pointer there (inv.shared_notResetting found) isControl, ?_⟩
  exact room c ((controlOf_eq found).trans isControl)

theorem Inv.allocated_weak (inv : Inv s none none) (found : s.pointer true k = some p)
    (steady : Steady s k) : ∀ c ∈ p.control, (s.controls c).allocated = true := by
  intro c isControl
  exact inv.allocated_of_pointer (pointer_iff.mp found).1 (steady p found) isControl

theorem Inv.allocated_shared (inv : Inv s none none) (found : s.pointer false k = some p) :
    ∀ c ∈ p.control, (s.controls c).allocated = true := by
  intro c isControl
  exact inv.allocated_of_pointer (pointer_iff.mp found).1 (inv.shared_notResetting found) isControl

theorem Inv.takes_weak (inv : Inv s none none) (found : s.pointer true k = some p)
    (steady : Steady s k) {c : Nat} (isControl : p.control = some c)
    (lives : (s.controls c).sharedPtrCount ≠ 0) (room : (s.controls c).weakPtrCount + 1 < 2 ^ 16) :
    Inv.Takes s c := by
  refine ⟨?_, inv.allocated_weak found steady c isControl, room⟩
  rw [inv.alive c nofun]
  exact decide_eq_true (Nat.pos_of_ne_zero lives)

theorem Inv.alone (inv : Inv s none none) {isWeak : Bool} (found : s.pointer isWeak k = some p)
    (notResetting : p.resetting = false) (notClosing : Action.close k ∉ s.stack)
    (notMoved : (isWeak = false → Action.sharedReset k ∉ s.stack) ∧
      (isWeak = true → Action.weakReset k ∉ s.stack)) :
    ∀ action ∈ s.stack, action.target ≠ some k := by
  have isP : ∀ {kind : Bool} {q : Pointer}, s.pointer kind k = some q → q = p ∧ isWeak = kind := by
    intro kind q other
    have ⟨here, itsKind⟩ := pointer_iff.mp other
    have ⟨there, isKind⟩ := pointer_iff.mp found
    have same : q = p := Option.some.inj (Option.some.inj (here.symm.trans there))
    exact ⟨same, by rw [← isKind, ← itsKind, same]⟩
  intro action inside target
  cases action with
  | sharedReset j =>
    have isK : j = k := Option.some.inj target
    subst isK
    have ⟨q, other⟩ := inv.sharedResets j inside
    exact notMoved.1 (isP other).2 inside
  | weakReset j =>
    have isK : j = k := Option.some.inj target
    subst isK
    have ⟨q, other⟩ := inv.weakResets j inside
    exact notMoved.2 (isP other).2 inside
  | weakStore j control object =>
    have isK : j = k := Option.some.inj target
    subst isK
    have ⟨⟨q, other, resetting⟩, _⟩ := inv.stores j control object inside
    rw [(isP other).1, notResetting] at resetting
    exact nomatch resetting
  | close j =>
    have isK : j = k := Option.some.inj target
    exact notClosing (isK ▸ inside)
  | _ => exact nomatch target

/-! ### The operations -/

variable {source : Nat}

section

variable (inv : Inv s none none)

include inv

theorem Inv.copyShared (exists_ : Exists s false source) (room : Room s (controlOf s false source))
    (object : Option Nat → Option Nat) : GoesOn (s.copyShared source object) := by
  have ⟨p, found⟩ := exists_.found
  simp only [State.copyShared, found, bind_some]
  exact inv.construct _ (inv.takes_shared found room) nofun

theorem Inv.moveShared (exists_ : Exists s false source) (room : Room s (controlOf s false source))
    (object : Option Nat → Option Nat) : GoesOn (s.moveShared source object) := by
  have ⟨p, found⟩ := exists_.found
  simp only [State.moveShared, found, bind_some]
  refine (inv.push_sharedReset found).construct _ ?_ nofun
  intro c isControl
  have takes := inv.takes_shared found room c isControl
  exact ⟨takes.alive, takes.allocated, takes.room⟩

theorem Inv.lock (exists_ : Exists s true source) (steady : Steady s source)
    (room : ∀ c ∈ controlOf s true source, (s.controls c).sharedPtrCount ≠ 0 →
      (s.controls c).weakPtrCount + 1 < 2 ^ 16) : GoesOn (s.lock source) := by
  have ⟨p, found⟩ := exists_.found
  simp only [State.lock, found, bind_some]
  cases isControl : p.control with
  | none => exact ⟨_, rfl, inv.make false⟩
  | some c =>
    simp only [inv.allocated_weak found steady c isControl, if_true]
    by_cases lives : (s.controls c).sharedPtrCount ≠ 0
    · rw [if_pos lives]
      refine inv.construct _ ?_ nofun
      intro d same
      rw [← Option.some.inj same]
      exact inv.takes_weak found steady isControl lives
        (room c ((controlOf_eq found).trans isControl) lives)
    · rw [if_neg lives]
      exact ⟨_, rfl, inv.make false⟩

theorem Inv.assignShared (target : Open s false k) (exists_ : Exists s false source)
    (room : k ≠ source → Room s (controlOf s false source)) : GoesOn (s.assignShared k source) := by
  have ⟨q, there⟩ := target.1.found
  have ⟨p, found⟩ := exists_.found
  simp only [State.assignShared, found, bind_some]
  by_cases differs : k ≠ source
  · rw [if_pos differs]
    exact inv.resetShared there _ (inv.takes_shared found (room differs)) nofun nofun
      fun closes => absurd closes target.2
  · rw [if_neg differs]
    exact ⟨s, rfl, inv⟩

theorem Inv.moveAssignShared (target : Open s false k) (exists_ : Exists s false source)
    (room : Room s (controlOf s false source)) : GoesOn (s.moveAssignShared k source) := by
  have ⟨q, there⟩ := target.1.found
  have ⟨p, found⟩ := exists_.found
  simp only [State.moveAssignShared, found, bind_some]
  refine (inv.push_sharedReset found).resetShared (k := k) (p := q) there _ ?_ nofun nofun ?_
  · intro c isControl
    have takes := inv.takes_shared found room c isControl
    exact ⟨takes.alive, takes.allocated, takes.room⟩
  · intro closes
    rcases mem_cons.mp closes with isOther | closes
    · exact nomatch isOther
    · exact absurd closes target.2

theorem Inv.assignSharedFromWeak (target : Open s false k) (exists_ : Exists s true source)
    (steady : Steady s source) (room : Room s (controlOf s true source))
    (lives : ∀ c ∈ controlOf s true source, (s.controls c).sharedPtrCount ≠ 0) :
    GoesOn (s.assignSharedFromWeak k source) := by
  have ⟨q, there⟩ := target.1.found
  have ⟨p, found⟩ := exists_.found
  simp only [State.assignSharedFromWeak, found, bind_some]
  refine inv.resetShared there _ ?_ nofun nofun fun closes => absurd closes target.2
  intro c isControl
  have isIt := (controlOf_eq found).trans isControl
  exact inv.takes_weak found steady isControl (lives c isIt) (room c isIt)

theorem Inv.destroyShared (target : Open s false k) (notMoved : Action.sharedReset k ∉ s.stack) :
    GoesOn (s.destroyShared k) := by
  have ⟨p, found⟩ := target.1.found
  have alone := inv.alone found (inv.shared_notResetting found) target.2
    ⟨fun _ => notMoved, fun kind => Bool.noConfusion kind⟩
  refine (inv.push_close (pointer_iff.mp found).1 alone).resetShared (k := k) (p := p) found none
    nofun nofun ?_ fun _ => rfl
  intro j isK
  exact (Option.some.inj isK).symm

theorem Inv.copyWeak (exists_ : Exists s true source) (steady : Steady s source)
    (object : Option Nat → Option Nat) : GoesOn (s.copyWeak source object) := by
  have ⟨p, found⟩ := exists_.found
  simp only [State.copyWeak, found, bind_some]
  exact inv.constructWeak _ _ (inv.allocated_weak found steady)

theorem Inv.moveWeak (exists_ : Exists s true source) (steady : Steady s source)
    (object : Option Nat → Option Nat) : GoesOn (s.moveWeak source object) := by
  have ⟨p, found⟩ := exists_.found
  simp only [State.moveWeak, found, bind_some]
  exact (inv.push_weakReset found (steady p found)).constructWeak _ _
    (inv.allocated_weak found steady)

theorem Inv.weakFromShared (exists_ : Exists s false source) :
    GoesOn (s.weakFromShared source) := by
  have ⟨p, found⟩ := exists_.found
  simp only [State.weakFromShared, found, bind_some]
  exact inv.constructWeak _ _ (inv.allocated_shared found)

section

variable (target : Open s true k) (steady : Steady s k)

include target steady

theorem Inv.assignWeak (exists_ : Exists s true source) (sourceSteady : Steady s source) :
    GoesOn (s.assignWeak k source) := by
  have ⟨q, there⟩ := target.1.found
  have ⟨p, found⟩ := exists_.found
  simp only [State.assignWeak, found, bind_some]
  exact inv.resetWeak there (steady q there) _ _ (inv.allocated_weak found sourceSteady) nofun
    fun closes => absurd closes target.2

theorem Inv.moveAssignWeak (exists_ : Exists s true source) (sourceSteady : Steady s source) :
    GoesOn (s.moveAssignWeak k source) := by
  have ⟨q, there⟩ := target.1.found
  have ⟨p, found⟩ := exists_.found
  simp only [State.moveAssignWeak, found, bind_some]
  refine (inv.push_weakReset found (sourceSteady p found)).resetWeak (k := k) (p := q) there
    (steady q there) _ _ (inv.allocated_weak found sourceSteady) nofun ?_
  intro closes
  rcases mem_cons.mp closes with isOther | closes
  · exact nomatch isOther
  · exact absurd closes target.2

theorem Inv.assignWeakFromShared (exists_ : Exists s false source) :
    GoesOn (s.assignWeakFromShared k source) := by
  have ⟨q, there⟩ := target.1.found
  have ⟨p, found⟩ := exists_.found
  simp only [State.assignWeakFromShared, found, bind_some]
  exact inv.resetWeak there (steady q there) _ _ (inv.allocated_shared found) nofun
    fun closes => absurd closes target.2

theorem Inv.destroyWeak (notMoved : Action.weakReset k ∉ s.stack) : GoesOn (s.destroyWeak k) := by
  have ⟨p, found⟩ := target.1.found
  have alone := inv.alone found (steady p found) target.2
    ⟨fun kind => Bool.noConfusion kind, fun _ => notMoved⟩
  refine (inv.push_close (pointer_iff.mp found).1 alone).resetWeak (k := k) (p := p) found
    (steady p found) none none nofun ?_ fun _ => rfl
  intro j isK
  exact (Option.some.inj isK).symm

end

theorem Inv.emplaceAgain (isMade : c < s.made) (unused : (s.controls c).allocated = false)
    (freeList : Nat → List Nat)
    (nodes : ∀ a, (freeList a).Nodup ∧ ∀ d, d ∈ freeList a ↔ c ≠ d ∧ d ∈ s.freeList a)
    (object : Nat) : GoesOn ({ s with freeList }.emplaceObject c object) := by
  have ⟨noShared, noWeak⟩ := inv.counts_zero unused
  refine inv.emplaceObject (u := { s with freeList }) unused rfl rfl (s.controls c).deleter ?_
    (fun _ _ => rfl) ?_ ⟨isMade, inv.unmade⟩ object
  · dsimp only
    rw [noShared, noWeak]
  · intro a
    refine ⟨(nodes a).1, fun d => ((nodes a).2 d).trans ?_⟩
    rw [(inv.nodes a).2 d]

theorem Inv.allocate (capacity : Nat → Nat) (a object : Nat) :
    GoesOn (s.allocate capacity a object) := by
  rw [State.allocate]
  cases free : s.freeList a with
  | nil =>
    dsimp only
    by_cases full : s.elements a = capacity a
    · rw [if_pos full]
      exact ⟨_, rfl, inv.make false⟩
    · rw [if_neg full]
      exact inv.emplaceNew (.fixedSize a) rfl object
  | cons c rest =>
    dsimp only
    have ⟨distinct, members⟩ := inv.nodes a
    have ⟨isMade, isDeleter, unused⟩ := (members c).mp (free ▸ mem_cons_self)
    have ⟨notIn, restDistinct⟩ := nodup_cons.mp (free ▸ distinct)
    refine inv.emplaceAgain isMade unused _ ?_ object
    intro b
    by_cases same : b = a
    · subst same
      rw [Function.update_self, free]
      refine ⟨restDistinct, fun d => ?_⟩
      rw [mem_cons]
      constructor
      · exact fun inside => ⟨fun isIt => notIn (isIt ▸ inside), .inr inside⟩
      · exact fun ⟨differs, inside⟩ => inside.resolve_left (Ne.symm differs)
    · rw [Function.update_of_ne same]
      refine ⟨(inv.nodes b).1, fun d => (and_iff_right_of_imp ?_).symm⟩
      intro inside isIt
      have itsDeleter := (((inv.nodes b).2 d).mp inside).2.1
      rw [← isIt, isDeleter] at itsDeleter
      exact same (Deleter.fixedSize.inj itsDeleter).symm

theorem Inv.emplace (isMade : c < s.made) (isDeleter : (s.controls c).deleter = .optional)
    (unused : (s.controls c).allocated = false) (object : Nat) : GoesOn (s.emplace c object) := by
  simp only [State.emplace, unused, Bool.false_eq_true, if_false]
  refine inv.emplaceAgain isMade unused s.freeList ?_ object
  intro a
  refine ⟨(inv.nodes a).1, fun d => (and_iff_right_of_imp ?_).symm⟩
  intro inside isIt
  have itsDeleter := (((inv.nodes a).2 d).mp inside).2.1
  rw [← isIt, isDeleter] at itsDeleter
  exact nomatch itsDeleter

theorem Inv.makePtr (lives : (s.controls c).alive = true) (room : Room s (some c)) (object : Nat) :
    GoesOn (s.makePtr c object) := by
  refine inv.construct _ ?_ nofun
  intro d isControl
  rw [← Option.some.inj isControl]
  exact ⟨lives, inv.shows.inUse c lives, room c rfl⟩

theorem Inv.sharedOptional : Inv (s.newControl .optional) none none := by
  have unused := inv.unmade s.made (Nat.le_refl _)
  have ⟨noShared, noWeak⟩ := inv.counts_zero unused
  have lives := inv.alive s.made nofun
  have controls : ∀ d, (s.newControl .optional).controls d =
      if d = s.made then { deleter := .optional } else s.controls d := by
    intro d
    exact Function.update_apply s.controls s.made _ d
  have kept : ∀ d, ((s.newControl .optional).controls d).sharedPtrCount =
        (s.controls d).sharedPtrCount ∧
      ((s.newControl .optional).controls d).weakPtrCount = (s.controls d).weakPtrCount ∧
      ((s.newControl .optional).controls d).alive = (s.controls d).alive ∧
      ((s.newControl .optional).controls d).allocated = (s.controls d).allocated := by
    intro d
    rw [controls]
    by_cases same : d = s.made
    · rw [if_pos same, same, lives, noShared, noWeak, unused]
      exact ⟨rfl, rfl, rfl, rfl⟩
    · rw [if_neg same]
      exact ⟨rfl, rfl, rfl, rfl⟩
  constructor
  case shared => exact fun d => (kept d).1.trans (inv.shared d)
  case weak => exact fun d => (kept d).2.1.trans (inv.weak d)
  case alive =>
    intro d _
    rw [(kept d).1, (kept d).2.2.1]
    exact inv.alive d nofun
  case allocated =>
    intro d _
    rw [(kept d).2.1, (kept d).2.2.2]
    exact inv.allocated d nofun
  case new => exact nofun
  case bounded => exact fun d => (kept d).2.1 ▸ inv.bounded d
  case stores =>
    intro j control object inside
    have ⟨resets, used, shut⟩ := inv.stores j control object inside
    exact ⟨resets, fun d isControl => (kept d).2.2.2.trans (used d isControl), shut⟩
  case sharedResets => exact inv.sharedResets
  case weakResets => exact inv.weakResets
  case closes => exact inv.closes
  case resetting => exact inv.resetting
  case order => exact inv.order
  case base => exact inv.base
  case nodes =>
    intro a
    refine ⟨(inv.nodes a).1, fun d => ((inv.nodes a).2 d).trans ?_⟩
    have isMade : (s.newControl .optional).made = s.made + 1 := rfl
    rw [(kept d).2.2.2, controls, isMade]
    by_cases same : d = s.made
    · rw [if_pos same]
      exact iff_of_false (fun ⟨below, _⟩ => by omega) fun ⟨_, isOther, _⟩ => nomatch isOther
    · rw [if_neg same]
      exact and_congr_left fun _ => by omega
  case unmade =>
    intro d above
    rw [(kept d).2.2.2]
    exact inv.unmade d (Nat.le_of_succ_le above)

theorem Inv.call (capacity : Nat → Nat) {operation : Operation} (legal : Legal s operation)
    (meets : Meets s (.call operation)) : GoesOn (s.call capacity operation) := by
  cases operation with
  | makeNull isWeak => exact ⟨_, rfl, inv.make isWeak⟩
  | copyShared source object => exact inv.copyShared legal meets object
  | moveShared source object => exact inv.moveShared legal meets object
  | lock source => exact inv.lock legal meets.1 meets.2
  | assignShared k source => exact inv.assignShared legal.1 legal.2 meets
  | moveAssignShared k source => exact inv.moveAssignShared legal.1 legal.2 meets
  | assignSharedFromWeak k source =>
    exact inv.assignSharedFromWeak legal.1 legal.2 meets.1 meets.2.1 meets.2.2
  | assignSharedNull k =>
    have ⟨p, found⟩ := Exists.found legal
    change GoesOn (s.resetShared k none none)
    exact inv.resetShared found none nofun nofun nofun fun _ => rfl
  | destroyShared k => exact inv.destroyShared legal meets
  | copyWeak source object => exact inv.copyWeak legal meets object
  | moveWeak source object => exact inv.moveWeak legal meets object
  | weakFromShared source => exact inv.weakFromShared legal
  | assignWeak k source => exact inv.assignWeak legal.1 meets.1 legal.2 meets.2
  | moveAssignWeak k source => exact inv.moveAssignWeak legal.1 meets.1 legal.2 meets.2
  | assignWeakFromShared k source => exact inv.assignWeakFromShared legal.1 meets legal.2
  | assignWeakNull k =>
    have ⟨p, found⟩ := Exists.found legal
    have steady : Steady s k := meets
    exact inv.resetWeak found (steady p found) none none nofun nofun fun _ => rfl
  | destroyWeak k => exact inv.destroyWeak legal meets.1 meets.2
  | makeSharedOnHeap object => exact inv.emplaceNew .onHeap rfl object
  | sharedOptional => exact ⟨_, rfl, inv.sharedOptional⟩
  | allocate a object => exact inv.allocate capacity a object
  | emplace c object => exact inv.emplace legal.1 legal.2.1 legal.2.2 object
  | makePtr c object => exact inv.makePtr legal.2.2 meets object

end

/-! ### What was put off -/

theorem Inv.resume (inv : Inv s none none) (allowed : Allowed s .resume) (meets : Meets s .resume) :
    GoesOn s.resume := by
  cases top : s.stack with
  | nil =>
    have base := inv.base
    rw [top] at base
    cases base
  | cons action rest =>
    rw [State.resume, top]
    rw [Meets, top] at meets
    cases action with
    | user =>
      rw [Allowed, top] at allowed
      exact absurd rfl allowed
    | sharedReset k =>
      obtain ⟨p, found⟩ := inv.sharedResets k (by simp [top])
      have popped := inv.pop top (by simp) (by simp) rfl (by simp)
      exact popped.resetShared (k := k) (p := p) found none (by simp) (by simp) (by simp)
        fun _ => rfl
    | weakReset k =>
      obtain ⟨p, found⟩ := inv.weakResets k (by simp [top])
      have ordered := (pairwise_cons.mp (top ▸ inv.order)).1
      have notResetting : p.resetting = false := by
        by_contra resetting
        obtain ⟨_, control, object, inside⟩ :=
          inv.resetting k p (pointer_iff.mp found).1 (by simpa using resetting)
        rw [top] at inside
        rcases mem_cons.mp inside with isOther | inside
        · cases isOther
        · cases (ordered _ inside k rfl rfl).1
      have popped := inv.pop top (by simp) (by simp) rfl (by simp)
      exact popped.resetWeak (k := k) (p := p) found notResetting none none (by simp) (by simp)
        fun _ => rfl
    | weakStore k control object => exact inv.storeWeak top meets
    | decreaseSharedCount c => exact inv.decreaseSharedCount top
    | decreaseWeakCount c =>
      refine inv.decreaseWeakCount top fun last k object inside => ?_
      have isNot := meets last _ inside
      simp [Action.stores] at isNot
    | close k =>
      have closes := inv.close top
      rw [State.resume, top] at closes
      exact closes

theorem Inv.perform (inv : Inv s none none) (capacity : Nat → Nat) {event : Event}
    (allowed : Allowed s event) (meets : Meets s event) :
    ∃ t, perform capacity s event = some (t, ()) ∧ Inv t none none := by
  cases event with
  | call operation =>
    have ⟨t, calls, next⟩ := inv.call capacity allowed.2 meets
    exact ⟨t, by rw [SharedPointers.perform, calls]; rfl, next⟩
  | leave =>
    refine ⟨_, rfl, ?_⟩
    cases top : s.stack with
    | nil => exact absurd allowed.1 (by rw [top]; exact nofun)
    | cons action rest =>
      have isUser : action = .user := by
        have first := allowed.1
        rw [top] at first
        exact Option.some.inj first
      subst isUser
      refine inv.pop top nofun nofun rfl fun _ empty => allowed.2 ?_
      rw [top]
      exact congrArg (Action.user :: ·) empty
  | resume =>
    have ⟨t, resumes, next⟩ := inv.resume allowed meets
    exact ⟨t, by rw [SharedPointers.perform, resumes]; rfl, next⟩

theorem Inv.initial : Inv {} none none where
  shared _ := rfl
  weak _ := rfl
  alive _ _ := rfl
  allocated _ _ := rfl
  new := nofun
  bounded _ := Nat.two_pow_pos 16
  stores _ _ _ inside := nomatch mem_singleton.mp inside
  sharedResets _ inside := nomatch mem_singleton.mp inside
  weakResets _ inside := nomatch mem_singleton.mp inside
  closes _ inside := nomatch mem_singleton.mp inside
  resetting _ _ there := nomatch there
  order := pairwise_singleton _ _
  base := rfl
  nodes _ := ⟨nodup_nil, fun _ => iff_of_false nofun fun ⟨below, _⟩ => nomatch below⟩
  unmade _ _ := rfl

end

/-! ### Runs -/

instance decidableExists (s : State) (isWeak : Bool) (k : Nat) : Decidable (Exists s isWeak k) :=
  inferInstanceAs (Decidable (_ = true))

instance decidableOpen (s : State) (isWeak : Bool) (k : Nat) : Decidable (Open s isWeak k) :=
  inferInstanceAs (Decidable (_ ∧ _))

instance decidableRoom (s : State) (control : Option Nat) : Decidable (Room s control) :=
  inferInstanceAs (Decidable (∀ c ∈ control, _))

instance decidableSteady (s : State) (k : Nat) : Decidable (Steady s k) :=
  inferInstanceAs (Decidable (∀ p ∈ s.pointer true k, _))

instance decidableLegal (s : State) : ∀ operation, Decidable (Legal s operation)
  | .makeNull _ | .makeSharedOnHeap _ | .sharedOptional | .allocate _ _ => isTrue trivial
  | .copyShared source _ | .moveShared source _ | .weakFromShared source =>
    decidableExists s false source
  | .lock source | .copyWeak source _ | .moveWeak source _ => decidableExists s true source
  | .assignShared _ _ | .moveAssignShared _ _ | .assignSharedFromWeak _ _ | .assignWeak _ _
  | .moveAssignWeak _ _ | .assignWeakFromShared _ _ => inferInstanceAs (Decidable (_ ∧ _))
  | .assignSharedNull k => decidableExists s false k
  | .assignWeakNull k => decidableExists s true k
  | .destroyShared k => decidableOpen s false k
  | .destroyWeak k => decidableOpen s true k
  | .emplace _ _ | .makePtr _ _ => inferInstanceAs (Decidable (_ ∧ _ ∧ _))

instance decidableAllowed (s : State) : ∀ event, Decidable (Allowed s event)
  | .call _ | .leave => inferInstanceAs (Decidable (_ ∧ _))
  | .resume => inferInstanceAs (Decidable (_ ≠ _))

instance decidableMeets (s : State) : ∀ event, Decidable (Meets s event)
  | .call operation =>
    match operation with
    | .copyShared source _ | .moveShared source _ | .moveAssignShared _ source =>
      decidableRoom s (controlOf s false source)
    | .lock _ | .assignSharedFromWeak _ _ | .assignWeak _ _ | .moveAssignWeak _ _
    | .destroyWeak _ => inferInstanceAs (Decidable (_ ∧ _))
    | .assignShared k source =>
      inferInstanceAs (Decidable (k ≠ source → Room s (controlOf s false source)))
    | .destroyShared k => inferInstanceAs (Decidable (Action.sharedReset k ∉ s.stack))
    | .copyWeak source _ | .moveWeak source _ => decidableSteady s source
    | .assignWeakFromShared k _ | .assignWeakNull k => decidableSteady s k
    | .makePtr c _ => decidableRoom s (some c)
    | .makeNull _ | .assignSharedNull _ | .weakFromShared _ | .makeSharedOnHeap _
    | .sharedOptional | .allocate _ _ | .emplace _ _ => isTrue trivial
  | .leave => isTrue trivial
  | .resume =>
    match top : s.stack with
    | .weakStore _ control _ :: _ =>
      decidable_of_iff (Room s control) (by rw [Meets, top])
    | .decreaseWeakCount c :: rest =>
      decidable_of_iff
        ((s.controls c).weakPtrCount = 1 → ∀ action ∈ rest, action.stores c = false)
        (by rw [Meets, top])
    | .user :: _ | .sharedReset _ :: _ | .weakReset _ :: _ | .decreaseSharedCount _ :: _
    | .close _ :: _ | [] => isTrue (by rw [Meets, top]; trivial)

/-- In every run of which all steps meet the condition, every call comes to its end, and every state
shows that objects are owned once. -/
theorem owned_once (capacity : Nat → Nat) (events : List Event)
    (allowed : Lockstep.Throughout (perform capacity) (fun _ _ => ())
      (fun s _ event => Allowed s event) {} () events)
    (meets : Lockstep.Throughout (perform capacity) (fun _ _ => ())
      (fun s _ event => Meets s event) {} () events) :
    Lockstep.Refines (perform capacity) (fun _ _ => ()) (fun _ _ => ()) (fun s _ => Shows s) {} ()
      events :=
  Lockstep.refines_of_both (R := fun s _ => Inv s none none) (fun inv => inv.shows)
    (fun inv allowed meets => inv.perform capacity allowed meets) Inv.initial allowed meets

/-- The first `SharedPtr` goes, then the second with the object, and a lock of the `WeakPtr` is null. -/
def drops : List Event :=
  [.call (.allocate 0 7), .call (.copyShared 0 id), .call (.weakFromShared 0), .resume,
    .call (.destroyShared 0), .resume, .resume, .resume, .call (.assignSharedNull 1), .resume, .leave,
    .resume, .call (.lock 2), .call (.destroyWeak 2), .resume, .leave, .resume, .resume]

theorem owned_once_drops :
    Lockstep.Refines (perform fun _ => 1) (fun _ _ => ()) (fun _ _ => ()) (fun s _ => Shows s) {} ()
      drops :=
  owned_once (fun _ => 1) drops (by decide) (by decide)

/-- The last `SharedPtr` goes, and is then assigned from a `WeakPtr`. -/
def assigns : List Event :=
  [.call (.makeSharedOnHeap 7), .call (.weakFromShared 0), .resume, .call (.assignSharedNull 0),
    .resume, .leave, .resume, .call (.assignSharedFromWeak 0 1)]

theorem not_owned_once :
    Lockstep.Throughout (perform fun _ => 1) (fun _ _ => ()) (fun s _ event => Allowed s event) {} ()
      assigns ∧
    ¬Lockstep.Refines (perform fun _ => 1) (fun _ _ => ()) (fun _ _ => ()) (fun s _ => Shows s) {} ()
      assigns := by
  refine ⟨by decide, fun refines => ?_⟩
  have ⟨t, runs, shows_⟩ := refines.run
  have ends : (Lockstep.run (perform fun _ => 1) {} assigns).all (fun t =>
      !(t.controls 0).alive && (t.pointer false 0).any fun p => decide (p.control = some 0)) = true := by
    decide
  simp only [runs, Option.all_some, Bool.and_eq_true, Bool.not_eq_true'] at ends
  cases found : t.pointer false 0 with
  | none =>
    rw [found] at ends
    exact Bool.noConfusion ends.2
  | some p =>
    rw [found] at ends
    have lives := (shows_.alive 0).mpr (.inl ⟨0, p, found, of_decide_eq_true ends.2⟩)
    exact Bool.noConfusion (ends.1.symm.trans lives)

end SharedPointers
