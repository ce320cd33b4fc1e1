import EmbeddedInfra.Util.SharedPtr

/-! The two counts of a control block are the numbers of the pointers to it, together with those that
are about to be dropped. -/

namespace SharedPointers

open List Function

def isShared (c : Nat) (pointer : Option Pointer) : Bool :=
  pointer.any fun p => !p.isWeak && decide (p.control = some c)

def isCounted (c : Nat) (pointer : Option Pointer) : Bool :=
  pointer.any fun p => !p.resetting && decide (p.control = some c)

/-- The pointer that an action will touch. -/
def Action.target : Action → Option Nat
  | .sharedReset k => some k
  | .weakReset k => some k
  | .weakStore k _ _ => some k
  | .close k => some k
  | _ => none

def Action.isStore : Action → Bool
  | .weakStore _ _ _ => true
  | _ => false

def Action.isClose : Action → Bool
  | .close _ => true
  | _ => false

/-- Nothing touches a pointer after it was closed, or inside of its `Reset`. -/
def Before (above below : Action) : Prop :=
  ∀ k, above.target = some k → below.target = some k → below.isStore = false ∧ above.isClose = false

/-- `fresh` is a control block of which the object was just constructed, and `closing` a pointer that is
about to be reset in its destructor. -/
structure Inv (s : State) (fresh closing : Option Nat) : Prop where
  shared : ∀ c, (s.controls c).sharedPtrCount =
    s.pointers.countP (isShared c) + s.stack.count (.decreaseSharedCount c)
  weak : ∀ c, (s.controls c).weakPtrCount = s.pointers.countP (isCounted c) +
    s.stack.count (.decreaseSharedCount c) + s.stack.count (.decreaseWeakCount c)
  alive : ∀ c, fresh ≠ some c →
    (s.controls c).alive = decide (0 < (s.controls c).sharedPtrCount)
  allocated : ∀ c, fresh ≠ some c →
    (s.controls c).allocated = decide (0 < (s.controls c).weakPtrCount)
  new : ∀ c ∈ fresh, (s.controls c).alive = true ∧ (s.controls c).allocated = true
  bounded : ∀ c, (s.controls c).weakPtrCount < 2 ^ 16
  stores : ∀ k control object, Action.weakStore k control object ∈ s.stack →
    (∃ p, s.pointer true k = some p ∧ p.resetting = true) ∧
      (∀ c ∈ control, (s.controls c).allocated = true) ∧
      (Action.close k ∈ s.stack → control = none)
  sharedResets : ∀ k, Action.sharedReset k ∈ s.stack → ∃ p, s.pointer false k = some p
  weakResets : ∀ k, Action.weakReset k ∈ s.stack → ∃ p, s.pointer true k = some p
  closes : ∀ k, Action.close k ∈ s.stack → ∃ p, s.pointers[k]? = some (some p) ∧
    (closing ≠ some k → p.resetting = false → p.control = none)
  resetting : ∀ k p, s.pointers[k]? = some (some p) → p.resetting = true →
    p.isWeak = true ∧ ∃ control object, Action.weakStore k control object ∈ s.stack
  order : s.stack.Pairwise Before
  base : s.stack.getLast? = some .user
  nodes : ∀ a, (s.freeList a).Nodup ∧ ∀ c, c ∈ s.freeList a ↔
    c < s.made ∧ (s.controls c).deleter = .fixedSize a ∧ (s.controls c).allocated = false
  unmade : ∀ c, s.made ≤ c → (s.controls c).allocated = false

variable {s t : State} {fresh closing : Option Nat} {k c : Nat} {isWeak : Bool} {p : Pointer}

theorem pointer_iff : s.pointer isWeak k = some p ↔
    s.pointers[k]? = some (some p) ∧ p.isWeak = isWeak := by
  rw [State.pointer]
  split
  · next q there =>
      rw [there]
      by_cases same : q.isWeak = isWeak
      · rw [if_pos same]
        constructor
        · intro equal
          rw [← Option.some.inj equal]
          exact ⟨rfl, same⟩
        · intro ⟨equal, _⟩
          exact Option.some.inj equal
      · rw [if_neg same]
        constructor
        · exact fun equal => nomatch equal
        · intro ⟨equal, kind⟩
          have isSame : q = p := Option.some.inj (Option.some.inj equal)
          exact absurd (isSame ▸ kind) same
  · next notThere =>
      constructor
      · exact fun equal => nomatch equal
      · intro ⟨there, _⟩
        exact absurd there (notThere p)

variable {pointers : List (Option Pointer)} {old : Option Pointer}

theorem countP_set_pointer (there : pointers[k]? = some old) (new : Option Pointer)
    (q : Option Pointer → Bool) :
    (pointers.set k new).countP q + (if q old then 1 else 0) =
      pointers.countP q + (if q new then 1 else 0) := by
  have ⟨below, isOld⟩ := List.getElem?_eq_some_iff.mp there
  rw [countP_set below, isOld]
  have some_ : q old = true → 0 < pointers.countP q := fun holds =>
    countP_pos_iff.mpr ⟨old, mem_of_getElem? there, holds⟩
  by_cases holds : q old = true
  · have := some_ holds
    rw [if_pos holds]
    omega
  · rw [if_neg holds]
    omega

theorem pointers_set (there : pointers[k]? = some old) (new : Option Pointer) (j : Nat) :
    (pointers.set k new)[j]? = if k = j then some new else pointers[j]? := by
  have ⟨below, _⟩ := List.getElem?_eq_some_iff.mp there
  rw [getElem?_set]
  by_cases same : k = j
  · rw [if_pos same, if_pos same, if_pos (same ▸ below)]
  · rw [if_neg same, if_neg same]

theorem pointer_set (there : s.pointers[k]? = some (some p)) {q : Pointer}
    (same : t.pointers = s.pointers.set k (some q)) (kind : q.isWeak = p.isWeak)
    (isWeak : Bool) (j : Nat) :
    ((∃ r, t.pointer isWeak j = some r) ↔ ∃ r, s.pointer isWeak j = some r) ∧
      (k ≠ j → t.pointer isWeak j = s.pointer isWeak j) := by
  have apart : k ≠ j → t.pointer isWeak j = s.pointer isWeak j := by
    intro differs
    rw [State.pointer, same, pointers_set there, if_neg differs]
    rfl
  refine ⟨?_, apart⟩
  by_cases here : k = j
  · subst here
    constructor
    · intro ⟨r, found⟩
      have ⟨_, itsKind⟩ := pointer_iff.mp found
      have isNew : t.pointers[k]? = some (some q) := by rw [same, pointers_set there, if_pos rfl]
      have isIt : q = r :=
        Option.some.inj (Option.some.inj (isNew.symm.trans (pointer_iff.mp found).1))
      exact ⟨p, pointer_iff.mpr ⟨there, kind.symm.trans (isIt ▸ itsKind)⟩⟩
    · intro ⟨r, found⟩
      have ⟨here, itsKind⟩ := pointer_iff.mp found
      have isIt : p = r := Option.some.inj (Option.some.inj (there.symm.trans here))
      refine ⟨q, pointer_iff.mpr ⟨by rw [same, pointers_set there, if_pos rfl], ?_⟩⟩
      exact kind.trans (isIt ▸ itsKind)
  · rw [apart here]

theorem increaseWeakCount_eq (used : (s.controls c).allocated = true)
    (room : (s.controls c).weakPtrCount + 1 < 2 ^ 16) :
    s.increaseWeakCount c = some (s.setControl c
      { s.controls c with weakPtrCount := (s.controls c).weakPtrCount + 1 }) := by
  rw [State.increaseWeakCount]
  dsimp only
  rw [if_pos used, Nat.mod_eq_of_lt room]

theorem increaseSharedCount_eq (used : (s.controls c).allocated = true)
    (room : (s.controls c).weakPtrCount + 1 < 2 ^ 16)
    (fewer : (s.controls c).sharedPtrCount ≤ (s.controls c).weakPtrCount) :
    s.increaseSharedCount c = some (s.setControl c
      { s.controls c with
        sharedPtrCount := (s.controls c).sharedPtrCount + 1
        weakPtrCount := (s.controls c).weakPtrCount + 1 }) := by
  have sharedRoom : (s.controls c).sharedPtrCount + 1 < 2 ^ 16 := by omega
  simp only [State.increaseSharedCount, State.increaseWeakCount, State.setControl,
    update_self, used, if_true, update_idem, Nat.mod_eq_of_lt room,
    Nat.mod_eq_of_lt sharedRoom]

/-- The outcome is a state in which the counts are right. -/
def GoesOn (outcome : Option State) : Prop := ∃ t, outcome = some t ∧ Inv t none none

namespace Inv

theorem shared_le_weak (inv : Inv s fresh closing) (c : Nat) :
    (s.controls c).sharedPtrCount ≤ (s.controls c).weakPtrCount := by
  rw [inv.shared c, inv.weak c]
  have fewer : s.pointers.countP (isShared c) ≤ s.pointers.countP (isCounted c) := by
    apply countP_mono_left
    intro pointer member holds
    cases pointer with
    | none => exact holds
    | some p =>
      have ⟨k, there⟩ := getElem?_of_mem member
      have notResetting : p.resetting = false := by
        by_contra resetting
        have isWeak := (inv.resetting k p there (by simpa using resetting)).1
        simp [isShared, isWeak] at holds
      simp only [isShared, Option.any_some, Bool.and_eq_true] at holds
      simp only [isCounted, Option.any_some, notResetting, Bool.not_false, Bool.true_and]
      exact holds.2
  omega

theorem allocated_of_pointer (inv : Inv s none closing) (there : s.pointers[k]? = some (some p))
    (notResetting : p.resetting = false) (refers : p.control = some c) :
    (s.controls c).allocated = true := by
  have counted : 0 < s.pointers.countP (isCounted c) := by
    apply countP_pos_iff.mpr
    exact ⟨some p, mem_of_getElem? there, by simp [isCounted, notResetting, refers]⟩
  rw [inv.allocated c nofun, decide_eq_true_iff, inv.weak c]
  omega

theorem alive_of_shared (inv : Inv s none closing) (there : s.pointer false k = some p)
    (refers : p.control = some c) : (s.controls c).alive = true := by
  have ⟨here, kind⟩ := pointer_iff.mp there
  have counted : 0 < s.pointers.countP (isShared c) := by
    apply countP_pos_iff.mpr
    exact ⟨some p, mem_of_getElem? here, by simp [isShared, kind, refers]⟩
  rw [inv.alive c nofun, decide_eq_true_iff, inv.shared c]
  omega

theorem shared_notResetting (inv : Inv s fresh closing) (there : s.pointer false k = some p) :
    p.resetting = false := by
  have ⟨here, kind⟩ := pointer_iff.mp there
  by_contra resetting
  have isWeak := (inv.resetting k p here (by simpa using resetting)).1
  exact Bool.noConfusion (kind.symm.trans isWeak)

/-- A control block can be taken by another pointer. -/
structure Takes (s : State) (c : Nat) : Prop where
  alive : (s.controls c).alive = true
  allocated : (s.controls c).allocated = true
  room : (s.controls c).weakPtrCount + 1 < 2 ^ 16

theorem count_dropped (drop : Nat → Action) (injective : Injective drop) (control : Option Nat)
    (stack : List Action) (d : Nat) : (control.toList.map drop ++ stack).count (drop d) =
      stack.count (drop d) + if control = some d then 1 else 0 := by
  rw [count_append, Nat.add_comm]
  cases control with
  | none => rfl
  | some old => by_cases same : old = d <;> simp [same, injective.ne]

theorem mem_dropped {drop : Nat → Action} {control : Option Nat} {stack : List Action}
    {action : Action} (other : ∀ old, action ≠ drop old)
    (inside : action ∈ control.toList.map drop ++ stack) : action ∈ stack := by
  refine (mem_append.mp inside).resolve_left fun new => ?_
  have ⟨old, _, same⟩ := mem_map.mp new
  exact other old same.symm

theorem resetShared (inv : Inv s fresh closing) (there : s.pointer false k = some p)
    {control : Option Nat} (object : Option Nat) (takes : ∀ c ∈ control, Takes s c)
    (only : ∀ c ∈ fresh, control = some c) (alone : ∀ j ∈ closing, j = k)
    (shut : Action.close k ∈ s.stack → control = none) :
    GoesOn (s.resetShared k control object) := by
  have ⟨here, kind⟩ := pointer_iff.mp there
  have notResetting := inv.shared_notResetting there
  -- what the counts and the stack become, whether or not there is a new and an old control block
  have ⟨t, resets, pointers, counts, weaks, kept, stack, lists, made⟩ : ∃ t,
      s.resetShared k control object = some t ∧
      t.pointers = s.pointers.set k (some { p with control, object }) ∧
      (∀ c, (t.controls c).sharedPtrCount =
        (s.controls c).sharedPtrCount + if control = some c then 1 else 0) ∧
      (∀ c, (t.controls c).weakPtrCount =
        (s.controls c).weakPtrCount + if control = some c then 1 else 0) ∧
      (∀ c, (t.controls c).alive = (s.controls c).alive ∧
        (t.controls c).allocated = (s.controls c).allocated ∧
        (t.controls c).deleter = (s.controls c).deleter) ∧
      t.stack = p.control.toList.map .decreaseSharedCount ++ s.stack ∧
      t.freeList = s.freeList ∧ t.made = s.made := by
    rw [State.resetShared, there, Option.bind_some]
    dsimp only
    cases control with
    | none =>
      refine ⟨_, rfl, ?_, ?_, ?_, ?_, ?_, ?_, ?_⟩ <;> cases p.control <;>
        simp [State.setPointer, State.push]
    | some c =>
      have taken := takes c rfl
      have increases := increaseSharedCount_eq
        (s := s.setPointer k (some { p with control := some c, object })) taken.allocated taken.room
        (inv.shared_le_weak c)
      dsimp only
      rw [increases, Option.map_some]
      refine ⟨_, rfl, ?_, ?_, ?_, ?_, ?_, ?_, ?_⟩
      · cases p.control <;> rfl
      · intro d
        by_cases same : c = d
        · cases p.control <;> simp [State.setPointer, State.push, State.setControl, same]
        · cases p.control <;>
            simp [State.setPointer, State.push, State.setControl, same, update_of_ne (Ne.symm same)]
      · intro d
        by_cases same : c = d
        · cases p.control <;> simp [State.setPointer, State.push, State.setControl, same]
        · cases p.control <;>
            simp [State.setPointer, State.push, State.setControl, same, update_of_ne (Ne.symm same)]
      · intro d
        by_cases same : c = d
        · cases p.control <;> simp [State.setPointer, State.push, State.setControl, same]
        · cases p.control <;>
            simp [State.setPointer, State.push, State.setControl, update_of_ne (Ne.symm same)]
      · cases p.control <;> rfl
      · cases p.control <;> rfl
      · cases p.control <;> rfl
  have pendingShared : ∀ d, t.stack.count (.decreaseSharedCount d) =
      s.stack.count (.decreaseSharedCount d) + if p.control = some d then 1 else 0 := by
    rw [stack]
    exact count_dropped _ (fun _ _ => Action.decreaseSharedCount.inj) _ _
  have pendingWeak : ∀ d, t.stack.count (.decreaseWeakCount d) =
      s.stack.count (.decreaseWeakCount d) := by
    intro d
    rw [stack, count_append]
    cases p.control <;> simp
  have member {action : Action} (inside : action ∈ t.stack)
      (other : ∀ old, action ≠ .decreaseSharedCount old) : action ∈ s.stack :=
    mem_dropped other (stack ▸ inside)
  have same := pointer_set here pointers rfl
  refine ⟨t, resets, ?_⟩
  constructor
  case shared =>
    intro d
    have balance := countP_set_pointer here (some { p with control, object }) (isShared d)
    rw [counts, inv.shared, pendingShared, pointers]
    simp only [isShared, Option.any_some, kind, Bool.not_false, Bool.true_and,
      decide_eq_true_eq] at balance ⊢
    omega
  case weak =>
    intro d
    have balance := countP_set_pointer here (some { p with control, object }) (isCounted d)
    rw [weaks, inv.weak, pendingShared, pendingWeak, pointers]
    simp only [isCounted, Option.any_some, notResetting, Bool.not_false, Bool.true_and,
      decide_eq_true_eq] at balance ⊢
    omega
  case alive =>
    intro d _
    rw [(kept d).1, counts]
    by_cases isNew : control = some d
    · rw [if_pos isNew, (takes d isNew).alive]
      exact (decide_eq_true (Nat.succ_pos _)).symm
    · rw [if_neg isNew]
      exact inv.alive d fun isFresh => isNew (only d isFresh)
  case allocated =>
    intro d _
    rw [(kept d).2.1, weaks]
    by_cases isNew : control = some d
    · rw [if_pos isNew, (takes d isNew).allocated]
      exact (decide_eq_true (Nat.succ_pos _)).symm
    · rw [if_neg isNew]
      exact inv.allocated d fun isFresh => isNew (only d isFresh)
  case new => exact nofun
  case bounded =>
    intro d
    rw [weaks]
    by_cases isNew : control = some d
    · rw [if_pos isNew]
      exact (takes d isNew).room
    · rw [if_neg isNew]
      exact inv.bounded d
  case stores =>
    intro j control object inside
    have ⟨⟨q, found, resetting⟩, used, shut'⟩ := inv.stores j control object (member inside nofun)
    have differs : k ≠ j := by
      intro equal
      have ⟨there', _⟩ := pointer_iff.mp found
      rw [← equal, here] at there'
      have isIt : p = q := Option.some.inj (Option.some.inj there')
      rw [← isIt, notResetting] at resetting
      exact nomatch resetting
    refine ⟨⟨q, by rw [(same true j).2 differs, found], resetting⟩, fun d isControl => ?_,
      fun closes => shut' (member closes nofun)⟩
    rw [(kept d).2.1]
    exact used d isControl
  case sharedResets =>
    exact fun j inside => (same false j).1.mpr (inv.sharedResets j (member inside nofun))
  case weakResets =>
    exact fun j inside => (same true j).1.mpr (inv.weakResets j (member inside nofun))
  case closes =>
    intro j inside
    have before := member inside nofun
    rw [pointers, pointers_set here]
    by_cases equal : k = j
    · exact ⟨_, if_pos equal, fun _ _ => shut (equal ▸ before)⟩
    · rw [if_neg equal]
      have ⟨q, found, isNull⟩ := inv.closes j before
      exact ⟨q, found, fun _ => isNull fun isClosing => equal (alone j isClosing).symm⟩
  case resetting =>
    intro j q found resetting
    rw [pointers, pointers_set here] at found
    by_cases equal : k = j
    · rw [if_pos equal] at found
      rw [← Option.some.inj (Option.some.inj found)] at resetting
      exact absurd resetting (by simp [notResetting])
    · rw [if_neg equal] at found
      have ⟨isWeak, control, object, inside⟩ := inv.resetting j q found resetting
      exact ⟨isWeak, control, object, stack ▸ mem_append_right _ inside⟩
  case order =>
    rw [stack]
    refine pairwise_append.mpr ⟨?_, inv.order, ?_⟩
    · cases p.control <;> simp
    · intro above inside below _
      have ⟨old, _, isOld⟩ := mem_map.mp inside
      intro j target
      rw [← isOld] at target
      exact nomatch target
  case base =>
    rw [stack, getLast?_append, inv.base]
    rfl
  case nodes =>
    intro a
    rw [lists, made]
    refine ⟨(inv.nodes a).1, fun d => ?_⟩
    rw [(inv.nodes a).2 d, (kept d).2.1, (kept d).2.2]
  case unmade =>
    intro d above
    rw [made] at above
    rw [(kept d).2.1]
    exact inv.unmade d above

theorem resetWeak (inv : Inv s none closing) (there : s.pointer true k = some p)
    (notResetting : p.resetting = false) (control object : Option Nat)
    (used : ∀ c ∈ control, (s.controls c).allocated = true) (alone : ∀ j ∈ closing, j = k)
    (shut : Action.close k ∈ s.stack → control = none) : GoesOn (s.resetWeak k control object) := by
  have ⟨here, kind⟩ := pointer_iff.mp there
  have noStore : ∀ control object, Action.weakStore k control object ∉ s.stack := by
    intro control object inside
    have ⟨⟨q, found, resetting⟩, _⟩ := inv.stores k control object inside
    have isIt : p = q := Option.some.inj (there.symm.trans found)
    rw [← isIt, notResetting] at resetting
    exact nomatch resetting
  have ⟨t, resets, pointers, controls, stack, lists, made⟩ : ∃ t,
      s.resetWeak k control object = some t ∧
      t.pointers = s.pointers.set k (some { p with resetting := true }) ∧
      t.controls = s.controls ∧
      t.stack = p.control.toList.map .decreaseWeakCount ++
        .weakStore k control object :: s.stack ∧
      t.freeList = s.freeList ∧ t.made = s.made := by
    rw [State.resetWeak, there, Option.map_some]
    refine ⟨_, rfl, ?_, ?_, ?_, ?_, ?_⟩ <;> cases p.control <;> rfl
  have pendingShared : ∀ d, t.stack.count (.decreaseSharedCount d) =
      s.stack.count (.decreaseSharedCount d) := by
    intro d
    rw [stack, count_append]
    cases p.control <;> simp
  have pendingWeak : ∀ d, t.stack.count (.decreaseWeakCount d) =
      s.stack.count (.decreaseWeakCount d) + if p.control = some d then 1 else 0 := by
    intro d
    rw [stack, count_dropped _ (fun _ _ => Action.decreaseWeakCount.inj),
      count_cons_of_ne (by simp)]
  have member {action : Action} (inside : action ∈ t.stack)
      (other : ∀ old, action ≠ .decreaseWeakCount old) : action = .weakStore k control object ∨ action ∈ s.stack :=
    mem_cons.mp (mem_dropped other (stack ▸ inside))
  have same := pointer_set here pointers rfl
  refine ⟨t, resets, ?_⟩
  constructor
  case shared =>
    intro d
    have balance := countP_set_pointer here (some { p with resetting := true }) (isShared d)
    rw [controls, inv.shared, pendingShared, pointers]
    simp only [isShared, Option.any_some, kind, Bool.not_true, Bool.false_and,
      Bool.false_eq_true, if_false] at balance ⊢
    omega
  case weak =>
    intro d
    have balance := countP_set_pointer here (some { p with resetting := true }) (isCounted d)
    rw [controls, inv.weak, pendingShared, pendingWeak, pointers]
    simp only [isCounted, Option.any_some, notResetting, Bool.not_false, Bool.not_true,
      Bool.true_and, Bool.false_and, decide_eq_true_eq, Bool.false_eq_true, if_false] at balance ⊢
    omega
  case alive => exact fun d _ => controls ▸ inv.alive d nofun
  case allocated => exact fun d _ => controls ▸ inv.allocated d nofun
  case new => exact nofun
  case bounded => exact fun d => controls ▸ inv.bounded d
  case stores =>
    intro j control' object' inside
    rw [controls]
    rcases member inside nofun with isNew | before
    · have ⟨isPlace, isControl, _⟩ := Action.weakStore.inj isNew
      rw [isPlace, isControl]
      refine ⟨⟨{ p with resetting := true }, pointer_iff.mpr ⟨?_, kind⟩, rfl⟩, used,
        fun closes => shut ((member closes nofun).resolve_left nofun)⟩
      rw [pointers, pointers_set here, if_pos rfl]
    · have ⟨⟨q, found, resetting⟩, used', shut'⟩ := inv.stores j control' object' before
      have differs : k ≠ j := fun equal => noStore control' object' (equal ▸ before)
      exact ⟨⟨q, by rw [(same true j).2 differs, found], resetting⟩, used',
        fun closes => shut' ((member closes nofun).resolve_left nofun)⟩
  case sharedResets =>
    intro j inside
    exact (same false j).1.mpr (inv.sharedResets j ((member inside nofun).resolve_left nofun))
  case weakResets =>
    intro j inside
    exact (same true j).1.mpr (inv.weakResets j ((member inside nofun).resolve_left nofun))
  case closes =>
    intro j inside
    have before := (member inside nofun).resolve_left nofun
    rw [pointers, pointers_set here]
    by_cases equal : k = j
    · exact ⟨_, if_pos equal, fun _ isNot => nomatch isNot⟩
    · rw [if_neg equal]
      have ⟨q, found, isNull⟩ := inv.closes j before
      exact ⟨q, found, fun _ => isNull fun isClosing => equal (alone j isClosing).symm⟩
  case resetting =>
    intro j q found resetting
    rw [pointers, pointers_set here] at found
    by_cases equal : k = j
    · rw [if_pos equal] at found
      rw [← Option.some.inj (Option.some.inj found), ← equal]
      refine ⟨kind, control, object, ?_⟩
      rw [stack]
      exact mem_append_right _ mem_cons_self
    · rw [if_neg equal] at found
      have ⟨isWeak, control, object, inside⟩ := inv.resetting j q found resetting
      exact ⟨isWeak, control, object, stack ▸ mem_append_right _ (mem_cons_of_mem _ inside)⟩
  case order =>
    rw [stack]
    refine pairwise_append.mpr ⟨?_, pairwise_cons.mpr ⟨?_, inv.order⟩, ?_⟩
    · cases p.control <;> simp
    · intro below inside j above target
      refine ⟨?_, rfl⟩
      cases below with
      | weakStore i control' object' =>
        have isK : k = j := Option.some.inj above
        have isI : i = j := Option.some.inj target
        rw [isI, ← isK] at inside
        exact absurd inside (noStore control' object')
      | _ => rfl
    · intro above inside below _
      have ⟨old, _, isOld⟩ := mem_map.mp inside
      intro j target
      rw [← isOld] at target
      exact nomatch target
  case base =>
    rw [stack, getLast?_append, getLast?_cons, inv.base]
    rfl
  case nodes =>
    intro a
    rw [lists, made, controls]
    exact inv.nodes a
  case unmade =>
    intro d above
    rw [made] at above
    rw [controls]
    exact inv.unmade d above

theorem make (inv : Inv s fresh closing) (isWeak : Bool) : Inv (s.make isWeak) fresh closing := by
  have appended : ∀ {j : Nat} {q : Pointer}, s.pointers[j]? = some (some q) →
      (s.make isWeak).pointers[j]? = some (some q) := by
    intro j q found
    have ⟨below, _⟩ := List.getElem?_eq_some_iff.mp found
    exact (getElem?_append_left below).trans found
  have kept : ∀ {kind : Bool} {j : Nat} {q : Pointer}, s.pointer kind j = some q →
      (s.make isWeak).pointer kind j = some q := by
    intro kind j q found
    have ⟨here, itsKind⟩ := pointer_iff.mp found
    exact pointer_iff.mpr ⟨appended here, itsKind⟩
  constructor
  case shared =>
    intro d
    have nothing : isShared d (some { isWeak }) = false := by simp [isShared]
    simpa [State.make, countP_append, nothing] using inv.shared d
  case weak =>
    intro d
    have nothing : isCounted d (some { isWeak }) = false := by simp [isCounted]
    simpa [State.make, countP_append, nothing] using inv.weak d
  case alive => exact inv.alive
  case allocated => exact inv.allocated
  case new => exact inv.new
  case bounded => exact inv.bounded
  case stores =>
    intro j control object inside
    have ⟨⟨q, found, resetting⟩, others⟩ := inv.stores j control object inside
    exact ⟨⟨q, kept found, resetting⟩, others⟩
  case sharedResets =>
    intro j inside
    have ⟨q, found⟩ := inv.sharedResets j inside
    exact ⟨q, kept found⟩
  case weakResets =>
    intro j inside
    have ⟨q, found⟩ := inv.weakResets j inside
    exact ⟨q, kept found⟩
  case closes =>
    intro j inside
    have ⟨q, found, isNull⟩ := inv.closes j inside
    exact ⟨q, appended found, isNull⟩
  case resetting =>
    intro j q found resetting
    by_cases below : j < s.pointers.length
    · exact inv.resetting j q ((getElem?_append_left below).symm.trans found) resetting
    · have isNew : q = { isWeak } := by
        rw [State.make] at found
        dsimp only at found
        rw [getElem?_append_right (Nat.le_of_not_lt below)] at found
        have inside := mem_of_getElem? found
        exact Option.some.inj (mem_singleton.mp inside)
      rw [isNew] at resetting
      exact nomatch resetting
  case order => exact inv.order
  case base => exact inv.base
  case nodes => exact inv.nodes
  case unmade => exact inv.unmade

variable {action : Action}

theorem push (inv : Inv s fresh none) (notShared : ∀ c, action ≠ .decreaseSharedCount c)
    (notWeak : ∀ c, action ≠ .decreaseWeakCount c) (notStore : action.isStore = false)
    (sharedResets : ∀ j, action = .sharedReset j → ∃ p, s.pointer false j = some p)
    (weakResets : ∀ j, action = .weakReset j → ∃ p, s.pointer true j = some p)
    (closes : ∀ j, action = .close j → closing = some j ∧ ∃ p, s.pointers[j]? = some (some p))
    (before : ∀ below ∈ s.stack, Before action below) : Inv (s.push action) fresh closing := by
  have member : ∀ {other : Action}, other ∈ (s.push action).stack →
      other = action ∨ other ∈ s.stack := fun inside => mem_cons.mp inside
  constructor
  case shared =>
    intro c
    rw [State.push, count_cons_of_ne (notShared c)]
    exact inv.shared c
  case weak =>
    intro c
    rw [State.push, count_cons_of_ne (notShared c), count_cons_of_ne (notWeak c)]
    exact inv.weak c
  case alive => exact inv.alive
  case allocated => exact inv.allocated
  case new => exact inv.new
  case bounded => exact inv.bounded
  case stores =>
    intro j control object inside
    rcases member inside with isIt | inside
    · rw [← isIt] at notStore
      exact nomatch notStore
    · have ⟨resets, used, shut⟩ := inv.stores j control object inside
      refine ⟨resets, used, fun closing => ?_⟩
      rcases member closing with isIt | closing
      · have ⟨isNot, _⟩ := before _ inside j (isIt ▸ rfl) rfl
        exact nomatch isNot
      · exact shut closing
  case sharedResets =>
    intro j inside
    rcases member inside with isIt | inside
    · exact sharedResets j isIt.symm
    · exact inv.sharedResets j inside
  case weakResets =>
    intro j inside
    rcases member inside with isIt | inside
    · exact weakResets j isIt.symm
    · exact inv.weakResets j inside
  case closes =>
    intro j inside
    rcases member inside with isIt | inside
    · have ⟨isClosing, p, there⟩ := closes j isIt.symm
      exact ⟨p, there, fun isNot => absurd isClosing isNot⟩
    · have ⟨p, there, isNull⟩ := inv.closes j inside
      exact ⟨p, there, fun _ => isNull nofun⟩
  case resetting =>
    intro j q found resetting
    have ⟨isWeak, control, object, inside⟩ := inv.resetting j q found resetting
    exact ⟨isWeak, control, object, mem_cons_of_mem _ inside⟩
  case order => exact pairwise_cons.mpr ⟨before, inv.order⟩
  case base =>
    rw [State.push, getLast?_cons, inv.base]
    rfl
  case nodes => exact inv.nodes
  case unmade => exact inv.unmade

theorem push_user (inv : Inv s none none) : Inv (s.push .user) none none := by
  refine inv.push nofun nofun rfl nofun nofun nofun ?_
  intro below _ k target
  exact nomatch target

theorem push_sharedReset (inv : Inv s fresh none) (there : s.pointer false k = some p) :
    Inv (s.push (.sharedReset k)) fresh none := by
  refine inv.push nofun nofun rfl ?_ nofun nofun ?_
  · intro j isIt
    exact ⟨p, Action.sharedReset.inj isIt ▸ there⟩
  · intro below inside j above target
    refine ⟨?_, rfl⟩
    cases below with
    | weakStore i control object =>
      have isK : k = j := Option.some.inj above
      have isI : i = j := Option.some.inj target
      have ⟨⟨q, found, _⟩, _⟩ := inv.stores i control object inside
      rw [isI, ← isK] at found
      have first := (pointer_iff.mp there).2
      have isIt : p = q := Option.some.inj (Option.some.inj
        ((pointer_iff.mp there).1.symm.trans (pointer_iff.mp found).1))
      have second := (pointer_iff.mp found).2
      rw [← isIt, first] at second
      exact Bool.noConfusion second
    | _ => rfl

theorem push_weakReset (inv : Inv s fresh none) (there : s.pointer true k = some p)
    (notResetting : p.resetting = false) : Inv (s.push (.weakReset k)) fresh none := by
  refine inv.push nofun nofun rfl nofun ?_ nofun ?_
  · intro j isIt
    exact ⟨p, Action.weakReset.inj isIt ▸ there⟩
  · intro below inside j above target
    refine ⟨?_, rfl⟩
    cases below with
    | weakStore i control object =>
      have isK : k = j := Option.some.inj above
      have isI : i = j := Option.some.inj target
      have ⟨⟨q, found, resetting⟩, _⟩ := inv.stores i control object inside
      rw [isI, ← isK] at found
      have isIt : p = q := Option.some.inj (there.symm.trans found)
      rw [← isIt, notResetting] at resetting
      exact nomatch resetting
    | _ => rfl

theorem push_close (inv : Inv s fresh none) (there : s.pointers[k]? = some (some p))
    (alone : ∀ action ∈ s.stack, action.target ≠ some k) :
    Inv (s.push (.close k)) fresh (some k) := by
  refine inv.push nofun nofun rfl nofun nofun ?_ ?_
  · intro j isIt
    exact ⟨congrArg some (Action.close.inj isIt), p, Action.close.inj isIt ▸ there⟩
  · intro below inside j above target
    exact absurd (target.trans above.symm) (alone below inside)

theorem base_tail {rest : List Action} (inv : Inv s fresh closing) (top : s.stack = action :: rest)
    (more : action = .user → rest ≠ []) : rest.getLast? = some .user := by
  have base := inv.base
  rw [top] at base
  cases rest with
  | nil => exact absurd rfl (more (Option.some.inj base))
  | cons second others => exact base

theorem pop {rest : List Action} (inv : Inv s fresh closing) (top : s.stack = action :: rest)
    (notShared : ∀ c, action ≠ .decreaseSharedCount c)
    (notWeak : ∀ c, action ≠ .decreaseWeakCount c) (notStore : action.isStore = false)
    (more : action = .user → rest ≠ []) : Inv { s with stack := rest } fresh closing where
  shared c := by
    rw [inv.shared c, top, count_cons_of_ne (notShared c)]
  weak c := by
    rw [inv.weak c, top, count_cons_of_ne (notShared c), count_cons_of_ne (notWeak c)]
  alive := inv.alive
  allocated := inv.allocated
  new := inv.new
  bounded := inv.bounded
  stores j control object inside := by
    have ⟨resets, used, shut⟩ :=
      inv.stores j control object (top ▸ mem_cons_of_mem _ inside)
    exact ⟨resets, used, fun closes => shut (top ▸ mem_cons_of_mem _ closes)⟩
  sharedResets j inside := inv.sharedResets j (top ▸ mem_cons_of_mem _ inside)
  weakResets j inside := inv.weakResets j (top ▸ mem_cons_of_mem _ inside)
  closes j inside := inv.closes j (top ▸ mem_cons_of_mem _ inside)
  resetting j q found resetting := by
    have ⟨isWeak, control, object, inside⟩ := inv.resetting j q found resetting
    rw [top] at inside
    cases inside with
    | head => exact nomatch notStore
    | tail _ before => exact ⟨isWeak, control, object, before⟩
  order := (pairwise_cons.mp (top ▸ inv.order)).2
  base := inv.base_tail top more
  nodes := inv.nodes
  unmade := inv.unmade

theorem make_pointer (s : State) (isWeak : Bool) :
    (s.make isWeak).pointer isWeak s.pointers.length = some { isWeak } := by
  apply pointer_iff.mpr
  exact ⟨by simp [State.make], rfl⟩

end Inv

end SharedPointers
