import EmbeddedInfra.Util.SharedPtrCounts

/-! Where a count drops, a `WeakPtr` is stored, a pointer is closed, or an object is made, the counts
stay the numbers of the pointers. -/

namespace SharedPointers

open List Function

variable {s t : State} {fresh closing : Option Nat} {k c : Nat} {isWeak : Bool} {p : Pointer}

namespace Inv

variable {rest : List Action} {control : Option Nat} {u : State}

theorem decreaseSharedCount (inv : Inv s none none)
    (top : s.stack = .decreaseSharedCount c :: rest) :
    GoesOn ({ s with stack := rest }.decreaseSharedCount c) := by
  have pendingShared : ∀ d, s.stack.count (.decreaseSharedCount d) =
      rest.count (.decreaseSharedCount d) + if c = d then 1 else 0 := by
    intro d
    rw [top, count_cons]
    simp
  have pendingWeak : ∀ d, s.stack.count (.decreaseWeakCount d) =
      rest.count (.decreaseWeakCount d) := by
    intro d
    simp [top]
  have positive : 0 < (s.controls c).sharedPtrCount := by
    rw [inv.shared, pendingShared, if_pos rfl]
    omega
  have lives : (s.controls c).alive = true := by
    rw [inv.alive c (by simp)]
    exact decide_eq_true positive
  -- the state behind the destruction, but for the code that the destructor calls
  let t : State := ({ s with stack := rest }.setControl c
    { s.controls c with
      sharedPtrCount := (s.controls c).sharedPtrCount - 1
      alive := decide (0 < (s.controls c).sharedPtrCount - 1) }).push (.decreaseWeakCount c)
  have stack : t.stack = .decreaseWeakCount c :: rest := rfl
  have member {action : Action} (inside : action ∈ t.stack) (other : action ≠ .decreaseWeakCount c) :
      action ∈ s.stack := top ▸ mem_cons_of_mem _ ((mem_cons.mp inside).resolve_left other)
  have counts : ∀ d, (t.controls d).sharedPtrCount =
      (s.controls d).sharedPtrCount - if c = d then 1 else 0 := by
    intro d
    by_cases same : c = d
    · subst same
      simp [t, State.push, State.setControl]
    · simp [t, State.push, State.setControl, same, update_of_ne (Ne.symm same)]
  have kept : ∀ d, (t.controls d).weakPtrCount = (s.controls d).weakPtrCount ∧
      (t.controls d).allocated = (s.controls d).allocated ∧
      (t.controls d).deleter = (s.controls d).deleter := by
    intro d
    by_cases same : c = d
    · subst same
      simp [t, State.push, State.setControl]
    · simp [t, State.push, State.setControl, update_of_ne (Ne.symm same)]
  have next : Inv t none none := by
    constructor
    case shared =>
      intro d
      have balance := inv.shared d
      have isPointers : t.pointers = s.pointers := rfl
      have isStack : t.stack.count (.decreaseSharedCount d) =
          rest.count (.decreaseSharedCount d) := by simp [stack]
      rw [pendingShared] at balance
      rw [counts, isPointers, isStack]
      omega
    case weak =>
      intro d
      have balance := inv.weak d
      have isPointers : t.pointers = s.pointers := rfl
      have isShared : t.stack.count (.decreaseSharedCount d) =
          rest.count (.decreaseSharedCount d) := by simp [stack]
      have isWeak : t.stack.count (.decreaseWeakCount d) =
          rest.count (.decreaseWeakCount d) + if c = d then 1 else 0 := by
        rw [stack, count_cons]
        simp
      rw [pendingShared, pendingWeak] at balance
      rw [(kept d).1, isPointers, isShared, isWeak]
      omega
    case alive =>
      intro d _
      rw [counts]
      by_cases same : c = d
      · subst same
        simp [t, State.push, State.setControl]
      · rw [if_neg same, Nat.sub_zero, ← inv.alive d (by simp)]
        simp [t, State.push, State.setControl, update_of_ne (Ne.symm same)]
    case allocated =>
      intro d _
      rw [(kept d).1, (kept d).2.1]
      exact inv.allocated d (by simp)
    case new => simp
    case bounded =>
      intro d
      rw [(kept d).1]
      exact inv.bounded d
    case stores =>
      intro j control object inside
      obtain ⟨resets, used, shut⟩ := inv.stores j control object (member inside (by simp))
      exact ⟨resets, fun d isControl => (kept d).2.1.trans (used d isControl),
        fun closes => shut (member closes (by simp))⟩
    case sharedResets => exact fun j inside => inv.sharedResets j (member inside (by simp))
    case weakResets => exact fun j inside => inv.weakResets j (member inside (by simp))
    case closes => exact fun j inside => inv.closes j (member inside (by simp))
    case resetting =>
      intro j q found resetting
      obtain ⟨isWeak, control, object, inside⟩ := inv.resetting j q found resetting
      rw [top] at inside
      refine ⟨isWeak, control, object, ?_⟩
      cases inside with
      | tail _ inside => exact mem_cons_of_mem _ inside
    case order =>
      refine pairwise_cons.mpr ⟨?_, (pairwise_cons.mp (top ▸ inv.order)).2⟩
      intro below _ k target
      cases target
    case base =>
      rw [stack, getLast?_cons, inv.base_tail top (by simp)]
      rfl
    case nodes =>
      intro a
      refine ⟨(inv.nodes a).1, fun d => ?_⟩
      rw [(kept d).2.1, (kept d).2.2]
      exact (inv.nodes a).2 d
    case unmade =>
      intro d above
      rw [(kept d).2.1]
      exact inv.unmade d above
  by_cases last : (s.controls c).sharedPtrCount - 1 = 0
  · refine ⟨t.push .user, ?_, next.push_user⟩
    simp [State.decreaseSharedCount, State.destruct, State.setControl, State.push, t, last, lives,
      Nat.ne_of_gt positive]
  · refine ⟨t, ?_, next⟩
    have more : 0 < (s.controls c).sharedPtrCount - 1 := Nat.pos_of_ne_zero last
    simp [State.decreaseSharedCount, State.setControl, State.push, t, last, lives, more,
      Nat.ne_of_gt positive]

/-- A count of pointers drops. The control block is deallocated with the last one, which is right where
no `WeakPtr` is about to store it. -/
theorem decreaseWeakCount (inv : Inv s none none) (top : s.stack = .decreaseWeakCount c :: rest)
    (apart : (s.controls c).weakPtrCount = 1 →
      ∀ k object, Action.weakStore k (some c) object ∉ rest) :
    GoesOn ({ s with stack := rest }.decreaseWeakCount c) := by
  have pendingShared : ∀ d, s.stack.count (.decreaseSharedCount d) =
      rest.count (.decreaseSharedCount d) := by
    intro d
    simp [top]
  have pendingWeak : ∀ d, s.stack.count (.decreaseWeakCount d) =
      rest.count (.decreaseWeakCount d) + if c = d then 1 else 0 := by
    intro d
    rw [top, count_cons]
    simp
  have positive : 0 < (s.controls c).weakPtrCount := by
    rw [inv.weak, pendingWeak, if_pos rfl]
    omega
  have inUse : (s.controls c).allocated = true := by
    rw [inv.allocated c (by simp)]
    exact decide_eq_true positive
  have isMade : c < s.made := by
    by_contra above
    have unused := inv.unmade c (Nat.le_of_not_lt above)
    exact Bool.noConfusion (unused.symm.trans inUse)
  have inside {action : Action} (before : action ∈ rest) : action ∈ s.stack :=
    top ▸ mem_cons_of_mem _ before
  -- the state behind the deallocation, but for the callback
  let returned := decide ((s.controls c).weakPtrCount - 1 = 0)
  let freeList := match (s.controls c).deleter with
    | .fixedSize a =>
      if returned then update s.freeList a (c :: s.freeList a) else s.freeList
    | _ => s.freeList
  let t : State := { s.setControl c
    { s.controls c with
      weakPtrCount := (s.controls c).weakPtrCount - 1
      allocated := !returned } with stack := rest, freeList }
  have here : t.controls c = { s.controls c with
      weakPtrCount := (s.controls c).weakPtrCount - 1
      allocated := !returned } := by
    simp [t, State.setControl]
  have elsewhere : ∀ d, c ≠ d → t.controls d = s.controls d := by
    intro d differs
    simp [t, State.setControl, update_of_ne differs.symm]
  have kept : ∀ d, (t.controls d).sharedPtrCount = (s.controls d).sharedPtrCount ∧
      (t.controls d).alive = (s.controls d).alive ∧
      (t.controls d).deleter = (s.controls d).deleter := by
    intro d
    by_cases same : c = d
    · rw [← same, here]
      exact ⟨rfl, rfl, rfl⟩
    · rw [elsewhere d same]
      exact ⟨rfl, rfl, rfl⟩
  have next : Inv t none none := by
    constructor
    case shared =>
      intro d
      rw [(kept d).1, inv.shared, pendingShared]
      rfl
    case weak =>
      intro d
      have balance := inv.weak d
      rw [pendingShared, pendingWeak] at balance
      by_cases same : c = d
      · rw [if_pos same] at balance
        rw [← same] at balance ⊢
        rw [here]
        exact Nat.sub_eq_of_eq_add balance
      · rw [if_neg same] at balance
        rw [elsewhere d same]
        exact balance
    case alive =>
      intro d _
      rw [(kept d).1, (kept d).2.1]
      exact inv.alive d (by simp)
    case allocated =>
      intro d _
      by_cases same : c = d
      · rw [← same, here]
        simp only [returned]
        by_cases last : (s.controls c).weakPtrCount - 1 = 0
        · simp [last]
        · simp [last, Nat.pos_of_ne_zero last]
      · rw [elsewhere d same]
        exact inv.allocated d (by simp)
    case new => simp
    case bounded =>
      intro d
      by_cases same : c = d
      · rw [← same, here]
        exact Nat.lt_of_le_of_lt (Nat.sub_le _ _) (inv.bounded c)
      · rw [elsewhere d same]
        exact inv.bounded d
    case stores =>
      intro j control object before
      obtain ⟨resets, used, shut⟩ := inv.stores j control object (inside before)
      refine ⟨resets, fun d isControl => ?_, fun closes => shut (inside closes)⟩
      by_cases same : c = d
      · have notLast : (s.controls c).weakPtrCount ≠ 1 := by
          intro last
          rw [show control = some c from same ▸ isControl] at before
          exact apart last j object before
        rw [← same, here]
        simp only [returned, Bool.not_eq_true', decide_eq_false_iff_not]
        omega
      · rw [elsewhere d same]
        exact used d isControl
    case sharedResets => exact fun j before => inv.sharedResets j (inside before)
    case weakResets => exact fun j before => inv.weakResets j (inside before)
    case closes => exact fun j before => inv.closes j (inside before)
    case resetting =>
      intro j q found resetting
      obtain ⟨isWeak, control, object, before⟩ := inv.resetting j q found resetting
      rw [top] at before
      refine ⟨isWeak, control, object, ?_⟩
      cases before with
      | tail _ before => exact before
    case order => exact (pairwise_cons.mp (top ▸ inv.order)).2
    case base => exact inv.base_tail top (by simp)
    case nodes =>
      intro a
      obtain ⟨distinct, members⟩ := inv.nodes a
      have free : freeList a = if (s.controls c).deleter = .fixedSize a ∧ returned = true
          then c :: s.freeList a else s.freeList a := by
        simp only [freeList]
        cases isDeleter : (s.controls c).deleter with
        | fixedSize b =>
          by_cases last : returned = true
          · by_cases same : b = a
            · simp [last, same]
            · simp [last, same, update_of_ne (Ne.symm same)]
          · simp [last]
        | _ => simp
      have notYet : c ∉ s.freeList a := by
        intro before
        exact Bool.noConfusion (((members c).mp before).2.2.symm.trans inUse)
      change (freeList a).Nodup ∧ ∀ d, d ∈ freeList a ↔ _
      rw [free]
      by_cases goes : (s.controls c).deleter = .fixedSize a ∧ returned = true
      · rw [if_pos goes]
        refine ⟨nodup_cons.mpr ⟨notYet, distinct⟩, fun d => ?_⟩
        by_cases same : c = d
        · subst same
          rw [here]
          have isMade' : c < t.made := isMade
          simp [goes.1, goes.2, isMade']
        · rw [elsewhere d same, mem_cons, members d]
          exact or_iff_right (Ne.symm same)
      · rw [if_neg goes]
        refine ⟨distinct, fun d => ?_⟩
        by_cases same : c = d
        · subst same
          rw [here]
          refine iff_of_false notYet fun free => goes ⟨free.2.1, ?_⟩
          simpa using free.2.2
        · rw [elsewhere d same]
          exact members d
    case unmade =>
      intro d above
      have differs : c ≠ d := fun same => absurd isMade (Nat.not_lt.mpr (same ▸ above))
      rw [elsewhere d differs]
      exact inv.unmade d above
  have notZero : (s.controls c).weakPtrCount ≠ 0 := Nat.ne_of_gt positive
  by_cases last : (s.controls c).weakPtrCount - 1 = 0
  · cases isDeleter : (s.controls c).deleter with
    | onHeap =>
      refine ⟨t, ?_, next⟩
      simp [State.decreaseWeakCount, State.deallocate, State.setControl, notZero, last, inUse,
        isDeleter, t, freeList, returned]
    | fixedSize a | optional =>
      refine ⟨t.push .user, ?_, next.push_user⟩
      simp [State.decreaseWeakCount, State.deallocate, State.setControl, State.push, notZero, last,
        inUse, isDeleter, t, freeList, returned]
  · refine ⟨t, ?_, next⟩
    have same : freeList = s.freeList := by
      simp only [freeList]
      cases (s.controls c).deleter <;> simp [returned, last]
    simp only [t, same]
    simp [State.decreaseWeakCount, State.setControl, notZero, last, inUse, returned]

theorem storeWeak {object : Option Nat} (inv : Inv s none none)
    (top : s.stack = .weakStore k control object :: rest)
    (room : ∀ c ∈ control, (s.controls c).weakPtrCount + 1 < 2 ^ 16) :
    GoesOn ({ s with stack := rest }.storeWeak k control object) := by
  obtain ⟨⟨p, there, resetting⟩, used, shut⟩ := inv.stores k control object (by simp [top])
  obtain ⟨here, kind⟩ := pointer_iff.mp there
  have ordered := pairwise_cons.mp (top ▸ inv.order)
  have inside {action : Action} (before : action ∈ rest) : action ∈ s.stack :=
    top ▸ mem_cons_of_mem _ before
  obtain ⟨t, stored, pointers, counts, kept, stack, lists, made⟩ : ∃ t,
      { s with stack := rest }.storeWeak k control object = some t ∧
      t.pointers = s.pointers.set k (some { p with control, object, resetting := false }) ∧
      (∀ c, (t.controls c).weakPtrCount =
        (s.controls c).weakPtrCount + if control = some c then 1 else 0) ∧
      (∀ c, (t.controls c).sharedPtrCount = (s.controls c).sharedPtrCount ∧
        (t.controls c).alive = (s.controls c).alive ∧
        (t.controls c).allocated = (s.controls c).allocated ∧
        (t.controls c).deleter = (s.controls c).deleter) ∧
      t.stack = rest ∧ t.freeList = s.freeList ∧ t.made = s.made := by
    have there' : { s with stack := rest }.pointer true k = some p := there
    rw [State.storeWeak, there', Option.bind_some]
    dsimp only
    cases control with
    | none => exact ⟨_, rfl, rfl, fun _ => rfl, fun _ => ⟨rfl, rfl, rfl, rfl⟩, rfl, rfl, rfl⟩
    | some c =>
      refine ⟨_, increaseWeakCount_eq (used c rfl) (room c rfl), rfl, ?_, ?_, rfl, rfl, rfl⟩
      · intro d
        by_cases same : c = d
        · subst same
          simp [State.setPointer, State.setControl]
        · simp [State.setPointer, State.setControl, same, update_of_ne (Ne.symm same)]
      · intro d
        by_cases same : c = d
        · subst same
          simp [State.setPointer, State.setControl]
        · simp [State.setPointer, State.setControl, update_of_ne (Ne.symm same)]
  have same := pointer_set here pointers rfl
  refine ⟨t, stored, ?_⟩
  constructor
  case shared =>
    intro d
    have balance := countP_set_pointer here
      (some { p with control, object, resetting := false }) (isShared d)
    have before := inv.shared d
    rw [top, count_cons_of_ne (by simp)] at before
    rw [(kept d).1, pointers, stack]
    simp only [isShared, Option.any_some, kind, Bool.not_true, Bool.false_and, Bool.false_eq_true,
      if_false] at balance before ⊢
    omega
  case weak =>
    intro d
    have balance := countP_set_pointer here
      (some { p with control, object, resetting := false }) (isCounted d)
    have before := inv.weak d
    rw [top, count_cons_of_ne (by simp), count_cons_of_ne (by simp)] at before
    rw [counts, pointers, stack]
    simp only [isCounted, Option.any_some, resetting, Bool.not_true, Bool.not_false, Bool.false_and,
      Bool.true_and, Bool.false_eq_true, if_false, decide_eq_true_eq] at balance before ⊢
    omega
  case alive =>
    intro d _
    rw [(kept d).2.1, (kept d).1]
    exact inv.alive d (by simp)
  case allocated =>
    intro d _
    rw [(kept d).2.2.1, counts]
    by_cases isNew : control = some d
    · rw [if_pos isNew, used d isNew]
      exact (decide_eq_true (Nat.succ_pos _)).symm
    · rw [if_neg isNew]
      exact inv.allocated d (by simp)
  case new => simp
  case bounded =>
    intro d
    rw [counts]
    by_cases isNew : control = some d
    · rw [if_pos isNew]
      exact room d isNew
    · rw [if_neg isNew]
      exact inv.bounded d
  case stores =>
    intro j control' object' before
    rw [stack] at before
    obtain ⟨⟨q, found, resetting⟩, used', shut'⟩ := inv.stores j control' object' (inside before)
    have differs : k ≠ j := by
      intro equal
      obtain ⟨isNot, _⟩ := ordered.1 _ before j (congrArg some equal) rfl
      cases isNot
    refine ⟨⟨q, by rw [(same true j).2 differs, found], resetting⟩, fun d isControl => ?_,
      fun closes => shut' (inside (stack ▸ closes))⟩
    rw [(kept d).2.2.1]
    exact used' d isControl
  case sharedResets =>
    exact fun j before => (same false j).1.mpr (inv.sharedResets j (inside (stack ▸ before)))
  case weakResets =>
    exact fun j before => (same true j).1.mpr (inv.weakResets j (inside (stack ▸ before)))
  case closes =>
    intro j before
    rw [stack] at before
    rw [pointers, pointers_set here]
    by_cases equal : k = j
    · exact ⟨_, if_pos equal, fun _ _ => shut (equal ▸ inside before)⟩
    · rw [if_neg equal]
      exact inv.closes j (inside before)
  case resetting =>
    intro j q found resetting
    rw [pointers, pointers_set here] at found
    by_cases equal : k = j
    · rw [if_pos equal] at found
      rw [← Option.some.inj (Option.some.inj found)] at resetting
      cases resetting
    · rw [if_neg equal] at found
      obtain ⟨isWeak, control', object', before⟩ := inv.resetting j q found resetting
      rw [top] at before
      refine ⟨isWeak, control', object', stack ▸ ?_⟩
      cases before with
      | head => exact absurd rfl equal
      | tail _ before => exact before
  case order => exact stack ▸ ordered.2
  case base => exact stack ▸ inv.base_tail top (by simp)
  case nodes =>
    intro a
    rw [lists, made]
    refine ⟨(inv.nodes a).1, fun d => ?_⟩
    rw [(inv.nodes a).2 d, (kept d).2.2.1, (kept d).2.2.2]
  case unmade =>
    intro d above
    rw [made] at above
    rw [(kept d).2.2.1]
    exact inv.unmade d above

theorem close (inv : Inv s none none) (top : s.stack = .close k :: rest) : GoesOn s.resume := by
  obtain ⟨p, here, isNull⟩ := inv.closes k (by simp [top])
  have ordered := pairwise_cons.mp (top ▸ inv.order)
  have inside {action : Action} (before : action ∈ rest) : action ∈ s.stack :=
    top ▸ mem_cons_of_mem _ before
  have away : ∀ action ∈ rest, action.target ≠ some k := by
    intro action before target
    obtain ⟨_, isNot⟩ := ordered.1 action before k rfl target
    cases isNot
  have notResetting : p.resetting = false := by
    by_contra resetting
    obtain ⟨_, control, object, before⟩ := inv.resetting k p here (by simpa using resetting)
    rw [top] at before
    cases before with
    | tail _ before => exact away _ before rfl
  have noControl : p.control = none := isNull (by simp) notResetting
  have popped := inv.pop top (by simp) (by simp) rfl (by simp)
  have others : ∀ {isWeak : Bool} {j : Nat} {q : Pointer}, k ≠ j → s.pointer isWeak j = some q →
      ({ s with stack := rest }.setPointer k none).pointer isWeak j = some q := by
    intro isWeak j q differs found
    obtain ⟨there, itsKind⟩ := pointer_iff.mp found
    refine pointer_iff.mpr ⟨?_, itsKind⟩
    rw [State.setPointer, pointers_set here, if_neg differs, there]
  refine ⟨{ s with stack := rest }.setPointer k none, ?_, ?_⟩
  · simp [State.resume, top, here]
  constructor
  case shared =>
    intro d
    have nothing : isShared d (some p) = false := by simp [isShared, noControl]
    have gone : isShared d none = false := rfl
    have balance := countP_set_pointer here none (isShared d)
    rw [nothing, gone] at balance
    have pointers : ({ s with stack := rest }.setPointer k none).pointers = s.pointers.set k none := rfl
    rw [pointers, Nat.add_right_cancel balance]
    exact popped.shared d
  case weak =>
    intro d
    have nothing : isCounted d (some p) = false := by simp [isCounted, noControl]
    have gone : isCounted d none = false := rfl
    have balance := countP_set_pointer here none (isCounted d)
    rw [nothing, gone] at balance
    have pointers : ({ s with stack := rest }.setPointer k none).pointers = s.pointers.set k none := rfl
    rw [pointers, Nat.add_right_cancel balance]
    exact popped.weak d
  case alive => exact popped.alive
  case allocated => exact popped.allocated
  case new => exact popped.new
  case bounded => exact popped.bounded
  case stores =>
    intro j control object before
    obtain ⟨⟨q, found, resetting⟩, used, shut⟩ := popped.stores j control object before
    have differs : k ≠ j := fun equal => away _ before (congrArg some equal.symm)
    exact ⟨⟨q, others differs found, resetting⟩, used, shut⟩
  case sharedResets =>
    intro j before
    obtain ⟨q, found⟩ := popped.sharedResets j before
    exact ⟨q, others (fun equal => away _ before (congrArg some equal.symm)) found⟩
  case weakResets =>
    intro j before
    obtain ⟨q, found⟩ := popped.weakResets j before
    exact ⟨q, others (fun equal => away _ before (congrArg some equal.symm)) found⟩
  case closes =>
    intro j before
    obtain ⟨q, found, itsNull⟩ := popped.closes j before
    have differs : k ≠ j := fun equal => away _ before (congrArg some equal.symm)
    refine ⟨q, ?_, itsNull⟩
    rw [State.setPointer, pointers_set here, if_neg differs]
    exact found
  case resetting =>
    intro j q found resetting
    rw [State.setPointer, pointers_set here] at found
    by_cases equal : k = j
    · rw [if_pos equal] at found
      cases found
    · rw [if_neg equal] at found
      exact popped.resetting j q found resetting
  case order => exact popped.order
  case base => exact popped.base
  case nodes => exact popped.nodes
  case unmade => exact popped.unmade

theorem counts_zero (inv : Inv s none none) (unused : (s.controls c).allocated = false) :
    (s.controls c).sharedPtrCount = 0 ∧ (s.controls c).weakPtrCount = 0 := by
  have noneLeft : ¬0 < (s.controls c).weakPtrCount := by
    rw [inv.allocated c nofun] at unused
    exact of_decide_eq_false unused
  have fewer := inv.shared_le_weak c
  omega

theorem construction (inv : Inv s none none) (unused : (s.controls c).allocated = false)
    (pointers : t.pointers = s.pointers) (stack : t.stack = s.stack) {deleter : Deleter}
    (here : t.controls c = { deleter, allocated := true, alive := true })
    (elsewhere : ∀ d, c ≠ d → t.controls d = s.controls d)
    (nodes : ∀ a, (t.freeList a).Nodup ∧ ∀ c, c ∈ t.freeList a ↔
      c < t.made ∧ (t.controls c).deleter = .fixedSize a ∧ (t.controls c).allocated = false)
    (unmade : ∀ c, t.made ≤ c → (t.controls c).allocated = false) : Inv t (some c) none := by
  obtain ⟨noShared, noWeak⟩ := inv.counts_zero unused
  have counts : ∀ d, (t.controls d).sharedPtrCount = (s.controls d).sharedPtrCount ∧
      (t.controls d).weakPtrCount = (s.controls d).weakPtrCount := by
    intro d
    by_cases same : c = d
    · rw [← same, here, noShared, noWeak]
      exact ⟨rfl, rfl⟩
    · rw [elsewhere d same]
      exact ⟨rfl, rfl⟩
  have pointer : ∀ isWeak k, t.pointer isWeak k = s.pointer isWeak k := by
    intro isWeak k
    rw [State.pointer, pointers]
    rfl
  constructor
  case shared =>
    intro d
    rw [(counts d).1, pointers, stack]
    exact inv.shared d
  case weak =>
    intro d
    rw [(counts d).2, pointers, stack]
    exact inv.weak d
  case alive =>
    intro d other
    rw [elsewhere d fun same => other (congrArg some same)]
    exact inv.alive d (by simp)
  case allocated =>
    intro d other
    rw [elsewhere d fun same => other (congrArg some same)]
    exact inv.allocated d (by simp)
  case new =>
    intro d isFresh
    rw [← Option.some.inj isFresh, here]
    exact ⟨rfl, rfl⟩
  case bounded =>
    intro d
    rw [(counts d).2]
    exact inv.bounded d
  case stores =>
    intro j control object inside
    rw [stack] at inside ⊢
    obtain ⟨resets, used, shut⟩ := inv.stores j control object inside
    rw [pointer]
    refine ⟨resets, fun d isControl => ?_, shut⟩
    have isUsed := used d isControl
    rw [elsewhere d, isUsed]
    intro same
    rw [← same, unused] at isUsed
    cases isUsed
  case sharedResets =>
    intro j inside
    rw [pointer]
    exact inv.sharedResets j (stack ▸ inside)
  case weakResets =>
    intro j inside
    rw [pointer]
    exact inv.weakResets j (stack ▸ inside)
  case closes =>
    intro j inside
    rw [pointers]
    exact inv.closes j (stack ▸ inside)
  case resetting =>
    intro j q found resetting
    rw [stack]
    exact inv.resetting j q (pointers ▸ found) resetting
  case order => exact stack ▸ inv.order
  case base => exact stack ▸ inv.base
  case nodes => exact nodes
  case unmade => exact unmade

theorem not_closing (inv : Inv s fresh closing) : Action.close s.pointers.length ∉ s.stack := by
  intro inside
  have ⟨_, there, _⟩ := inv.closes _ inside
  have ⟨below, _⟩ := List.getElem?_eq_some_iff.mp there
  exact absurd below (Nat.lt_irrefl _)

theorem construct (inv : Inv s fresh none) (object : Option Nat) (takes : ∀ c ∈ control, Takes s c)
    (only : ∀ c ∈ fresh, control = some c) : GoesOn (s.construct control object) := by
  refine (inv.make false).resetShared (make_pointer s false) object ?_ only nofun ?_
  · exact fun c isControl => ⟨(takes c isControl).alive, (takes c isControl).allocated,
      (takes c isControl).room⟩
  · exact fun closes => absurd closes inv.not_closing

theorem constructWeak (inv : Inv s none none) (control object : Option Nat)
    (used : ∀ c ∈ control, (s.controls c).allocated = true) :
    GoesOn ((s.make true).resetWeak s.pointers.length control object) :=
  (inv.make true).resetWeak (make_pointer s true) rfl control object used nofun
    fun closes => absurd closes inv.not_closing

theorem emplaceObject (inv : Inv s none none) (unused : (s.controls c).allocated = false)
    (pointers : u.pointers = s.pointers) (stack : u.stack = s.stack) (deleter : Deleter)
    (here : { u.controls c with allocated := true, alive := true } =
      ({ deleter, allocated := true, alive := true } : SharedPtrControl))
    (elsewhere : ∀ d, c ≠ d → u.controls d = s.controls d)
    (nodes : ∀ a, (u.freeList a).Nodup ∧ ∀ d, d ∈ u.freeList a ↔
      c ≠ d ∧ d < u.made ∧ (u.controls d).deleter = .fixedSize a ∧ (u.controls d).allocated = false)
    (unmade : c < u.made ∧ ∀ d, u.made ≤ d → (u.controls d).allocated = false) (object : Nat) :
    GoesOn (u.emplaceObject c object) := by
  let t := u.setControl c { u.controls c with allocated := true, alive := true }
  have here' : t.controls c = { deleter, allocated := true, alive := true } := by
    rw [← here]
    simp [t, State.setControl]
  have elsewhere' : ∀ d, c ≠ d → t.controls d = u.controls d := by
    intro d differs
    simp [t, State.setControl, update_of_ne differs.symm]
  have inv' : Inv t (some c) none := by
    refine inv.construction unused pointers stack here' ?_ ?_ ?_
    · intro d differs
      rw [elsewhere' d differs, elsewhere d differs]
    · intro a
      refine ⟨(nodes a).1, fun d => ((nodes a).2 d).trans ?_⟩
      by_cases same : c = d
      · rw [← same, here']
        exact iff_of_false (fun differs => differs.1 rfl) fun free => by cases free.2.2
      · rw [elsewhere' d same]
        exact and_iff_right same
    · intro d above
      have differs : c ≠ d := fun same => absurd (same ▸ unmade.1) (Nat.not_lt.mpr above)
      rw [elsewhere' d differs]
      exact unmade.2 d above
  refine inv'.construct (some object) ?_ fun d isFresh => isFresh
  intro d isControl
  rw [← Option.some.inj isControl]
  exact ⟨by rw [here'], by rw [here'], by rw [here']; change 0 + 1 < 2 ^ 16; decide⟩

theorem emplaceNew (inv : Inv s none none) (deleter : Deleter)
    (isNew : u = { s.newControl deleter with elements := u.elements }) (object : Nat) :
    GoesOn (u.emplaceObject s.made object) := by
  have unused := inv.unmade s.made (Nat.le_refl _)
  have controls : u.controls = update s.controls s.made { deleter } := by rw [isNew]; rfl
  have made : u.made = s.made + 1 := by rw [isNew]; rfl
  have lists : u.freeList = s.freeList := by rw [isNew]; rfl
  have elsewhere : ∀ d, s.made ≠ d → u.controls d = s.controls d := by
    intro d differs
    rw [controls, update_of_ne differs.symm]
  refine inv.emplaceObject unused (by rw [isNew]; rfl) (by rw [isNew]; rfl) deleter ?_
    elsewhere ?_ ⟨by omega, ?_⟩ object
  · rw [controls, update_self]
  · intro a
    rw [lists, made]
    refine ⟨(inv.nodes a).1, fun d => ((inv.nodes a).2 d).trans ?_⟩
    by_cases same : s.made = d
    · exact iff_of_false (fun ⟨below, _⟩ => by omega) fun ⟨differs, _⟩ => differs same
    · rw [elsewhere d same]
      constructor
      · exact fun ⟨below, isFree⟩ => ⟨same, Nat.lt_succ_of_lt below, isFree⟩
      · exact fun ⟨_, below, isFree⟩ => ⟨by omega, isFree⟩
  · intro d above
    rw [elsewhere d (by omega)]
    exact inv.unmade d (by omega)

end Inv

end SharedPointers
