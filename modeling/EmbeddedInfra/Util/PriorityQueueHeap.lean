import EmbeddedInfra.Runs
import EmbeddedInfra.Util.PriorityQueueLinks
import Mathlib.Order.Interval.Finset.Nat

/-! Every `IntrusivePriorityQueue` is a heap of the elements that have been pushed and neither
popped nor erased. -/

namespace PriorityQueues

open Heaps IntrusivePriorityQueue Function

variable {α : Type} {compare : α → α → Bool} {q : IntrusivePriorityQueue α} {place : Nat → α}
  {count hole : Nat}

def Member (place : Nat → α) (count : Nat) (x : α) : Prop :=
  ∃ i, 1 ≤ i ∧ i ≤ count ∧ place i = x

theorem exchange_comm (place : Nat → α) (a b : Nat) : exchange place a b = exchange place b a := by
  funext i
  rw [exchange, exchange, other, other]
  split_ifs <;> simp_all

theorem member_exchange {a b : Nat} (first : 1 ≤ a ∧ a ≤ count) (second : 1 ≤ b ∧ b ≤ count)
    (x : α) : Member (exchange place a b) count x ↔ Member place count x := by
  have within (i : Nat) (low : 1 ≤ i) (high : i ≤ count) :
      1 ≤ other a b i ∧ other a b i ≤ count := by
    rw [other]
    split_ifs <;> omega
  have back (i : Nat) : other a b (other a b i) = i := by
    simp only [other]
    split_ifs <;> omega
  constructor
  · rintro ⟨i, low, high, found⟩
    exact ⟨other a b i, (within i low high).1, (within i low high).2, found⟩
  · rintro ⟨i, low, high, found⟩
    refine ⟨other a b i, (within i low high).1, (within i low high).2, ?_⟩
    rw [exchange, back]
    exact found

section

variable [DecidableEq α]

/-- By induction on the rounds; the position is halved in each. -/
theorem climb_ordered (weak : StrictWeak compare) {goesAbove : α → α → Bool}
    (goes : ∀ node above, goesAbove node above = true → compare node above = false)
    (stays : ∀ node above, goesAbove node above = false → compare above node = false)
    (rounds : Nat) (enough : hole ≤ rounds) (first : 1 ≤ hole) (inside : hole ≤ count)
    (placed : Placed place count q) (ordered : UpOrdered compare count place hole) :
    ∃ q' place', climb goesAbove rounds (place hole) q = some q' ∧
      q'.numberOfElements = q.numberOfElements ∧ Placed place' count q' ∧
      Ordered compare count place' ∧ ∀ x, Member place' count x ↔ Member place count x := by
  induction rounds generalizing q place hole with
  | zero => omega
  | succ rounds ih =>
    rw [climb, placed.up hole first inside]
    by_cases root : hole = 1
    · rw [slot_none (by omega)]
      exact ⟨q, place, rfl, rfl, placed, ordered.finish (by omega), fun x => Iff.rfl⟩
    rw [slot_some (by omega) (by omega)]
    dsimp only
    cases above : goesAbove (place hole) (place (hole / 2)) with
    | false =>
      rw [if_neg Bool.false_ne_true]
      exact ⟨q, place, rfl, rfl, placed, ordered.finish fun _ => stays _ _ above,
        fun x => Iff.rfl⟩
    | true =>
      rw [if_pos rfl]
      have swapped : Placed (exchange place (hole / 2) hole) count
          (q.swapChildAndParentNodes (place hole) (place (hole / 2))) :=
        placed.swap (by omega) inside rfl
      have risen := ordered.rise weak (by omega) inside (goes _ _ above)
      rw [exchange_comm] at risen
      have ⟨q', place', returns, same, placed', ordered', members⟩ :=
        ih (by omega) (by omega) (by omega) swapped risen
      rw [exchange_first] at returns
      refine ⟨q', place', returns, by rw [same, swap_numberOfElements], placed', ordered', ?_⟩
      intro x
      rw [members, member_exchange ⟨by omega, by omega⟩ ⟨first, inside⟩]

theorem shiftUpNode_eq (weak : StrictWeak compare) (placed : Placed place count q)
    (first : 1 ≤ hole) (inside : hole ≤ count) :
    (count < 2 * hole ∧ q.shiftUpNode compare (place hole) = none) ∨
      ∃ child ≤ count, child / 2 = hole ∧
        q.shiftUpNode compare (place hole) = some (place child) ∧
        ∀ i, 2 ≤ i → i ≤ count → i / 2 = hole → compare (place child) (place i) = false := by
  have left := placed.left hole first inside
  have right := placed.right hole first inside
  rw [shiftUpNode, left, right]
  by_cases leaf : count < 2 * hole
  · rw [slot_none (by omega), slot_none (by omega)]
    exact Or.inl ⟨leaf, rfl⟩
  refine Or.inr ?_
  rw [slot_some (by omega) (by omega)]
  by_cases single : count < 2 * hole + 1
  · rw [slot_none (by omega)]
    refine ⟨2 * hole, by omega, by omega, rfl, ?_⟩
    intro i _ low below
    have same : i = 2 * hole := by omega
    rw [same]
    exact weak.irrefl _
  rw [slot_some (by omega) (by omega)]
  dsimp only
  cases less : compare (place (2 * hole)) (place (2 * hole + 1)) with
  | true =>
    refine ⟨2 * hole + 1, by omega, by omega, rfl, ?_⟩
    intro i _ _ below
    have sides : i = 2 * hole ∨ i = 2 * hole + 1 := by omega
    cases sides with
    | inl same =>
      rw [same]
      exact weak.asymm _ _ less
    | inr same =>
      rw [same]
      exact weak.irrefl _
  | false =>
    refine ⟨2 * hole, by omega, by omega, rfl, ?_⟩
    intro i _ _ below
    have sides : i = 2 * hole ∨ i = 2 * hole + 1 := by omega
    cases sides with
    | inl same =>
      rw [same]
      exact weak.irrefl _
    | inr same =>
      rw [same]
      exact less

/-- By induction on the rounds; the position at least doubles in each. -/
theorem moveDown_leaf (weak : StrictWeak compare) (rounds : Nat) (enough : count < rounds + hole)
    (first : 1 ≤ hole) (inside : hole ≤ count) (placed : Placed place count q)
    (ordered : DownOrdered compare count place hole) :
    ∃ q' place' hole', moveDown compare rounds (place hole) q = some q' ∧
      q'.numberOfElements = q.numberOfElements ∧ Placed place' count q' ∧
      DownOrdered compare count place' hole' ∧ (1 ≤ hole' ∧ hole' ≤ count ∧ count < 2 * hole') ∧
      place' hole' = place hole ∧ ∀ x, Member place' count x ↔ Member place count x := by
  induction rounds generalizing q place hole with
  | zero => omega
  | succ rounds ih =>
    rw [moveDown]
    cases shiftUpNode_eq weak placed first inside with
    | inl leaf =>
      rw [leaf.2]
      exact ⟨q, place, hole, rfl, rfl, placed, ordered, ⟨first, inside, leaf.1⟩, rfl,
        fun x => Iff.rfl⟩
    | inr inner =>
      have ⟨child, low, below, chosen, larger⟩ := inner
      rw [chosen]
      have swapped := placed.swap first low below
      have ⟨q', place', hole', returns, same, placed', ordered', leaf, still, members⟩ :=
        ih (by omega) (by omega) low swapped
          (ordered.sink first low below larger)
      rw [exchange_second] at returns still
      refine ⟨q', place', hole', returns, by rw [same, swap_numberOfElements], placed',
        ordered', leaf, still, ?_⟩
      intro x
      rw [members, member_exchange ⟨first, inside⟩ ⟨by omega, low⟩]

/-- The linked nodes are a heap, and these are its elements. -/
structure IsHeap (compare : α → α → Bool) (elements : Finset α) (place : Nat → α)
    (q : IntrusivePriorityQueue α) : Prop where
  placed : Placed place q.numberOfElements q
  ordered : Ordered compare q.numberOfElements place
  members : ∀ x, Member place q.numberOfElements x ↔ x ∈ elements

theorem members_add (value : α) (x : α) :
    Member (update place (count + 1) value) (count + 1) x ↔
      x = value ∨ Member place count x := by
  constructor
  · rintro ⟨i, low, high, found⟩
    by_cases last : i = count + 1
    · rw [last, update_self] at found
      exact Or.inl found.symm
    · rw [update_of_ne last] at found
      exact Or.inr ⟨i, low, by omega, found⟩
  · rintro (same | ⟨i, low, high, found⟩)
    · exact ⟨count + 1, by omega, le_rfl, by rw [update_self, same]⟩
    · exact ⟨i, low, by omega, by rw [update_of_ne (by omega), found]⟩

theorem members_replace (placed : Placed place count q) (first : 1 ≤ hole) (before : hole < count)
    (x : α) : Member (update place hole (place count)) (count - 1) x ↔
      x ≠ place hole ∧ Member place count x := by
  constructor
  · rintro ⟨i, low, high, found⟩
    by_cases here : i = hole
    · rw [here, update_self] at found
      refine ⟨?_, count, by omega, le_rfl, found⟩
      rw [← found, Ne, placed.same (by omega) le_rfl first before.le]
      omega
    · rw [update_of_ne here] at found
      refine ⟨?_, i, low, by omega, found⟩
      rw [← found, Ne, placed.same low (by omega) first before.le]
      exact here
  · rintro ⟨other, i, low, high, found⟩
    have notHere : i ≠ hole := by
      intro here
      exact other (by rw [← found, here])
    by_cases last : i = count
    · exact ⟨hole, first, by omega, by rw [update_self, ← found, last]⟩
    · exact ⟨i, low, by omega, by rw [update_of_ne notHere, found]⟩

theorem members_remove (placed : Placed place count q) (some : 1 ≤ count) (x : α) :
    Member place (count - 1) x ↔ x ≠ place count ∧ Member place count x := by
  constructor
  · rintro ⟨i, low, high, found⟩
    refine ⟨?_, i, low, by omega, found⟩
    rw [← found, Ne, placed.same low (by omega) some le_rfl]
    omega
  · rintro ⟨other, i, low, high, found⟩
    have notLast : i ≠ count := by
      intro last
      exact other (by rw [← found, last])
    exact ⟨i, low, by omega, found⟩

theorem Placed.counted (placed : Placed place count q) (number : Nat) :
    Placed place count { q with numberOfElements := number } :=
  ⟨placed.distinct, placed.up, placed.left, placed.right, placed.top⟩

variable {elements : Finset α}

theorem IsHeap.counted (placed : Placed place count q) (ordered : Ordered compare count place)
    (members : ∀ x, Member place count x ↔ x ∈ elements) {number : Nat} (same : number = count) :
    IsHeap compare elements place { q with numberOfElements := number } := by
  subst same
  exact ⟨placed.counted number, ordered, members⟩

theorem push_heap (weak : StrictWeak compare) (heap : IsHeap compare elements place q) {value : α}
    (fresh : value ∉ elements) :
    ∃ q' place', q.push compare value = some q' ∧
      IsHeap compare (insert value elements) place' q' := by
  have inserted : ∃ q₁, q.insertAsLast value = some q₁ ∧
      q₁.numberOfElements = q.numberOfElements + 1 ∧
      Placed (update place (q.numberOfElements + 1) value) (q.numberOfElements + 1) q₁ := by
    by_cases none : q.numberOfElements = 0
    · have placed := heap.placed
      rw [none] at placed ⊢
      exact placed.insert_first value none
    · refine heap.placed.insert none value ?_ rfl
      intro i low high same
      exact fresh ((heap.members value).mp ⟨i, low, high, same⟩)
  have ⟨q₁, added, total, placed⟩ := inserted
  have goes (node above : α) (less : compare above node = true) : compare node above = false :=
    weak.asymm above node less
  have stays (node above : α) (less : compare above node = false) : compare above node = false :=
    less
  have ⟨q', place', returns, same, placed', ordered, members⟩ :=
    climb_ordered weak goes stays (q.numberOfElements + 1) le_rfl (by omega) le_rfl placed (heap.ordered.add value)
  rw [update_self] at returns
  rw [total] at same
  refine ⟨q', place', ?_, ?_⟩
  · rw [push, added, Option.bind_some, total, bubbleUp]
    exact returns
  · refine ⟨same ▸ placed', same ▸ ordered, ?_⟩
    intro x
    rw [same, members, members_add, heap.members, Finset.mem_insert]

theorem erase_heap (weak : StrictWeak compare) (heap : IsHeap compare elements place q) {value : α}
    (present : value ∈ elements) :
    ∃ q' place', q.erase compare value = some q' ∧
      IsHeap compare (elements.erase value) place' q' := by
  obtain ⟨hole, first, inside, found⟩ := (heap.members value).mpr present
  obtain ⟨q₁, place₁, hole₁, moved, same, placed, down, ⟨first₁, inside₁, leaf⟩, still, members⟩ :=
    moveDown_leaf weak q.numberOfElements (by omega) first inside heap.placed
      (heap.ordered.down weak hole)
  rw [found] at moved still
  have last := placed.lastNode_eq (by omega) same
  rw [erase, moved, Option.bind_some, last, Option.bind_some]
  by_cases other : place₁ q.numberOfElements = value
  · have position : hole₁ = q.numberOfElements := by
      rw [← still, placed.same (by omega) le_rfl first₁ inside₁] at other
      exact other.symm
    have left : (q₁.removeLast (place₁ q.numberOfElements)).numberOfElements =
        q.numberOfElements := by
      rw [removeLast, ← same]
      split <;> simp
    have total : (q₁.removeLast (place₁ q.numberOfElements)).numberOfElements - 1 =
        q.numberOfElements - 1 := congrArg (· - 1) left
    rw [if_neg (fun differs => differs other)]
    rw [position] at down
    refine ⟨_, place₁, rfl, .counted (placed.remove (by omega)) down.drop ?_ total⟩
    intro x
    rw [members_remove placed (by omega), members, heap.members, Finset.mem_erase, other]
  · have before : hole₁ < q.numberOfElements := by
      refine lt_of_le_of_ne inside₁ ?_
      intro position
      exact other (by rw [← position, still])
    obtain ⟨q₂, replaced, same₂, placed₂⟩ := placed.replace first₁ before leaf
    have goes (last above : α) (not : (!compare last above) = true) : compare last above = false := by
      simpa using not
    have stays (last above : α) (not : (!compare last above) = false) :
        compare above last = false :=
      weak.asymm last above (by simpa using not)
    obtain ⟨q', place', returns, same', placed', ordered, members'⟩ :=
      climb_ordered weak goes stays q₁.numberOfElements (by omega) first₁ (by omega) placed₂ (down.fill leaf before)
    have total : q'.numberOfElements - 1 = q.numberOfElements - 1 := by rw [same', same₂, same]
    rw [still] at replaced
    rw [update_self] at returns
    rw [if_pos other, replaced, Option.bind_some, moveUp, returns]
    refine ⟨_, place', rfl, .counted placed' ordered ?_ total⟩
    intro x
    rw [members', members_replace placed first₁ before, members, heap.members, still,
      Finset.mem_erase]

theorem IsHeap.top (weak : StrictWeak compare) (heap : IsHeap compare elements place q) {top : α}
    (found : q.topNode = some top) :
    top ∈ elements ∧ ∀ x ∈ elements, compare top x = false := by
  rw [heap.placed.top, slot] at found
  split at found
  case isTrue some =>
    cases Option.some.inj found
    refine ⟨(heap.members _).mp ⟨1, some.1, some.2, rfl⟩, ?_⟩
    intro x present
    obtain ⟨i, low, high, same⟩ := (heap.members x).mpr present
    rw [← same]
    exact heap.ordered.top weak i low high
  case isFalse => cases found

theorem IsHeap.some_top (heap : IsHeap compare elements place q) (some : elements ≠ ∅) :
    ∃ top, q.topNode = Option.some top := by
  have ⟨x, present⟩ := Finset.nonempty_iff_ne_empty.mpr some
  have ⟨i, low, high, _⟩ := (heap.members x).mpr present
  rw [heap.placed.top, slot_some le_rfl (by omega)]
  exact ⟨_, rfl⟩

theorem IsHeap.card (heap : IsHeap compare elements place q) :
    elements.card = q.numberOfElements := by
  have same : elements = (Finset.Icc 1 q.numberOfElements).image place := by
    ext x
    rw [← heap.members, Finset.mem_image]
    constructor
    · rintro ⟨i, low, high, found⟩
      exact ⟨i, Finset.mem_Icc.mpr ⟨low, high⟩, found⟩
    · rintro ⟨i, inside, found⟩
      have ⟨low, high⟩ := Finset.mem_Icc.mp inside
      exact ⟨i, low, high, found⟩
  rw [same, Finset.card_image_of_injOn, Nat.card_Icc, Nat.add_sub_cancel]
  intro i inside j inside' alike
  have ⟨low, high⟩ := Finset.mem_Icc.mp inside
  have ⟨low', high'⟩ := Finset.mem_Icc.mp inside'
  exact heap.placed.distinct i j low high low' high' alike

theorem IsHeap.linked (heap : IsHeap compare elements place q) {x y : α} (present : x ∈ elements)
    (present' : y ∈ elements) :
    q.up y = some x ↔ q.left x = some y ∨ q.right x = some y := by
  have ⟨i, low, high, found⟩ := (heap.members x).mpr present
  have ⟨j, low', high', found'⟩ := (heap.members y).mpr present'
  rw [← found, ← found', heap.placed.up j low' high', heap.placed.left i low high,
    heap.placed.right i low high, heap.placed.slot_eq low high, heap.placed.slot_eq low' high',
    heap.placed.slot_eq low' high']
  omega

inductive Operation (α : Type)
  | push (value : α)
  | pop
  | erase (value : α)

/-- The queue, and the elements that have been pushed and neither popped nor erased. -/
structure Tracked (α : Type) where
  queue : IntrusivePriorityQueue α
  elements : Finset α

def perform (compare : α → α → Bool) (s : Tracked α) : Operation α → Option (Tracked α)
  | .push value => (s.queue.push compare value).map fun q => ⟨q, insert value s.elements⟩
  | .pop => s.queue.topNode.bind fun top =>
    (s.queue.pop compare).map fun q => ⟨q, s.elements.erase top⟩
  | .erase value => (s.queue.erase compare value).map fun q => ⟨q, s.elements.erase value⟩

/-- Only other elements are pushed, and only elements of the queue are removed. -/
def Allowed (s : Tracked α) : Operation α → Prop
  | .push value => value ∉ s.elements
  | .pop => s.elements ≠ ∅
  | .erase value => value ∈ s.elements

def emptyQueue (up left right : α → Option α) : Tracked α := ⟨⟨up, left, right, none, 0⟩, ∅⟩

theorem perform_heap (weak : StrictWeak compare) {s : Tracked α}
    (heap : IsHeap compare s.elements place s.queue) {operation : Operation α}
    (allowed : Allowed s operation) :
    ∃ t place', perform compare s operation = some t ∧ IsHeap compare t.elements place' t.queue := by
  cases operation with
  | push value =>
    have ⟨q', place', returns, heap'⟩ := push_heap weak heap allowed
    exact ⟨⟨q', _⟩, place', by rw [perform, returns]; rfl, heap'⟩
  | pop =>
    have ⟨top, found⟩ := heap.some_top allowed
    have ⟨q', place', returns, heap'⟩ := erase_heap weak heap (heap.top weak found).1
    refine ⟨⟨q', _⟩, place', ?_, heap'⟩
    rw [perform, pop, found, Option.bind_some, Option.bind_some, returns]
    rfl
  | erase value =>
    have ⟨q', place', returns, heap'⟩ := erase_heap weak heap allowed
    exact ⟨⟨q', _⟩, place', by rw [perform, returns]; rfl, heap'⟩

theorem reachable_heap [Nonempty α] (weak : StrictWeak compare) {up left right : α → Option α}
    {s : Tracked α}
    (reached : Runs.Reachable (perform compare) Allowed (emptyQueue up left right) s) :
    ∃ place, IsHeap compare s.elements place s.queue := by
  induction reached with
  | refl =>
    have ⟨x⟩ := ‹Nonempty α›
    have nothing (i : Nat) (low : 1 ≤ i) (high : i ≤ 0) : False := by omega
    refine ⟨fun _ => x, ⟨?_, ?_, ?_, ?_, rfl⟩, ?_, ?_⟩
    · intro i _ low high
      exact (nothing i low high).elim
    · intro i low high
      exact (nothing i low high).elim
    · intro i low high
      exact (nothing i low high).elim
    · intro i low high
      exact (nothing i low high).elim
    · intro i large high
      exact (nothing i (by omega) high).elim
    · intro y
      constructor
      · rintro ⟨i, low, high, _⟩
        exact (nothing i low high).elim
      · intro present
        exact absurd present (Finset.notMem_empty y)
  | tail operation _ allowed last ih =>
    have ⟨place, heap⟩ := ih
    have ⟨t, place', returns, heap'⟩ := perform_heap weak heap allowed
    cases Option.some.inj (returns.symm.trans last)
    exact ⟨place', heap'⟩

theorem less_weak : StrictWeak fun a b : Nat => decide (a < b) where
  asymm a b less := decide_eq_false (Nat.lt_asymm (of_decide_eq_true less))
  negTrans a b c first second := by
    have first := of_decide_eq_false first
    have second := of_decide_eq_false second
    exact decide_eq_false (by omega)

end

end PriorityQueues
