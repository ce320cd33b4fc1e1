import EmbeddedInfra.Heaps
import EmbeddedInfra.Util.IntrusivePriorityQueue
import Mathlib.Data.Nat.Bitwise

/-! The links of `IntrusivePriorityQueue`: they make a complete binary tree, of which nodes are
swapped, added and removed. -/

namespace PriorityQueues

open Heaps IntrusivePriorityQueue Function

variable {α : Type} {q : IntrusivePriorityQueue α} {place : Nat → α} {count : Nat}

section

variable [DecidableEq α] (q : IntrusivePriorityQueue α) (x y above : α) (link child : Option α)

@[simp] theorem setUp_up : (q.setUp x link).up y = if y = x then link else q.up y :=
  update_apply ..
@[simp] theorem setUp_left : (q.setUp x link).left = q.left := rfl
@[simp] theorem setUp_right : (q.setUp x link).right = q.right := rfl
@[simp] theorem setUp_topNode : (q.setUp x link).topNode = q.topNode := rfl
@[simp] theorem setUp_numberOfElements :
    (q.setUp x link).numberOfElements = q.numberOfElements := rfl

@[simp] theorem setLeft_left : (q.setLeft x link).left y = if y = x then link else q.left y :=
  update_apply ..
@[simp] theorem setLeft_up : (q.setLeft x link).up = q.up := rfl
@[simp] theorem setLeft_right : (q.setLeft x link).right = q.right := rfl
@[simp] theorem setLeft_topNode : (q.setLeft x link).topNode = q.topNode := rfl
@[simp] theorem setLeft_numberOfElements :
    (q.setLeft x link).numberOfElements = q.numberOfElements := rfl

@[simp] theorem setRight_right :
    (q.setRight x link).right y = if y = x then link else q.right y := update_apply ..
@[simp] theorem setRight_up : (q.setRight x link).up = q.up := rfl
@[simp] theorem setRight_left : (q.setRight x link).left = q.left := rfl
@[simp] theorem setRight_topNode : (q.setRight x link).topNode = q.topNode := rfl
@[simp] theorem setRight_numberOfElements :
    (q.setRight x link).numberOfElements = q.numberOfElements := rfl

@[simp] theorem setUpOf_up :
    (q.setUpOf child x).up y = if child = some y then some x else q.up y := by
  cases child with
  | none => rfl
  | some child => simp [setUpOf, eq_comm]

@[simp] theorem setUpOf_left : (q.setUpOf child x).left = q.left := by cases child <;> rfl
@[simp] theorem setUpOf_right : (q.setUpOf child x).right = q.right := by cases child <;> rfl
@[simp] theorem setUpOf_topNode : (q.setUpOf child x).topNode = q.topNode := by cases child <;> rfl
@[simp] theorem setUpOf_numberOfElements :
    (q.setUpOf child x).numberOfElements = q.numberOfElements := by cases child <;> rfl

@[simp] theorem relink_left : (q.relink above x link).left y =
    if above = y ∧ q.left y = some x then link else q.left y := by
  rw [relink]
  split
  case isTrue found => by_cases same : above = y <;> simp_all [eq_comm]
  case isFalse missing =>
    rw [setRight_left, if_neg]
    rintro ⟨same, found⟩
    exact missing (same ▸ found)

@[simp] theorem relink_right : (q.relink above x link).right y =
    if above = y ∧ q.left y ≠ some x then link else q.right y := by
  rw [relink]
  split
  case isTrue found =>
    rw [setLeft_right, if_neg]
    rintro ⟨same, missing⟩
    exact missing (same ▸ found)
  case isFalse missing => by_cases same : above = y <;> simp_all [eq_comm]

@[simp] theorem relink_up : (q.relink above x link).up = q.up := by rw [relink]; split <;> rfl
@[simp] theorem relink_topNode : (q.relink above x link).topNode = q.topNode := by
  rw [relink]; split <;> rfl
@[simp] theorem relink_numberOfElements :
    (q.relink above x link).numberOfElements = q.numberOfElements := by rw [relink]; split <;> rfl

@[simp] theorem relinkOf_left : (q.relinkOf child x link).left y =
    if child = some y ∧ q.left y = some x then link else q.left y := by
  cases child <;> simp [relinkOf]

@[simp] theorem relinkOf_right : (q.relinkOf child x link).right y =
    if child = some y ∧ q.left y ≠ some x then link else q.right y := by
  cases child <;> simp [relinkOf]

@[simp] theorem relinkOf_up : (q.relinkOf child x link).up = q.up := by
  cases child <;> simp [relinkOf]
@[simp] theorem relinkOf_topNode : (q.relinkOf child x link).topNode = q.topNode := by
  cases child <;> simp [relinkOf]
@[simp] theorem relinkOf_numberOfElements :
    (q.relinkOf child x link).numberOfElements = q.numberOfElements := by
  cases child <;> simp [relinkOf]

end

/-- The element at a position, where the tree has one. -/
def slot (place : Nat → α) (count i : Nat) : Option α :=
  if 1 ≤ i ∧ i ≤ count then some (place i) else none

/-- The links make a complete binary tree of the elements at positions 1 up to `count`, and the
top node is its root, which has no parent. -/
structure Placed (place : Nat → α) (count : Nat) (q : IntrusivePriorityQueue α) : Prop where
  distinct : ∀ i j, 1 ≤ i → i ≤ count → 1 ≤ j → j ≤ count → place i = place j → i = j
  up : ∀ i, 1 ≤ i → i ≤ count → q.up (place i) = slot place count (i / 2)
  left : ∀ i, 1 ≤ i → i ≤ count → q.left (place i) = slot place count (2 * i)
  right : ∀ i, 1 ≤ i → i ≤ count → q.right (place i) = slot place count (2 * i + 1)
  top : q.topNode = slot place count 1

theorem slot_some {i : Nat} (first : 1 ≤ i) (inside : i ≤ count) :
    slot place count i = some (place i) :=
  if_pos ⟨first, inside⟩

theorem slot_none {i : Nat} (outside : i = 0 ∨ count < i) : slot place count i = none :=
  if_neg (by omega)

theorem Placed.same (placed : Placed place count q) {i j : Nat} (first : 1 ≤ i)
    (inside : i ≤ count) (first' : 1 ≤ j) (inside' : j ≤ count) : place i = place j ↔ i = j :=
  ⟨placed.distinct i j first inside first' inside', fun same => same ▸ rfl⟩

theorem Placed.slot_eq (placed : Placed place count q) {i j : Nat} (first : 1 ≤ j)
    (inside : j ≤ count) : slot place count i = some (place j) ↔ i = j := by
  by_cases inTree : 1 ≤ i ∧ i ≤ count
  · rw [slot_some inTree.1 inTree.2, Option.some_inj]
    exact placed.same inTree.1 inTree.2 first inside
  · rw [slot, if_neg inTree]
    constructor
    · nofun
    · intro same
      omega

theorem slot_exchange {a b : Nat} (first : 1 ≤ a ∧ a ≤ count) (second : 1 ≤ b ∧ b ≤ count)
    (i : Nat) : slot (exchange place a b) count i = slot place count (other a b i) := by
  rw [slot, slot, exchange]
  congr 1
  rw [other]
  split_ifs <;> simp [*]

section

variable [DecidableEq α] {parent child node : Nat}

theorem positions_below (some : 1 ≤ parent) (inside : child ≤ count) (below : child / 2 = parent) :
    1 ≤ child ∧ parent ≤ count ∧ parent / 2 ≠ child ∧ parent / 2 ≠ parent ∧ child ≠ parent := by
  omega

section

variable (placed : Placed place count q) (some : 1 ≤ parent) (inside : child ≤ count)
  (below : child / 2 = parent)

include placed some inside below

theorem swap_left (first : 1 ≤ node) (last : node ≤ count) :
    (q.swapChildAndParentNodes (place child) (place parent)).left (place node) =
      if node = child then
        if 2 * parent = child then Option.some (place parent) else slot place count (2 * parent)
      else if node = parent then slot place count (2 * child)
      else if parent / 2 = node ∧ 2 * node = parent then Option.some (place child)
      else slot place count (2 * node) := by
  obtain ⟨large, low, notUp, notSelf, distinct⟩ := positions_below some inside below
  rw [swapChildAndParentNodes]
  by_cases left : 2 * parent = child <;>
    simp only [setUp_left, setUpOf_left, setUpOf_right, setUp_left, setRight_left,
      setRight_right, setLeft_left, setLeft_right, relinkOf_left, relinkOf_right, placed.same,
      placed.slot_eq, placed.left, placed.right, placed.up, large, low, inside, some, first, last,
      left, notUp, distinct, notSelf, false_and, if_true, if_false, decide_true, decide_false,
      Bool.false_eq_true]

theorem swap_right (first : 1 ≤ node) (last : node ≤ count) :
    (q.swapChildAndParentNodes (place child) (place parent)).right (place node) =
      if node = child then
        if 2 * parent = child then slot place count (2 * parent + 1) else Option.some (place parent)
      else if node = parent then slot place count (2 * child + 1)
      else if parent / 2 = node ∧ 2 * node ≠ parent then Option.some (place child)
      else slot place count (2 * node + 1) := by
  obtain ⟨large, low, notUp, notSelf, distinct⟩ := positions_below some inside below
  rw [swapChildAndParentNodes]
  by_cases left : 2 * parent = child <;>
    simp only [setUp_right, setUpOf_right, setRight_left,
      setRight_right, setLeft_left, setLeft_right, relinkOf_left, relinkOf_right, placed.same,
      placed.slot_eq, placed.left, placed.right, placed.up, large, low, inside, some, first, last,
      left, notUp, distinct, notSelf, ne_eq, false_and, if_true, if_false, decide_true, decide_false,
      Bool.false_eq_true]

theorem swap_up (first : 1 ≤ node) (last : node ≤ count) :
    (q.swapChildAndParentNodes (place child) (place parent)).up (place node) =
      if node = child then slot place count (parent / 2)
      else if node / 2 = parent ∨ node = parent then Option.some (place child)
      else if node / 2 = child then Option.some (place parent)
      else slot place count (node / 2) := by
  obtain ⟨large, low, notUp, notSelf, distinct⟩ := positions_below some inside below
  rw [swapChildAndParentNodes]
  by_cases left : 2 * parent = child <;>
    simp only [setUp_up, setUpOf_up, setUpOf_right, setRight_up, setRight_left, setRight_right,
      setLeft_up, setLeft_left, setLeft_right, relinkOf_up, relinkOf_left, relinkOf_right,
      placed.same, placed.slot_eq, placed.left, placed.right, placed.up, large, low, inside, some,
      first, last, left, notUp, distinct, notSelf, false_and, if_true, if_false, decide_true,
      decide_false, Bool.false_eq_true] <;>
    split_ifs <;> first | rfl | (exfalso; omega)

theorem swap_topNode :
    (q.swapChildAndParentNodes (place child) (place parent)).topNode =
      if parent = 1 then Option.some (place child) else q.topNode := by
  have low : parent ≤ count := by omega
  have root := placed.slot_eq (i := 1) some low
  simp only [swapChildAndParentNodes, setUp_topNode, setRight_topNode, setUpOf_topNode,
    setLeft_topNode, relinkOf_topNode, placed.top, root]
  simp only [eq_comm]

end

@[simp] theorem swap_numberOfElements (x y : α) :
    (q.swapChildAndParentNodes x y).numberOfElements = q.numberOfElements := by
  simp [swapChildAndParentNodes]

theorem Placed.swap (placed : Placed place count q) (some : 1 ≤ parent) (inside : child ≤ count)
    (below : child / 2 = parent) :
    Placed (exchange place parent child) count
      (q.swapChildAndParentNodes (place child) (place parent)) := by
  have large : 1 ≤ child := by omega
  have low : parent ≤ count := by omega
  have within (i : Nat) (first : 1 ≤ i) (last : i ≤ count) :
      1 ≤ other parent child i ∧ other parent child i ≤ count := by
    rw [other]
    split_ifs <;> omega
  constructor
  case distinct =>
    intro i j first last first' last' same
    obtain ⟨low, high⟩ := within i first last
    obtain ⟨low', high'⟩ := within j first' last'
    have positions := placed.distinct _ _ low high low' high' same
    simp only [other] at positions
    split_ifs at positions <;> omega
  case up =>
    intro i first last
    obtain ⟨low', high⟩ := within i first last
    rw [exchange, swap_up placed some inside below low' high,
      slot_exchange ⟨some, low⟩ ⟨large, inside⟩]
    grind [slot, other]
  case left =>
    intro i first last
    obtain ⟨low', high⟩ := within i first last
    rw [exchange, swap_left placed some inside below low' high,
      slot_exchange ⟨some, low⟩ ⟨large, inside⟩]
    grind [slot, other]
  case right =>
    intro i first last
    obtain ⟨low', high⟩ := within i first last
    rw [exchange, swap_right placed some inside below low' high,
      slot_exchange ⟨some, low⟩ ⟨large, inside⟩]
    grind [slot, other]
  case top =>
    rw [swap_topNode placed some inside below, slot_exchange ⟨some, low⟩ ⟨large, inside⟩,
      placed.top]
    grind [slot, other]

end

theorem grow_pow {number : Nat} (some : number ≠ 0) (left i : Nat)
    (same : i + left = number.log2 + 1) : grow number (2 ^ i) = 2 ^ (number.log2 + 1) := by
  have positive := Nat.two_pow_pos i
  induction left generalizing i with
  | zero =>
    rw [Nat.add_zero] at same
    rw [grow, if_pos, same]
    exact Or.inr (same ▸ Nat.lt_log2_self)
  | succ left ih =>
    have low : 2 ^ i ≤ 2 ^ number.log2 := Nat.pow_le_pow_right (by omega) (by omega)
    have below := low.trans (Nat.log2_self_le some)
    rw [grow, if_neg (by omega), Nat.shiftLeft_eq, ← Nat.pow_succ]
    exact ih (i + 1) (by omega) (Nat.two_pow_pos _)

theorem direction_eq {number : Nat} (some : number ≠ 0) :
    grow number 1 >>> 2 = if number.log2 = 0 then 0 else 2 ^ (number.log2 - 1) := by
  have top := grow_pow some (number.log2 + 1) 0 (by omega)
  rw [Nat.pow_zero] at top
  rw [top, Nat.shiftRight_eq_div_pow]
  split
  case isTrue root => simp [root]
  case isFalse deep =>
    have split : 2 ^ (number.log2 + 1) = 2 ^ (number.log2 - 1) * 2 ^ 2 := by
      rw [← Nat.pow_add]
      congr 1
      omega
    rw [split, Nat.mul_div_cancel _ (by decide)]

theorem root_eq {number : Nat} (some : number ≠ 0) : number / 2 ^ number.log2 = 1 := by
  have low := Nat.log2_self_le some
  have high : number < 2 ^ (number.log2 + 1) := Nat.lt_log2_self
  rw [Nat.pow_succ] at high
  exact Nat.div_eq_of_lt_le (by omega) (by omega)

theorem half_eq (number level : Nat) : number / 2 ^ (level + 1) = number / 2 ^ level / 2 := by
  rw [Nat.pow_succ, Nat.div_div_eq_div_mul]

theorem Placed.child (placed : Placed place count q) (number level : Nat)
    (first : 1 ≤ number / 2 ^ (level + 1)) (inside : number / 2 ^ (level + 1) ≤ count) :
    (if number &&& 2 ^ level ≠ 0 then q.right (place (number / 2 ^ (level + 1)))
      else q.left (place (number / 2 ^ (level + 1)))) = slot place count (number / 2 ^ level) := by
  have half := half_eq number level
  have positive := Nat.two_pow_pos level
  rw [placed.right _ first inside, placed.left _ first inside, Nat.and_two_pow,
    Nat.testBit_eq_decide_div_mod_eq]
  by_cases odd : number / 2 ^ level % 2 = 1
  · rw [if_pos (by simp [odd])]
    congr 1
    omega
  · rw [if_neg (by simp [odd])]
    congr 1
    omega

theorem first_level {number level : Nat} (deep : level ≤ number.log2) (some : number ≠ 0) :
    1 ≤ number / 2 ^ level :=
  Nat.div_pos ((Nat.pow_le_pow_right (by omega) deep).trans (Nat.log2_self_le some))
    (Nat.two_pow_pos _)

theorem Placed.descend_last (placed : Placed place count q) (some : q.numberOfElements ≠ 0)
    (inside : q.numberOfElements ≤ count) (level : Nat)
    (deep : level + 1 ≤ q.numberOfElements.log2) :
    q.descend 0 (2 ^ level) (Option.some (place (q.numberOfElements / 2 ^ (level + 1)))) =
      Option.some (place q.numberOfElements) := by
  have positive := Nat.two_pow_pos level
  have low (i : Nat) : q.numberOfElements / 2 ^ i ≤ count := (Nat.div_le_self _ _).trans inside
  induction level with
  | zero =>
    rw [descend, if_neg (by decide), Option.bind_some,
      placed.child _ _ (first_level deep some) (low _), descend, if_pos (Or.inl (by decide)),
      slot_some (first_level (Nat.zero_le _) some) (low _), Nat.pow_zero, Nat.div_one]
  | succ level ih =>
    have next : 2 ^ (level + 1) >>> 1 = 2 ^ level := by
      rw [Nat.shiftRight_eq_div_pow, Nat.pow_succ, Nat.pow_one, Nat.mul_div_cancel _ (by decide)]
    rw [descend, if_neg (by omega), Option.bind_some,
      placed.child _ _ (first_level deep some) (low _),
      slot_some (first_level (by omega) some) (low _), next]
    exact ih (by omega) (Nat.two_pow_pos _)

theorem Placed.descend_parent (placed : Placed place count q) (some : q.numberOfElements ≠ 0)
    (inside : q.numberOfElements / 2 ≤ count) (level : Nat)
    (deep : level + 1 ≤ q.numberOfElements.log2) :
    q.descend 1 (2 ^ level) (Option.some (place (q.numberOfElements / 2 ^ (level + 1)))) =
      Option.some (place (q.numberOfElements / 2)) := by
  have low (i : Nat) : q.numberOfElements / 2 ^ (i + 1) ≤ count := by
    refine le_trans ?_ inside
    rw [Nat.pow_succ, Nat.mul_comm, ← Nat.div_div_eq_div_mul]
    exact Nat.div_le_self _ _
  induction level with
  | zero =>
    rw [descend, if_pos (Or.inl (by decide)), Nat.pow_one]
  | succ level ih =>
    have large : 1 < 2 ^ (level + 1) := Nat.one_lt_two_pow (by omega)
    have next : 2 ^ (level + 1) >>> 1 = 2 ^ level := by
      rw [Nat.shiftRight_eq_div_pow, Nat.pow_succ, Nat.pow_one, Nat.mul_div_cancel _ (by decide)]
    rw [descend, if_neg (by omega), Option.bind_some,
      placed.child _ _ (first_level deep some) (low _),
      slot_some (first_level (by omega) some) (low _), next]
    exact ih (by omega)

theorem Placed.lastNode_eq (placed : Placed place count q) (some : count ≠ 0)
    (same : q.numberOfElements = count) : q.lastNode = Option.some (place count) := by
  subst same
  rw [lastNode, direction_eq some, placed.top, slot_some le_rfl (by omega)]
  split
  case isTrue root =>
    have one := root_eq some
    rw [root, Nat.pow_zero, Nat.div_one] at one
    rw [descend, if_pos (Or.inl rfl), one]
  case isFalse deep =>
    have down := placed.descend_last some le_rfl (q.numberOfElements.log2 - 1) (by omega)
    rw [Nat.sub_add_cancel (by omega), root_eq some] at down
    exact down

theorem slot_add (value : α) (i : Nat) :
    slot (update place (count + 1) value) (count + 1) i =
      if i = count + 1 then some value else slot place count i := by
  by_cases last : i = count + 1
  · rw [if_pos last, last, slot_some (by omega) le_rfl, update_self]
  · rw [if_neg last, slot, slot, update_of_ne last]
    exact if_congr (by omega) rfl rfl

theorem slot_replace {hole : Nat} (first : 1 ≤ hole) (before : hole < count) (i : Nat) :
    slot (update place hole (place count)) (count - 1) i =
      if i = hole then some (place count) else if i = count then none else slot place count i := by
  by_cases here : i = hole
  · rw [if_pos here, here, slot_some first (by omega), update_self]
  · rw [if_neg here, slot, slot, update_of_ne here]
    split_ifs <;> first | rfl | (exfalso; omega)

section

variable [DecidableEq α]

theorem linkLast_up (node value x : α) :
    (q.linkLast node value).up x = if x = value then some node else q.up x := by
  rw [linkLast, setUp_up]
  split_ifs <;> rfl

theorem linkLast_left (node value x : α) : (q.linkLast node value).left x =
    if q.numberOfElements &&& 1 = 0 ∧ x = node then some value else q.left x := by
  rw [linkLast, setUp_left]
  split_ifs <;> simp_all

theorem linkLast_right (node value x : α) : (q.linkLast node value).right x =
    if q.numberOfElements &&& 1 ≠ 0 ∧ x = node then some value else q.right x := by
  rw [linkLast, setUp_right]
  split_ifs <;> simp_all

theorem Placed.insert_first (placed : Placed place 0 q) (value : α)
    (same : q.numberOfElements = 0) :
    ∃ q', q.insertAsLast value = some q' ∧ q'.numberOfElements = 1 ∧
      Placed (update place 1 value) 1 q' := by
  have none : q.topNode = Option.none := placed.top
  refine ⟨_, by rw [insertAsLast, setLeft_topNode, setRight_topNode, none], ?_, ?_⟩
  · simp [same]
  · constructor
    case distinct =>
      intro i j first last first' last' _
      omega
    case top => simp [slot]
    all_goals
      intro i first last
      have root : i = 1 := by omega
      simp [root, slot]

theorem Placed.insert (placed : Placed place count q) (some : count ≠ 0) (value : α)
    (fresh : ∀ i, 1 ≤ i → i ≤ count → place i ≠ value) (same : q.numberOfElements = count) :
    ∃ q', q.insertAsLast value = Option.some q' ∧ q'.numberOfElements = count + 1 ∧
      Placed (update place (count + 1) value) (count + 1) q' := by
  let cleared := { (q.setRight value none).setLeft value none with
    numberOfElements := q.numberOfElements + 1 }
  have total : cleared.numberOfElements = count + 1 := by rw [← same]
  have still : Placed place count cleared := by
    refine ⟨placed.distinct, placed.up, ?_, ?_, placed.top⟩
    · intro i first last
      rw [← placed.left i first last]
      simp [cleared, fresh i first last]
    · intro i first last
      rw [← placed.right i first last]
      simp [cleared, fresh i first last]
  have root : q.topNode = Option.some (place 1) := by
    rw [placed.top, slot_some le_rfl (by omega)]
  have deep : 1 ≤ (count + 1).log2 := (Nat.le_log2 (by omega)).mpr (by omega)
  have way : cleared.descend 1 (grow cleared.numberOfElements 1 >>> 2) (Option.some (place 1)) =
      Option.some (place ((count + 1) / 2)) := by
    have down := still.descend_parent (by omega) (by omega) ((count + 1).log2 - 1)
      (by rw [total]; omega)
    rw [Nat.sub_add_cancel deep, total, root_eq (by omega)] at down
    rw [total, direction_eq (by omega), if_neg (by omega)]
    exact down
  have unfolded : q.insertAsLast value =
      (cleared.descend 1 (grow cleared.numberOfElements 1 >>> 2) (Option.some (place 1))).map
        fun node => cleared.linkLast node value := by
    rw [insertAsLast]
    split
    case h_1 none => exact absurd (none.symm.trans root) nofun
    case h_2 top found =>
      cases Option.some.inj (found.symm.trans root)
      rfl
  refine ⟨cleared.linkLast (place ((count + 1) / 2)) value, by rw [unfolded, way]; rfl, ?_, ?_⟩
  · rw [linkLast, setUp_numberOfElements]
    split
    · exact total
    · exact total
  · have parity : cleared.numberOfElements &&& 1 = (count + 1) % 2 := by
      rw [total, Nat.and_one_is_mod]
    have some' : 1 ≤ (count + 1) / 2 := by omega
    have inside : (count + 1) / 2 ≤ count := by omega
    have older (i : Nat) (last : i ≤ count) : update place (count + 1) value i = place i :=
      update_of_ne (by omega) _ _
    have newest : update place (count + 1) value (count + 1) = value :=
      update_self ..
    constructor
    case distinct =>
      intro i j first last first' last' alike
      rcases Nat.lt_or_eq_of_le last with before | same <;>
        rcases Nat.lt_or_eq_of_le last' with before' | same'
      · rw [older i (by omega), older j (by omega)] at alike
        exact placed.distinct i j first (by omega) first' (by omega) alike
      · rw [older i (by omega), same', newest] at alike
        exact absurd alike (fresh i first (by omega))
      · rw [older j (by omega), same, newest] at alike
        exact absurd alike.symm (fresh j first' (by omega))
      · omega
    case up =>
      intro i first last
      rw [slot_add, linkLast_up]
      rcases Nat.lt_or_eq_of_le last with before | same
      · rw [older i (by omega), if_neg (fresh i first (by omega)), if_neg (by omega)]
        exact placed.up i first (by omega)
      · rw [same, newest, if_pos rfl, if_neg (by omega), slot_some some' inside]
    case left =>
      intro i first last
      rw [slot_add, linkLast_left, parity]
      rcases Nat.lt_or_eq_of_le last with before | same
      · rw [older i (by omega), still.left i first (by omega)]
        exact if_congr (by rw [placed.same first (by omega) some' inside]; omega) rfl rfl
      · rw [same, newest, if_neg (fun both => fresh _ some' inside both.2.symm), if_neg (by omega),
          slot_none (by omega)]
        simp [cleared]
    case right =>
      intro i first last
      rw [slot_add, linkLast_right, parity]
      rcases Nat.lt_or_eq_of_le last with before | same
      · rw [older i (by omega), still.right i first (by omega)]
        exact if_congr (by rw [placed.same first (by omega) some' inside]; omega) rfl rfl
      · rw [same, newest, if_neg (fun both => fresh _ some' inside both.2.symm), if_neg (by omega),
          slot_none (by omega)]
        simp [cleared]
    case top =>
      rw [slot_add, if_neg (by omega), ← placed.top, linkLast]
      split_ifs <;> rfl

theorem Placed.replace (placed : Placed place count q) {hole : Nat} (first : 1 ≤ hole)
    (before : hole < count) (leaf : count < 2 * hole) :
    ∃ q', q.replaceBy (place count) (place hole) = some q' ∧
      q'.numberOfElements = q.numberOfElements ∧
      Placed (update place hole (place count)) (count - 1) q' := by
  have large : 1 ≤ count := by omega
  have up : q.up (place count) = some (place (count / 2)) := by
    rw [placed.up count large le_rfl, slot_some (by omega) (by omega)]
  have above : q.up (place hole) = some (place (hole / 2)) := by
    rw [placed.up hole first before.le, slot_some (by omega) (by omega)]
  have noLeft : q.left (place hole) = none := by
    rw [placed.left hole first before.le, slot_none (by omega)]
  have noRight : q.right (place hole) = none := by
    rw [placed.right hole first before.le, slot_none (by omega)]
  have upper : 1 ≤ count / 2 := by omega
  have lower : count / 2 ≤ count := by omega
  have upper' : 1 ≤ hole / 2 := by omega
  have lower' : hole / 2 ≤ count := by omega
  have notHole : count / 2 ≠ hole := by omega
  have notLast : hole ≠ count := by omega
  have far : place (hole / 2) ≠ place count := by
    rw [Ne, placed.same upper' lower' large le_rfl]
    omega
  refine ⟨_, by
    rw [replaceBy, up, Option.bind_some]
    simp only [setRight_up, setLeft_up, setUp_up, relink_up, if_true, above, Option.map_some]
    rfl, ?_, ?_⟩
  · simp
  · have kept (i : Nat) (other : i ≠ hole) :
        update place hole (place count) i = place i := update_of_ne other _ _
    have filled : update place hole (place count) hole = place count :=
      update_self ..
    constructor
    case distinct =>
      intro i j low high low' high' alike
      by_cases here : i = hole <;> by_cases here' : j = hole
      · omega
      · rw [here, filled, kept j here'] at alike
        have same := placed.distinct count j large le_rfl low' (by omega) alike
        omega
      · rw [here', filled, kept i here] at alike
        have same := placed.distinct i count low (by omega) large le_rfl alike
        omega
      · rw [kept i here, kept j here'] at alike
        exact placed.distinct i j low (by omega) low' (by omega) alike
    case up =>
      intro i low high
      have inside : i ≤ count := by omega
      have notLast : i ≠ count := by omega
      rw [slot_replace first before, if_neg (by omega)]
      by_cases here : i = hole
      · rw [here, filled, if_neg (by omega), slot_some upper' lower']
        simp [noLeft, noRight, far]
      · rw [kept i here, if_neg (by omega)]
        simp [noLeft, noRight, far, placed.same low inside large le_rfl, notLast,
          placed.up i low inside]
    case left =>
      intro i low high
      have inside : i ≤ count := by omega
      have notLast : i ≠ count := by omega
      rw [slot_replace first before]
      by_cases here : i = hole
      · rw [here, filled, if_neg (by omega), if_neg (by omega), slot_none (by omega)]
        simp [noLeft, far]
      · rw [kept i here]
        simp [placed.same low inside large le_rfl, notLast, placed.same upper' lower' low inside,
          placed.same upper lower low inside, placed.left i low inside,
          placed.slot_eq large le_rfl, placed.slot_eq first before.le]
        split_ifs <;> first | rfl | (exfalso; omega)
    case right =>
      intro i low high
      have inside : i ≤ count := by omega
      have notLast : i ≠ count := by omega
      rw [slot_replace first before]
      by_cases here : i = hole
      · rw [here, filled, if_neg (by omega), if_neg (by omega), slot_none (by omega)]
        simp [noRight, far]
      · rw [kept i here]
        simp [placed.same low inside large le_rfl, notLast, placed.same upper' lower' low inside,
          placed.same upper lower low inside, placed.left i low inside, placed.right i low inside,
          placed.slot_eq large le_rfl, placed.slot_eq first before.le]
        split_ifs <;> first | rfl | (exfalso; omega)
    case top =>
      rw [slot_replace first before, if_neg (by omega), if_neg (by omega)]
      simp [placed.top]

theorem Placed.remove (placed : Placed place count q) (some : 1 ≤ count) :
    Placed place (count - 1) (q.removeLast (place count)) := by
  have shorter (i : Nat) :
      slot place (count - 1) i = if i = count then none else slot place count i := by
    rw [slot, slot]
    split_ifs <;> first | rfl | (exfalso; omega)
  have distinct (i j : Nat) (low : 1 ≤ i) (high : i ≤ count - 1) (low' : 1 ≤ j)
      (high' : j ≤ count - 1) (alike : place i = place j) : i = j :=
    placed.distinct i j low (by omega) low' (by omega) alike
  rw [removeLast, placed.up count some le_rfl]
  by_cases single : count = 1
  · rw [slot_none (by omega)]
    refine ⟨distinct, ?_, ?_, ?_, ?_⟩
    · intro i low high
      omega
    · intro i low high
      omega
    · intro i low high
      omega
    · exact (slot_none (by omega)).symm
  have upper : 1 ≤ count / 2 := by omega
  have lower : count / 2 ≤ count := by omega
  rw [slot_some upper lower]
  refine ⟨distinct, ?_, ?_, ?_, ?_⟩
  · intro i low high
    rw [shorter, if_neg (by omega), relink_up, placed.up i low (by omega)]
  · intro i low high
    have alike := placed.same upper lower low (show i ≤ count by omega)
    rw [shorter, relink_left, placed.left i low (by omega)]
    exact if_congr (by rw [alike, placed.slot_eq some le_rfl]; omega) rfl rfl
  · intro i low high
    have alike := placed.same upper lower low (show i ≤ count by omega)
    rw [shorter, relink_right, placed.left i low (by omega), placed.right i low (by omega)]
    exact if_congr (by rw [alike, ne_eq, placed.slot_eq some le_rfl]; omega) rfl rfl
  · rw [shorter, if_neg (by omega), relink_topNode, placed.top]

end

end PriorityQueues
