import EmbeddedInfra.Segments
import Mathlib.Data.List.Nodup
import Mathlib.Data.List.Range

/-! The nodes of a `BoundedForwardList` and of a `BoundedList`: a storage, of which the nodes are handed
out one after the other, and a list of those that were given back. -/

namespace BoundedLists

open Segments List Function

/-- The nodes, with the object that is constructed in each; `proper` says that no object was
constructed over another and none destructed where there was none. -/
structure Nodes (α : Type) where
  capacity : Nat
  next : Nat → Option Nat := fun _ => none
  storage : Nat → Option α := fun _ => none
  freeList : Option Nat := none
  numInitialized : Nat := 0
  proper : Bool := true

variable {α : Type}

namespace Nodes

def allocateNode (n : Nodes α) : Option (Nat × Nodes α) :=
  match n.freeList with
  | some node => some (node, { n with freeList := n.next node })
  | none =>
    if n.numInitialized = n.capacity then none
    else some (n.numInitialized, { n with numInitialized := n.numInitialized + 1 })

def construct (n : Nodes α) (node : Nat) (value : α) : Nodes α :=
  { n with
    storage := update n.storage node (some value)
    proper := n.proper && (n.storage node).isNone }

def destruct (n : Nodes α) (node : Nat) : Nodes α :=
  { n with
    storage := update n.storage node none
    proper := n.proper && (n.storage node).isSome }

def setNext (n : Nodes α) (node : Nat) (pointer : Option Nat) : Nodes α :=
  { n with next := update n.next node pointer }

/-- `node->next = freeList; freeList = node` -/
def release (n : Nodes α) (node : Nat) : Nodes α :=
  { n.setNext node n.freeList with freeList := some node }

end Nodes

/-- The nodes in use hold the contents, and all others that were handed out are in the free list and
hold nothing. -/
structure Holding (n : Nodes α) (used : List Nat) (contents : List α) : Prop where
  free : ∃ free, Segment n.next n.freeList free none ∧
    (used ++ free).Perm (List.range n.numInitialized) ∧ ∀ a ∈ free, n.storage a = none
  fresh : ∀ a, n.numInitialized ≤ a → n.storage a = none
  bounded : n.numInitialized ≤ n.capacity
  live : used.map n.storage = contents.map some
  proper : n.proper = true

namespace Holding

variable {n : Nodes α} {used : List Nat} {contents : List α}

theorem initial (capacity : Nat) : Holding ({ capacity } : Nodes α) [] [] where
  free := ⟨[], rfl, List.Perm.refl _, nofun⟩
  fresh := fun _ _ => rfl
  bounded := Nat.zero_le _
  live := rfl
  proper := rfl

theorem length_le (holding : Holding n used contents) : used.length ≤ n.numInitialized := by
  have ⟨free, _, all, _⟩ := holding.free
  have counted := all.length_eq
  rw [length_append, length_range] at counted
  omega

theorem nodup (holding : Holding n used contents) : used.Nodup := by
  have ⟨free, _, all, _⟩ := holding.free
  exact (nodup_append.mp (all.nodup_iff.mpr nodup_range)).1

theorem setNext (holding : Holding n used contents) {a : Nat} (member : a ∈ used)
    (pointer : Option Nat) : Holding (n.setNext a pointer) used contents where
  free := by
    have ⟨free, segment, all, raw⟩ := holding.free
    refine ⟨free, segment.update ?_ pointer, all, raw⟩
    intro inFree
    have distinct := all.nodup_iff.mpr nodup_range
    exact (nodup_append.mp distinct).2.2 a member a inFree rfl
  fresh := holding.fresh
  bounded := holding.bounded
  live := holding.live
  proper := holding.proper

theorem redirect (holding : Holding n used contents) {last : Option Nat}
    (member : ∀ a ∈ last, a ∈ used) (first pointer : Option Nat) :
    Holding { n with next := (Segments.redirect n.next first last pointer).1 } used contents := by
  cases last with
  | none => exact holding
  | some a => exact holding.setNext (member a rfl) pointer

/-- A node that was allocated, and in which an object was constructed. -/
structure Added (n : Nodes α) (used : List Nat) (value : α) (node : Nat) (n' : Nodes α) : Prop where
  new : node ∉ used
  next : n'.next = n.next
  capacity : n'.capacity = n.capacity
  storage : (n'.construct node value).storage = update n.storage node (some value)
  holds : ∀ used' contents', used'.Perm (node :: used) →
    used'.map (update n.storage node (some value)) = contents'.map some →
      Holding (n'.construct node value) used' contents'

theorem allocate (holding : Holding n used contents) (room : used.length < n.capacity) (value : α) :
    ∃ node n', n.allocateNode = some (node, n') ∧ Added n used value node n' := by
  have ⟨free, segment, all, raw⟩ := holding.free
  have distinct := all.nodup_iff.mpr nodup_range
  cases free with
  | nil =>
    rw [append_nil] at all
    have counted := all.length_eq
    rw [length_range] at counted
    have isNew : n.numInitialized ∉ used := fun member =>
      absurd (mem_range.mp (all.mem_iff.mp member)) (Nat.lt_irrefl _)
    refine ⟨n.numInitialized, { n with numInitialized := n.numInitialized + 1 }, ?_,
      ⟨isNew, rfl, rfl, rfl, fun used' contents' same live => ?_⟩⟩
    · rw [Nodes.allocateNode, segment]
      exact if_neg (by omega)
    · constructor
      case free =>
        refine ⟨[], segment, ?_, nofun⟩
        change (used' ++ []).Perm (List.range (n.numInitialized + 1))
        rw [append_nil, range_succ]
        exact same.trans ((List.Perm.cons _ all).trans (perm_append_singleton _ _).symm)
      case fresh =>
        intro a above
        have differs : a ≠ n.numInitialized := by
          have : n.numInitialized + 1 ≤ a := above
          omega
        simp only [Nodes.construct, update_of_ne differs]
        exact holding.fresh a (Nat.le_of_succ_le above)
      case bounded =>
        have : n.numInitialized < n.capacity := counted ▸ room
        exact this
      case live => exact live
      case proper => simp [Nodes.construct, holding.proper, holding.fresh n.numInitialized le_rfl]
  | cons node rest =>
    have isNew : node ∉ used := fun member =>
      (nodup_append.mp distinct).2.2 node member node mem_cons_self rfl
    have ⟨notRest, _⟩ := nodup_cons.mp (nodup_append.mp distinct).2.1
    refine ⟨node, { n with freeList := n.next node }, ?_,
      ⟨isNew, rfl, rfl, rfl, fun used' contents' same live => ?_⟩⟩
    · rw [Nodes.allocateNode, segment.1]
    · constructor
      case free =>
        refine ⟨rest, segment.2, ?_, ?_⟩
        · apply (same.append_right rest).trans
          apply List.Perm.trans _ all
          exact perm_middle.symm
        · intro a member
          have differs : a ≠ node := fun equal => notRest (equal ▸ member)
          simp only [Nodes.construct, update_of_ne differs]
          exact raw a (mem_cons_of_mem _ member)
      case fresh =>
        intro a above
        have differs : a ≠ node := by
          intro equal
          have inside := all.mem_iff.mp (mem_append_right used mem_cons_self)
          have below := mem_range.mp inside
          have : n.numInitialized ≤ a := above
          omega
        simp only [Nodes.construct, update_of_ne differs]
        exact holding.fresh a above
      case bounded => exact holding.bounded
      case live => exact live
      case proper => simp [Nodes.construct, holding.proper, raw node mem_cons_self]

theorem release (holding : Holding n used contents) {a : Nat} {used' : List Nat}
    {contents' : List α} (left : used.Perm (a :: used'))
    (live : used'.map n.storage = contents'.map some) :
    Holding ((n.destruct a).release a) used' contents' := by
  have ⟨free, segment, all, raw⟩ := holding.free
  have distinct := all.nodup_iff.mpr nodup_range
  have ⟨notLeft, _⟩ := nodup_cons.mp (left.nodup_iff.mp holding.nodup)
  have member : a ∈ used := left.mem_iff.mpr mem_cons_self
  have notFree : a ∉ free := fun inFree =>
    (nodup_append.mp distinct).2.2 a member a inFree rfl
  constructor
  case free =>
    refine ⟨a :: free, ⟨rfl, ?_⟩, ?_, ?_⟩
    · simp only [Nodes.release, Nodes.setNext, Nodes.destruct, update_self]
      exact segment.update notFree _
    · apply List.Perm.trans _ all
      exact perm_middle.trans (left.symm.append_right free)
    · intro b inFree
      cases inFree with
      | head => simp [Nodes.release, Nodes.setNext, Nodes.destruct]
      | tail _ later =>
        have differs : b ≠ a := fun equal => notFree (equal ▸ later)
        simp only [Nodes.release, Nodes.setNext, Nodes.destruct, update_of_ne differs]
        exact raw b later
  case fresh =>
    intro b above
    by_cases same : b = a
    · simp [Nodes.release, Nodes.setNext, Nodes.destruct, same]
    · simp only [Nodes.release, Nodes.setNext, Nodes.destruct, update_of_ne same]
      exact holding.fresh b above
  case bounded => exact holding.bounded
  case live =>
    rw [← live]
    apply map_congr_left
    intro b inLeft
    exact update_of_ne (fun same : b = a => notLeft (same ▸ inLeft)) _ _
  case proper =>
    have lives : (n.storage a).isSome := by
      have mapped : n.storage a ∈ contents.map some := holding.live ▸ mem_map_of_mem member
      have ⟨value, _, same⟩ := mem_map.mp mapped
      rw [← same]
      rfl
    simp [Nodes.release, Nodes.setNext, Nodes.destruct, holding.proper, lives]

theorem overwrite (holding : Holding n used contents) {a : Nat} (member : a ∈ used) (value : α)
    {contents' : List α}
    (live : used.map (update n.storage a (some value)) = contents'.map some) :
    Holding { n with storage := update n.storage a (some value) } used contents' where
  free := by
    have ⟨free, segment, all, raw⟩ := holding.free
    refine ⟨free, segment, all, fun b inFree => ?_⟩
    have distinct := all.nodup_iff.mpr nodup_range
    have differs : b ≠ a := ((nodup_append.mp distinct).2.2 a member b inFree).symm
    simp only [update_of_ne differs]
    exact raw b inFree
  fresh := by
    have ⟨free, _, all, _⟩ := holding.free
    intro b above
    have below := mem_range.mp (all.mem_iff.mp (mem_append_left free member))
    have differs : b ≠ a := by
      have : n.numInitialized ≤ b := above
      omega
    simp only [update_of_ne differs]
    exact holding.fresh b above
  bounded := holding.bounded
  live := live
  proper := holding.proper

theorem raw_freeList (holding : Holding n used contents) {a : Nat} (first : n.freeList = some a) :
    n.storage a = none := by
  have ⟨free, segment, _, raw⟩ := holding.free
  cases free with
  | nil => exact nomatch first.symm.trans segment
  | cons b rest =>
    have same : a = b := Option.some.inj (first.symm.trans segment.1)
    exact raw a (same ▸ mem_cons_self)

end Holding

end BoundedLists
