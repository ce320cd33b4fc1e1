import EmbeddedInfra.Util.BoundedList

/-! What each operation of a `BoundedList` does to the nodes of the list and to its contents. -/

namespace BoundedLists

open Segments List Function
open Option (bind_some map_some or_none)

variable {α : Type}

namespace BoundedList

/-- These cells are in the list, linked in both directions, and all other nodes that were handed out
are free. -/
structure Linked (l : BoundedList α) (cells : Cells α) : Prop extends
    Chained l.nodes l.firstNode cells where
  backwards : Segment l.previous l.lastNode (cells.map Prod.fst).reverse none
  count : l.numAllocated = cells.length

theorem Linked.of {l : BoundedList α} {cells : Cells α}
    (segment : Segment l.nodes.next l.firstNode (cells.map Prod.fst) none)
    (backwards : Segment l.previous l.lastNode (cells.map Prod.fst).reverse none)
    (holding : Holding l.nodes (cells.map Prod.fst) (cells.map Prod.snd))
    (count : l.numAllocated = cells.length) : Linked l cells :=
  { segment, backwards, holding, count }

def Yields (result : Option (BoundedList α)) (capacity : Nat) (cells : Cells α) : Prop :=
  ∃ l, result = some l ∧ Linked l cells ∧ l.nodes.capacity = capacity

/-- A new node is linked between two others, or at an end. -/
def link (l : BoundedList α) (left right : Option Nat) (node : Nat) (nodes : Nodes α) (value : α) :
    BoundedList α :=
  let forth := redirect (update nodes.next node right) l.firstNode left (some node)
  let back := redirect (update l.previous node left) l.lastNode right (some node)
  { nodes := { nodes.construct node value with next := forth.1 }
    previous := back.1
    numAllocated := l.numAllocated + 1
    firstNode := forth.2
    lastNode := back.2 }

/-- A node is unlinked from between two others, or from an end, and given back. -/
def unlink (l : BoundedList α) (left right : Option Nat) (node : Nat) : BoundedList α :=
  let forth := redirect l.nodes.next l.firstNode left right
  let back := redirect l.previous l.lastNode right left
  { nodes := ({ l.nodes with next := forth.1 }.destruct node).release node
    previous := back.1
    numAllocated := l.numAllocated - 1
    firstNode := forth.2
    lastNode := back.2 }

variable {l other : BoundedList α} {cells front back : Cells α} {a : Nat} {x value : α}

namespace Linked

open Chained

theorem last_eq (linked : Linked l cells) : l.lastNode = (cells.map Prod.fst).getLast? := by
  rw [linked.backwards.first_eq, or_none, head?_reverse]

theorem previous_eq (linked : Linked l (front ++ (a, x) :: back)) :
    l.previous a = (front.map Prod.fst).getLast? := by
  have backwards := linked.backwards
  rw [map_append, map_cons, reverse_append, reverse_cons, append_assoc,
    singleton_append, segment_append] at backwards
  have ⟨_, _, _, rest⟩ := backwards
  rw [rest.first_eq, or_none, head?_reverse]

theorem split_nodup (linked : Linked l (front ++ back)) :
    (front.map Prod.fst ++ back.map Prod.fst).Nodup := by
  rw [← map_append]
  exact linked.fst_nodup

theorem link (linked : Linked l (front ++ back)) (room : (front ++ back).length < l.nodes.capacity)
    (value : α) :
    ∃ node nodes, l.nodes.allocateNode = some (node, nodes) ∧ nodes.capacity = l.nodes.capacity ∧
      node ∉ (front ++ back).map Prod.fst ∧
      Linked (l.link (front.map Prod.fst).getLast? (back.map Prod.fst).head? node nodes value)
        (front ++ (node, value) :: back) := by
  have ⟨node, nodes, allocates, added⟩ := linked.holding.allocate (by simpa using room) value
  refine ⟨node, nodes, allocates, added.capacity, added.new, ?_⟩
  have new : node ∉ front.map Prod.fst ++ back.map Prod.fst := by
    rw [← map_append]
    exact added.new
  have segment := linked.segment
  have backwards := linked.backwards
  rw [map_append] at segment backwards
  rw [reverse_append] at backwards
  apply Linked.of
  · rw [map_append, map_cons]
    have same : nodes.next = l.nodes.next := added.next
    have joined := segment.insert linked.split_nodup new
    rw [or_none, ← same] at joined
    exact joined
  · have distinct : ((back.map Prod.fst).reverse ++ (front.map Prod.fst).reverse).Nodup := by
      rw [← reverse_append, nodup_reverse]
      exact linked.split_nodup
    have fresh : node ∉ (back.map Prod.fst).reverse ++ (front.map Prod.fst).reverse := by
      rw [← reverse_append, mem_reverse]
      exact new
    have joined := backwards.insert distinct fresh
    rw [or_none, head?_reverse, getLast?_reverse] at joined
    rw [map_append, map_cons, reverse_append, reverse_cons, append_assoc]
    exact joined
  · have grown : (front ++ (node, value) :: back).Perm ((node, value) :: (front ++ back)) :=
      perm_middle
    have live : ∀ cell ∈ front ++ (node, value) :: back,
        update l.nodes.storage node (some value) cell.1 = some cell.2 := by
      intro cell member
      cases grown.mem_iff.mp member with
      | head => exact update_self _ _ _
      | tail _ before =>
        have differs : cell.1 ≠ node := fun same =>
          added.new (same ▸ mem_map_of_mem before)
        rw [update_of_ne differs]
        exact linked.live before
    have holding := added.holds _ _ (grown.map Prod.fst) (live_iff.mpr live)
    refine (holding.setNext ?_ _).redirect ?_ _ _
    · simp
    · intro b isLast
      have inFront := mem_of_getLast? isLast
      rw [map_append]
      exact mem_append_left _ inFront
  · have count := linked.count
    rw [length_append] at count
    rw [length_append, length_cons]
    exact congrArg (· + 1) count

theorem unlink (linked : Linked l (front ++ (a, x) :: back)) :
    Linked (l.unlink (front.map Prod.fst).getLast? (back.map Prod.fst).head? a) (front ++ back) := by
  have distinct := linked.split_nodup
  rw [map_cons] at distinct
  have ⟨notLeft, _⟩ := nodup_cons.mp (perm_middle.nodup_iff.mp distinct)
  have segment := linked.segment
  have backwards := linked.backwards
  rw [map_append, map_cons] at segment backwards
  rw [reverse_append, reverse_cons, append_assoc, singleton_append] at backwards
  apply Linked.of
  · rw [map_append]
    have left := segment.remove distinct
    rw [or_none] at left
    exact left.update notLeft _
  · have apart : ((back.map Prod.fst).reverse ++ a :: (front.map Prod.fst).reverse).Nodup := by
      have turned := nodup_reverse.mpr distinct
      rw [reverse_append, reverse_cons, append_assoc, singleton_append] at turned
      exact turned
    have left := backwards.remove apart
    rw [or_none, head?_reverse, getLast?_reverse] at left
    rw [map_append, reverse_append]
    exact left
  · have moved : ((front ++ (a, x) :: back).map Prod.fst).Perm (a :: (front ++ back).map Prod.fst) :=
      perm_middle.map Prod.fst
    have inUse : ∀ b ∈ (front.map Prod.fst).getLast?, b ∈ (front ++ (a, x) :: back).map Prod.fst := by
      intro b isLast
      rw [map_append]
      exact mem_append_left _ (mem_of_getLast? isLast)
    have kept : Holding { l.nodes with next := _ } _ _ :=
      linked.holding.redirect inUse l.firstNode (back.map Prod.fst).head?
    apply kept.release moved
    apply live_iff.mpr
    intro cell member
    apply linked.live
    rcases mem_append.mp member with inFront | inBack
    · exact mem_append_left _ inFront
    · exact mem_append_right _ (mem_cons_of_mem _ inBack)
  · have count := linked.count
    rw [length_append, length_cons] at count
    rw [length_append]
    exact congrArg (· - 1) count

theorem pushFront (linked : Linked l cells) (room : cells.length < l.nodes.capacity) (value : α) :
    ∃ node, Yields (l.pushFront value) l.nodes.capacity ((node, value) :: cells) := by
  have all : Linked l ([] ++ cells) := linked
  have ⟨node, nodes, allocates, capacity, _, linked'⟩ := all.link room value
  refine ⟨node, _, ?_, linked', capacity⟩
  rw [BoundedList.pushFront, allocates, linked.first_eq]
  cases (cells.map Prod.fst).head? <;> rfl

theorem pushBack (linked : Linked l cells) (room : cells.length < l.nodes.capacity) (value : α) :
    ∃ node, Yields (l.pushBack value) l.nodes.capacity (cells ++ [(node, value)]) := by
  have all : Linked l (cells ++ []) := (append_nil cells).symm ▸ linked
  have ⟨node, nodes, allocates, capacity, _, linked'⟩ :=
    all.link (by rwa [append_nil]) value
  refine ⟨node, _, ?_, linked', capacity⟩
  rw [BoundedList.pushBack, allocates, linked.last_eq]
  cases (cells.map Prod.fst).getLast? <;> rfl

theorem insert (linked : Linked l (front ++ back))
    (room : (front ++ back).length < l.nodes.capacity) (value : α) :
    ∃ node, Yields (l.insert (back.map Prod.fst).head? value) l.nodes.capacity
      (front ++ (node, value) :: back) := by
  cases back with
  | nil =>
    rw [append_nil] at linked room
    exact linked.pushBack room value
  | cons cell rest =>
    have ⟨node, nodes, allocates, capacity, _, linked'⟩ := linked.link room value
    refine ⟨node, _, ?_, linked', capacity⟩
    have isPrevious := linked.previous_eq (a := cell.1) (x := cell.2)
    rw [map_cons, head?_cons, BoundedList.insert, allocates, isPrevious]
    cases (front.map Prod.fst).getLast? <;> rfl

theorem erase (linked : Linked l (front ++ (a, x) :: back)) :
    Yields (l.erase (some a)) l.nodes.capacity (front ++ back) := by
  refine ⟨_, ?_, linked.unlink, rfl⟩
  rw [BoundedList.erase, map_some, linked.previous_eq, linked.next_eq]
  cases (front.map Prod.fst).getLast? <;> cases (back.map Prod.fst).head? <;> rfl

theorem popFront (linked : Linked l ((a, x) :: cells)) :
    Yields l.popFront l.nodes.capacity cells := by
  have all : Linked l ([] ++ (a, x) :: cells) := linked
  have first : l.firstNode = some a := linked.first_eq
  refine ⟨_, ?_, all.unlink, rfl⟩
  rw [BoundedList.popFront, first, map_some, all.next_eq]
  cases (cells.map Prod.fst).head? <;> rfl

theorem popBack (linked : Linked l (cells ++ [(a, x)])) :
    Yields l.popBack l.nodes.capacity cells := by
  have last : l.lastNode = some a := by simp [linked.last_eq]
  have left := linked.unlink
  rw [append_nil] at left
  refine ⟨_, ?_, left, rfl⟩
  rw [BoundedList.popBack, last, map_some, linked.previous_eq]
  cases (cells.map Prod.fst).getLast? <;> rfl

variable {fuel : Nat} {rest cells' : Cells α}

theorem popAll (linked : Linked l cells) (enough : cells.length ≤ fuel) :
    Yields (l.popAll fuel) l.nodes.capacity [] := by
  induction cells using List.reverseRecOn generalizing l fuel with
  | nil =>
    refine ⟨l, ?_, linked, rfl⟩
    cases fuel <;> exact if_pos linked.count
  | append_singleton rest cell ih =>
    rw [length_append, length_singleton] at enough
    cases fuel with
    | zero => exact absurd enough (Nat.not_succ_le_zero _)
    | succ fuel =>
      have notEmpty : l.numAllocated ≠ 0 := by simp [linked.count]
      have ⟨l', pops, left, capacity⟩ := linked.popBack
      rw [BoundedList.popAll, if_neg notEmpty, pops, bind_some, ← capacity]
      exact ih left (Nat.le_of_succ_le_succ enough)

theorem clear (linked : Linked l cells) : Yields l.clear l.nodes.capacity [] :=
  linked.popAll (linked.length_le.trans (Nat.le_succ _))

theorem pushAll (linked : Linked l cells) {values : List α}
    (room : cells.length + values.length ≤ l.nodes.capacity) :
    ∃ new, Yields (l.pushAll values) l.nodes.capacity (cells ++ new) ∧ new.map Prod.snd = values := by
  induction values generalizing l cells with
  | nil => exact ⟨[], ⟨l, rfl, (append_nil cells).symm ▸ linked, rfl⟩, rfl⟩
  | cons value rest ih =>
    rw [length_cons] at room
    have ⟨node, l', pushes, pushed, capacity⟩ := linked.pushBack (by omega) value
    have ⟨new, yields, contents⟩ := ih pushed (by
      rw [capacity, length_append, length_singleton]
      omega)
    refine ⟨(node, value) :: new, ?_, by rw [map_cons, contents]⟩
    rw [BoundedList.pushAll, pushes, bind_some, ← capacity]
    rw [append_assoc] at yields
    exact yields

theorem assign (linked : Linked l cells) {values : List α}
    (room : values.length ≤ l.nodes.capacity) :
    ∃ new, Yields (l.assign values) l.nodes.capacity new ∧ new.map Prod.snd = values := by
  have ⟨cleared, clears, empty, capacity⟩ := linked.clear
  have fits : ([] : Cells α).length + values.length ≤ cleared.nodes.capacity := by
    rw [capacity, length_nil]
    omega
  rw [BoundedList.assign, clears, bind_some, ← capacity]
  exact empty.pushAll fits

theorem releaseAll (kept : Cells α) (enough : cells.length ≤ fuel) {pointer : Option Nat}
    (segment : Segment l.nodes.next l.firstNode (kept.map Prod.fst) none)
    (backwards : Segment l.previous l.lastNode (kept.map Prod.fst).reverse none)
    (dropped : Segment l.nodes.next pointer (cells.map Prod.fst) none)
    (holding : Holding l.nodes ((kept ++ cells).map Prod.fst) ((kept ++ cells).map Prod.snd))
    (count : l.numAllocated = (kept ++ cells).length) :
    Yields (l.releaseAll fuel pointer) l.nodes.capacity kept := by
  induction cells generalizing l fuel pointer with
  | nil =>
    have nothing : pointer = none := dropped
    rw [append_nil] at holding count
    refine ⟨l, ?_, .of segment backwards holding count, rfl⟩
    cases fuel <;> rw [nothing, BoundedList.releaseAll]
  | cons cell rest ih =>
    cases fuel with
    | zero => exact absurd enough (Nat.not_succ_le_zero _)
    | succ fuel =>
      have moved : ((kept ++ cell :: rest).map Prod.fst).Perm
          (cell.1 :: (kept ++ rest).map Prod.fst) := perm_middle.map Prod.fst
      have ⟨notLeft, _⟩ := nodup_cons.mp (moved.nodup_iff.mp holding.nodup)
      rw [map_append, mem_append, not_or] at notLeft
      rw [dropped.1, BoundedList.releaseAll]
      refine ih (Nat.le_of_succ_le_succ enough) (segment.update notLeft.1 _) backwards
        (dropped.2.update notLeft.2 _) ?_ ?_
      · apply holding.release moved
        apply live_iff.mpr
        intro other member
        apply live_iff.mp holding.live
        rcases mem_append.mp member with inKept | inRest
        · exact mem_append_left _ inKept
        · exact mem_append_right _ (mem_cons_of_mem _ inRest)
      · simp [count]

theorem eraseAllAfter (linked : Linked l (front ++ (a, x) :: back)) :
    Yields (l.eraseAllAfter (some a)) l.nodes.capacity (front ++ [(a, x)]) := by
  have shape : front ++ (a, x) :: back = (front ++ [(a, x)]) ++ back := by simp
  have isNext := linked.next_eq
  have holding := linked.holding.setNext (a := a) (mem_map.mpr ⟨(a, x), by simp, rfl⟩) none
  have count := linked.count
  have segment := linked.segment
  have backwards := linked.backwards
  have distinct := linked.fst_nodup
  rw [shape, map_append] at segment distinct
  rw [shape] at holding count
  rw [map_append, map_cons, reverse_append, reverse_cons, append_assoc,
    singleton_append, segment_append] at backwards
  have ⟨middle, before, after⟩ := segment_append.mp segment
  have isMiddle : middle = (back.map Prod.fst).head? := by rw [after.first_eq, or_none]
  have ⟨_, _, _, toFront⟩ := backwards
  have last : ((front ++ [(a, x)]).map Prod.fst).getLast? = some a := by simp
  have ends := before.redirected (nodup_append.mp distinct).1 none
  have aside := after.redirected_other l.firstNode (getLast?_outside distinct) none
  rw [last] at ends aside
  rw [BoundedList.eraseAllAfter, bind_some]
  refine releaseAll
    (l := { l with nodes := l.nodes.setNext a none, lastNode := some a }) (front ++ [(a, x)])
    ?_ ends ?_ ?_ holding count
  · have total := linked.length_le
    rw [shape, length_append] at total
    exact Nat.le_trans (Nat.le_trans (Nat.le_add_left _ _) total) (Nat.le_succ _)
  · rw [map_append, reverse_append]
    exact ⟨rfl, toFront⟩
  · rw [isNext, ← isMiddle]
    exact aside

theorem iterate_eq (linked : Linked l cells) : l.iterate = some (cells.map Prod.snd) := by
  have all : Chained l.nodes l.firstNode ([] ++ cells) := linked.toChained
  rw [iterate, begin, linked.first_eq]
  exact all.elements_eq (linked.length_le.trans (Nat.le_succ _))

theorem retreat_eq (linked : Linked l (front ++ back)) :
    l.retreat (back.map Prod.fst).head? = (front.map Prod.fst).getLast? := by
  cases back with
  | nil =>
    rw [append_nil] at linked
    exact linked.last_eq
  | cons cell rest => exact linked.previous_eq (x := cell.2)

theorem elementsBack_eq (linked : Linked l (front ++ back)) (enough : front.length ≤ fuel) :
    l.elementsBack fuel (back.map Prod.fst).head? = some (front.map Prod.snd).reverse := by
  induction front using List.reverseRecOn generalizing back fuel with
  | nil =>
    have first : l.firstNode = (back.map Prod.fst).head? := linked.first_eq
    cases fuel <;> exact if_pos first.symm
  | append_singleton front cell ih =>
    rw [length_append, length_singleton] at enough
    cases fuel with
    | zero => exact absurd enough (Nat.not_succ_le_zero _)
    | succ fuel =>
      have shape : front ++ [cell] ++ back = front ++ cell :: back := by simp
      have notBegin : (back.map Prod.fst).head? ≠ l.begin := by
        intro same
        have outside := getLast?_outside linked.split_nodup
        rw [begin, linked.first_eq] at same
        cases back with
        | nil => simp at same
        | cons second more =>
          have first : ((front ++ [cell] ++ second :: more).map Prod.fst).head? =
              ((front ++ [cell]).map Prod.fst).head? := by cases front <;> rfl
          rw [first] at same
          have member : second.1 ∈ (front ++ [cell]).map Prod.fst :=
            mem_of_head? same.symm
          have distinct := linked.split_nodup
          exact (nodup_append.mp distinct).2.2 second.1 member second.1
            mem_cons_self rfl
      have live := linked.live (show cell ∈ front ++ [cell] ++ back by simp)
      have back_ := linked.retreat_eq
      have last : ((front ++ [cell]).map Prod.fst).getLast? = some cell.1 := by simp
      have later := ih (shape ▸ linked) (Nat.le_of_succ_le_succ enough)
      rw [map_cons, head?_cons] at later
      rw [elementsBack, if_neg notBegin, back_, last, bind_some, live, bind_some,
        later, map_append, reverse_append]
      rfl

theorem iterateBack_eq (linked : Linked l cells) :
    l.iterateBack = some (cells.map Prod.snd).reverse := by
  have all : Linked l (cells ++ []) := (append_nil cells).symm ▸ linked
  exact all.elementsBack_eq (linked.length_le.trans (Nat.le_succ _))

theorem empty (capacity : Nat) : Linked (BoundedList.empty capacity : BoundedList α) [] :=
  .of rfl rfl (Holding.initial capacity) rfl

theorem pushSurplus {passed : Cells α} (linked : Linked l cells)
    (source : Linked other (passed ++ rest)) (room : cells.length + rest.length ≤ l.nodes.capacity)
    (enough : rest.length ≤ fuel) :
    ∃ new, Yields (l.pushSurplus other fuel (rest.map Prod.fst).head?) l.nodes.capacity
      (cells ++ new) ∧ new.map Prod.snd = rest.map Prod.snd := by
  induction rest generalizing l cells passed fuel with
  | nil =>
    refine ⟨[], ⟨l, ?_, (append_nil cells).symm ▸ linked, rfl⟩, rfl⟩
    cases fuel <;> rfl
  | cons cell rest ih =>
    cases fuel with
    | zero => exact absurd enough (Nat.not_succ_le_zero _)
    | succ fuel =>
      rw [length_cons] at room
      have live := source.live (show cell ∈ passed ++ cell :: rest by simp)
      have sourceNext := source.next_eq (a := cell.1) (x := cell.2)
      have ⟨node, l', pushes, pushed, capacity⟩ := linked.pushBack (by omega) cell.2
      have shifted : passed ++ cell :: rest = (passed ++ [cell]) ++ rest := by simp
      have ⟨new, yields, contents⟩ := ih pushed (shifted ▸ source) (by
        rw [capacity, length_append, length_singleton]
        omega) (Nat.le_of_succ_le_succ enough)
      refine ⟨(node, cell.2) :: new, ?_, by rw [map_cons, map_cons, contents]⟩
      rw [map_cons, head?_cons, BoundedList.pushSurplus, live, bind_some, pushes,
        bind_some, sourceNext, ← capacity]
      rw [append_assoc] at yields
      exact yields

theorem moveSurplus (linked : Linked l (front ++ [(a, x)] ++ rest)) (linked' : Linked other cells')
    (room : cells'.length + rest.length ≤ other.nodes.capacity) :
    ∃ l' other' new, l.moveSurplus other (rest.map Prod.fst).head? (some a) = some (l', other') ∧
      Linked l' (front ++ [(a, x)]) ∧ Linked other' (cells' ++ new) ∧
      new.map Prod.snd = rest.map Prod.snd ∧
      l'.nodes.capacity = l.nodes.capacity ∧ other'.nodes.capacity = other.nodes.capacity := by
  cases rest with
  | nil =>
    exact ⟨l, other, [], rfl, by simpa using linked, by simpa using linked', rfl, rfl, rfl⟩
  | cons cell rest =>
    have enough : (cell :: rest).length ≤ l.nodes.passes := by
      have total := linked.length_le
      rw [length_append] at total
      exact (Nat.le_trans (Nat.le_add_left _ _) total).trans (Nat.le_succ _)
    have ⟨new, ⟨other', pushes, grown, capacity'⟩, contents⟩ :=
      linked'.pushSurplus linked room enough
    have shape : front ++ [(a, x)] ++ cell :: rest = front ++ (a, x) :: (cell :: rest) := by simp
    have ⟨l', erases, left, capacity⟩ := eraseAllAfter (shape ▸ linked)
    refine ⟨l', other', new, ?_, left, grown, contents, capacity, capacity'⟩
    rw [BoundedList.moveSurplus, if_neg nofun, pushes, bind_some, erases]
    rfl

theorem exchanged {others : Cells α} (linked : Linked l cells) {nodes : Nodes α}
    (chained : Chained nodes l.firstNode
      (withValues cells others ++ cells.drop others.length)) :
    Linked { l with nodes } (withValues cells others ++ cells.drop others.length) where
  toChained := chained
  backwards := by
    rw [withValues_fst]
    exact linked.backwards
  count := by
    have same := congrArg List.length (withValues_fst cells others)
    rw [length_map, length_map] at same
    exact linked.count.trans same.symm

theorem swap (linked : Linked l cells) (linked' : Linked other cells')
    (together : cells = [] ↔ cells' = []) (room : cells'.length ≤ l.nodes.capacity)
    (room' : cells.length ≤ other.nodes.capacity) :
    ∃ l' other' left left', l.swap other = some (l', other') ∧
      Linked l' left ∧ left.map Prod.snd = cells'.map Prod.snd ∧
      Linked other' left' ∧ left'.map Prod.snd = cells.map Prod.snd ∧
      l'.nodes.capacity = l.nodes.capacity ∧ other'.nodes.capacity = other.nodes.capacity := by
  have all : Chained l.nodes l.firstNode ([] ++ cells) := linked.toChained
  have all' : Chained other.nodes other.firstNode ([] ++ cells') := linked'.toChained
  have enough : cells.length ≤ l.nodes.passes := linked.length_le.trans (Nat.le_succ _)
  have ⟨nodes, nodes', common, chained, chained', capacity, capacity'⟩ :=
    all.swapCommon all' enough none none
  rw [← linked.first_eq, ← linked'.first_eq] at common
  rw [nil_append] at chained chained'
  rw [BoundedList.swap, begin, begin, common, bind_some, ← capacity, ← capacity']
  refine swapped (fun l : BoundedList α => l.nodes.capacity)
    (fun l other i1 i1old _ => l.moveSurplus other i1 i1old) (fun _ _ _ _ => rfl)
    (fun linked linked' room => moveSurplus linked linked' ?_)
    (linked.exchanged chained) (linked'.exchanged chained') together (capacity ▸ room) (capacity' ▸ room')
  rwa [length_append, length_singleton]

theorem moveSurplus_none {cell : Nat × α} (linked : Linked l (cell :: rest)) :
    l.moveSurplus other l.firstNode none = none := by
  have first : l.firstNode = some cell.1 := linked.first_eq
  rw [BoundedList.moveSurplus, first, if_neg nofun]
  cases other.pushSurplus l l.nodes.passes (some cell.1) <;> rfl

theorem swap_none (linked : Linked l cells) (linked' : Linked other cells')
    (apart : ¬(cells = [] ↔ cells' = [])) : l.swap other = none := by
  cases cells with
  | nil =>
    cases cells' with
    | nil => exact absurd Iff.rfl apart
    | cons cell rest =>
      have first : l.firstNode = none := linked.first_eq
      have fails : ∀ l, other.moveSurplus l other.firstNode none = none := fun _ =>
        linked'.moveSurplus_none
      rw [BoundedList.swap, begin, first, Nodes.passes, Nodes.swapCommon, bind_some]
      dsimp only
      rw [BoundedList.moveSurplus, if_pos rfl, bind_some]
      exact congrArg (Option.map _) (fails _)
  | cons cell rest =>
    cases cells' with
    | nil =>
      obtain ⟨nodes, previous, numAllocated, firstNode, lastNode⟩ := l
      have first : firstNode = some cell.1 := linked.first_eq
      have first' : other.firstNode = none := linked'.first_eq
      subst first
      have fails : ∀ other : BoundedList α, BoundedList.moveSurplus _ other _ none = none :=
        fun _ => linked.moveSurplus_none
      rw [BoundedList.swap, begin, begin, first', Nodes.passes, Nodes.swapCommon,
        bind_some]
      · exact congrArg (Option.bind · _) (fails _)
      · intros
        contradiction
    | cons cell' rest' => exact absurd (iff_of_false (by simp) (by simp)) apart

end Linked

end BoundedList

end BoundedLists
