import EmbeddedInfra.Util.BoundedForwardList

/-! What each operation of a `BoundedForwardList` does to the nodes of the list and to its contents. -/

namespace BoundedLists

open Segments List Function
open Option (bind_some)

variable {α : Type}

namespace BoundedForwardList

/-- These cells are in the list, and all other nodes that were handed out are free. -/
structure Linked (l : BoundedForwardList α) (cells : Cells α) : Prop extends
    Chained l.nodes l.firstNode cells where
  count : l.numAllocated = cells.length

theorem Linked.of {l : BoundedForwardList α} {cells : Cells α}
    (segment : Segment l.nodes.next l.firstNode (cells.map Prod.fst) none)
    (holding : Holding l.nodes (cells.map Prod.fst) (cells.map Prod.snd))
    (count : l.numAllocated = cells.length) : Linked l cells := { segment, holding, count }

def Yields (result : Option (BoundedForwardList α)) (capacity : Nat) (cells : Cells α) : Prop :=
  ∃ l, result = some l ∧ Linked l cells ∧ l.nodes.capacity = capacity

variable {l other : BoundedForwardList α} {cells front back : Cells α} {a : Nat} {x value : α}

namespace Linked

open Chained

theorem iterate_eq (linked : Linked l cells) : l.iterate = some (cells.map Prod.snd) := by
  rw [iterate, begin, linked.first_eq]
  have all : Linked l ([] ++ cells) := linked
  exact all.elements_eq (linked.length_le.trans (Nat.le_succ _))

theorem empty (capacity : Nat) : Linked (BoundedForwardList.empty capacity : BoundedForwardList α) []
    where
  segment := rfl
  holding := Holding.initial capacity
  count := rfl

theorem pushFront (linked : Linked l cells) (room : cells.length < l.nodes.capacity) (value : α) :
    ∃ node, Yields (l.pushFront value) l.nodes.capacity ((node, value) :: cells) := by
  have ⟨node, nodes, allocates, added⟩ := linked.holding.allocate (by simpa using room) value
  rw [BoundedForwardList.pushFront, allocates]
  refine ⟨node, _, rfl, ?_, added.capacity⟩
  have others : ∀ cell ∈ cells, cell.1 ≠ node := fun cell member same =>
    added.new (same ▸ mem_map_of_mem member)
  have holding : Holding (nodes.construct node value) (((node, value) :: cells).map Prod.fst)
      (((node, value) :: cells).map Prod.snd) := by
    have live : ∀ cell ∈ (node, value) :: cells,
        update l.nodes.storage node (some value) cell.1 = some cell.2 := by
      intro cell member
      cases member with
      | head => exact update_self _ _ _
      | tail _ later =>
        rw [update_of_ne (others cell later)]
        exact linked.live later
    exact added.holds _ _ (List.Perm.refl _) (live_iff.mpr live)
  apply Linked.of
  · refine ⟨rfl, ?_⟩
    simp only [Nodes.setNext, update_self]
    have same : (nodes.construct node value).next = l.nodes.next := added.next
    rw [same]
    exact linked.segment.update added.new _
  · exact holding.setNext mem_cons_self _
  · simp [linked.count]

theorem popFront (linked : Linked l ((a, x) :: cells)) :
    Yields l.popFront l.nodes.capacity cells := by
  have first : l.firstNode = some a := linked.first_eq
  rw [Yields, BoundedForwardList.popFront, first]
  refine ⟨_, rfl, ?_, rfl⟩
  have ⟨notIn, _⟩ := nodup_cons.mp linked.fst_nodup
  apply Linked.of
  · exact linked.segment.2.update notIn _
  · apply linked.holding.release (List.Perm.refl _)
    exact live_iff.mpr fun cell member => linked.live (mem_cons_of_mem _ member)
  · simp [linked.count]

theorem insertAfter (linked : Linked l (front ++ (a, x) :: back))
    (room : (front ++ (a, x) :: back).length < l.nodes.capacity) (value : α) :
    ∃ node l', l.insertAfter (some a) value = some l' ∧
      Linked l' (front ++ (a, x) :: (node, value) :: back) ∧
        l'.nodes.capacity = l.nodes.capacity ∧ l'.nodes.next a = some node := by
  have ⟨node, nodes, allocates, added⟩ := linked.holding.allocate (by simpa using room) value
  rw [BoundedForwardList.insertAfter, allocates]
  refine ⟨node, _, rfl, ?_, added.capacity, update_self _ _ _⟩
  have new : ∀ cell ∈ front ++ (a, x) :: back, cell.1 ≠ node := fun cell member same =>
    added.new (same ▸ mem_map_of_mem member)
  have distinct := linked.fst_nodup
  rw [map_append, map_cons] at distinct
  have ⟨notFront, notBack⟩ : a ∉ front.map Prod.fst ∧ a ∉ back.map Prod.fst := by
    have ⟨_, rest, apart⟩ := nodup_append.mp distinct
    refine ⟨fun member => apart a member a mem_cons_self rfl, ?_⟩
    exact (nodup_cons.mp rest).1
  have newFront : node ∉ front.map Prod.fst := fun member => by
    have ⟨cell, inFront, same⟩ := mem_map.mp member
    exact new cell (mem_append_left _ inFront) same
  have newBack : node ∉ back.map Prod.fst := fun member => by
    have ⟨cell, inBack, same⟩ := mem_map.mp member
    exact new cell (mem_append_right _ (mem_cons_of_mem _ inBack)) same
  have differs : a ≠ node := new (a, x) (by simp)
  have grown : (front ++ (a, x) :: (node, value) :: back).Perm
      ((node, value) :: (front ++ (a, x) :: back)) := by
    have moved : front ++ (a, x) :: (node, value) :: back =
        (front ++ [(a, x)]) ++ (node, value) :: back := by simp
    rw [moved]
    exact perm_middle.trans (by simp)
  apply Linked.of
  · rw [map_append, segment_append]
    have before := linked.segment
    rw [map_append, segment_append] at before
    have ⟨middle, first, here, rest⟩ := before
    have same : (nodes.construct node value).next = l.nodes.next := added.next
    refine ⟨middle, (?_ : Segment _ _ _ _), here, ?_, ?_⟩
    · simp only [Nodes.setNext, same]
      exact (first.update newFront _).update notFront _
    · exact update_self _ _ _
    · simp only [Nodes.setNext, same, update_of_ne (Ne.symm differs), update_self,
        added.next]
      exact (rest.update newBack _).update notBack _
  · have live : ∀ cell ∈ front ++ (a, x) :: (node, value) :: back,
        update l.nodes.storage node (some value) cell.1 = some cell.2 := by
      intro cell member
      cases grown.mem_iff.mp member with
      | head => exact update_self _ _ _
      | tail _ before =>
        rw [update_of_ne (new cell before)]
        exact linked.live before
    have holding := added.holds _ _ (grown.map Prod.fst) (live_iff.mpr live)
    refine (holding.setNext ?_ _).setNext ?_ _
    · exact mem_map.mpr ⟨(node, value), by simp, rfl⟩
    · exact mem_map.mpr ⟨(a, x), by simp, rfl⟩
  · have count := linked.count
    simp only [length_append, length_cons] at count ⊢
    exact congrArg (· + 1) count

variable {fuel : Nat} {rest cells' : Cells α}

theorem releaseAll (kept : Cells α) (enough : cells.length ≤ fuel) {pointer : Option Nat}
    (segment : Segment l.nodes.next l.firstNode (kept.map Prod.fst) none)
    (dropped : Segment l.nodes.next pointer (cells.map Prod.fst) none)
    (holding : Holding l.nodes ((kept ++ cells).map Prod.fst) ((kept ++ cells).map Prod.snd))
    (count : l.numAllocated = (kept ++ cells).length) :
    Yields (l.releaseAll fuel pointer) l.nodes.capacity kept := by
  induction cells generalizing l fuel pointer with
  | nil =>
    have nothing : pointer = none := dropped
    rw [append_nil] at holding count
    refine ⟨l, ?_, .of segment holding count, rfl⟩
    cases fuel <;> rw [nothing, BoundedForwardList.releaseAll]
  | cons cell rest ih =>
    cases fuel with
    | zero => exact absurd enough (Nat.not_succ_le_zero _)
    | succ fuel =>
      have distinct := holding.nodup
      have moved : ((kept ++ cell :: rest).map Prod.fst).Perm
          (cell.1 :: (kept ++ rest).map Prod.fst) := perm_middle.map Prod.fst
      have ⟨notLeft, _⟩ := nodup_cons.mp (moved.nodup_iff.mp distinct)
      rw [map_append, mem_append, not_or] at notLeft
      rw [dropped.1, BoundedForwardList.releaseAll]
      refine ih (Nat.le_of_succ_le_succ enough) (segment.update notLeft.1 _)
        (dropped.2.update notLeft.2 _) ?_ ?_
      · apply holding.release moved
        apply live_iff.mpr
        intro other member
        apply live_iff.mp holding.live
        rcases mem_append.mp member with inKept | inRest
        · exact mem_append_left _ inKept
        · exact mem_append_right _ (mem_cons_of_mem _ inRest)
      · simp [count]

theorem eraseAllAfter (linked : Linked l (front ++ (a, x) :: back)) :
    Yields (l.eraseAllAfter (some a)) l.nodes.capacity (front ++ [(a, x)]) := by
  have shape : front ++ (a, x) :: back = (front ++ [(a, x)]) ++ back := by simp
  have holding := linked.holding.setNext (a := a) (mem_map.mpr ⟨(a, x), by simp, rfl⟩) none
  have count := linked.count
  have segment := linked.segment
  have distinct := linked.fst_nodup
  rw [shape] at holding count segment distinct
  rw [map_append, segment_append] at segment
  have ⟨middle, before, after⟩ := segment
  have isNext : l.nodes.next a = middle := by
    rw [map_append] at before
    exact (segment_snoc.mp before).2
  have ⟨frontNodup, _, apart⟩ := nodup_append.mp (map_append ▸ distinct)
  have notBack : a ∉ back.map Prod.fst := fun member =>
    apart a (by simp) a member rfl
  have notFront : a ∉ front.map Prod.fst := fun member => by
    rw [map_append] at frontNodup
    exact (nodup_append.mp frontNodup).2.2 a member a (by simp) rfl
  rw [BoundedForwardList.eraseAllAfter, bind_some]
  refine releaseAll (l := { l with nodes := l.nodes.setNext a none }) (front ++ [(a, x)]) ?_ ?_ ?_
    holding count
  · have total := linked.length_le
    rw [shape, length_append] at total
    exact Nat.le_trans (Nat.le_trans (Nat.le_add_left _ _) total) (Nat.le_succ _)
  · rw [map_append] at before ⊢
    exact before.redirect notFront none
  · rw [isNext]
    exact after.update notBack _

theorem popAll (linked : Linked l cells) (enough : cells.length ≤ fuel) :
    Yields (l.popAll fuel) l.nodes.capacity [] := by
  induction cells generalizing l fuel with
  | nil =>
    have first : l.firstNode = none := linked.segment
    refine ⟨l, ?_, linked, rfl⟩
    cases fuel <;> rw [BoundedForwardList.popAll, if_pos first]
  | cons cell rest ih =>
    cases fuel with
    | zero => exact absurd enough (Nat.not_succ_le_zero _)
    | succ fuel =>
      have first : l.firstNode ≠ none := by
        rw [linked.first_eq]
        exact nofun
      have ⟨l', pops, left, capacity⟩ := linked.popFront
      rw [BoundedForwardList.popAll, if_neg first, pops, bind_some, ← capacity]
      exact ih left (Nat.le_of_succ_le_succ enough)

theorem clear (linked : Linked l cells) : Yields l.clear l.nodes.capacity [] :=
  linked.popAll (linked.length_le.trans (Nat.le_succ _))

theorem eraseSlow_broken (linked : Linked l cells) {node : Nat} (member : node ∈ cells.map Prod.fst)
    {l' : BoundedForwardList α} (erases : l.eraseSlow (some node) = some l') (left : Cells α) :
    ¬Linked l' left := by
  intro broken
  have ⟨cell, inCells, same⟩ := mem_map.mp member
  have live := linked.live inCells
  have kept : l'.nodes.freeList = some node ∧ l'.nodes.storage = l.nodes.storage := by
    rw [eraseSlow, bind_some] at erases
    dsimp only at erases
    split at erases
    · rw [← Option.some.inj erases]
      exact ⟨rfl, rfl⟩
    · have ⟨previous, _, result⟩ := Option.map_eq_some_iff.mp erases
      rw [← result]
      exact ⟨rfl, rfl⟩
  have raw := broken.holding.raw_freeList kept.1
  rw [kept.2, ← same, live] at raw
  exact nomatch raw

theorem assignRest {values : List α} (linked : Linked l (front ++ [(a, x)]))
    (room : front.length + 1 + values.length ≤ l.nodes.capacity) :
    ∃ cells, Yields (l.assignLoop values (some a)) l.nodes.capacity (front ++ [(a, x)] ++ cells) ∧
      cells.map Prod.snd = values := by
  induction values generalizing l front a x with
  | nil => exact ⟨[], ⟨l, rfl, by simpa using linked, rfl⟩, rfl⟩
  | cons value rest ih =>
    have notEmpty : l.numAllocated ≠ 0 := by
      rw [linked.count]
      simp
    rw [length_cons] at room
    have ⟨node, l', inserts, grown, capacity, next⟩ :=
      insertAfter linked (by simp only [length_append, length_singleton]; omega) value
    have shape : front ++ [(a, x), (node, value)] = (front ++ [(a, x)]) ++ [(node, value)] := by simp
    have ⟨cells, yields, contents⟩ := ih (shape ▸ grown) (by
      rw [capacity, length_append, length_singleton]
      omega)
    refine ⟨(node, value) :: cells, ?_, by rw [map_cons, contents]⟩
    have step : l'.nodes.advance 1 (some a) = some node := next
    rw [assignLoop, if_neg notEmpty, inserts, bind_some, step, ← capacity]
    simpa using yields

theorem assign (linked : Linked l cells) {values : List α}
    (room : values.length ≤ l.nodes.capacity) :
    ∃ cells, Yields (l.assign values) l.nodes.capacity cells ∧ cells.map Prod.snd = values := by
  have ⟨cleared, clears, empty, capacity⟩ := linked.clear
  rw [BoundedForwardList.assign, clears, bind_some]
  cases values with
  | nil => exact ⟨[], ⟨cleared, rfl, empty, capacity⟩, rfl⟩
  | cons value rest =>
    rw [length_cons] at room
    have ⟨node, first, pushes, pushed, kept⟩ := empty.pushFront (by simp; omega) value
    have alone : Linked first ([] ++ [(node, value)]) := pushed
    have left : ([] : Cells α).length + 1 + rest.length ≤ first.nodes.capacity := by
      rw [kept, capacity, length_nil]
      omega
    have ⟨cells, yields, contents⟩ := alone.assignRest left
    refine ⟨(node, value) :: cells, ?_, by rw [map_cons, contents]⟩
    have isEmpty : cleared.numAllocated = 0 := empty.count
    have begins : first.begin = some node := pushed.first_eq
    rw [assignLoop, if_pos isEmpty, pushes, bind_some, begins]
    rw [kept, capacity] at yields
    exact yields

theorem pushTimes (linked : Linked l cells) (value : α) {count : Nat}
    (room : count + cells.length ≤ l.nodes.capacity) :
    ∃ new, Yields (l.pushTimes value count) l.nodes.capacity (new ++ cells) ∧
      new.map Prod.snd = List.replicate count value := by
  induction count generalizing l cells with
  | zero => exact ⟨[], ⟨l, rfl, linked, rfl⟩, rfl⟩
  | succ count ih =>
    have ⟨node, l', pushes, pushed, capacity⟩ := linked.pushFront (by omega) value
    have ⟨new, yields, contents⟩ := ih pushed (by rw [capacity, length_cons]; omega)
    refine ⟨new ++ [(node, value)], ?_, ?_⟩
    · rw [BoundedForwardList.pushTimes, pushes, bind_some, ← capacity]
      simpa using yields
    · rw [map_append, contents, replicate_succ']
      rfl

theorem assignTimes (linked : Linked l cells) {count : Nat} (room : count ≤ l.nodes.capacity)
    (value : α) :
    ∃ cells, Yields (l.assignTimes count value) l.nodes.capacity cells ∧
      cells.map Prod.snd = List.replicate count value := by
  have ⟨cleared, clears, empty, capacity⟩ := linked.clear
  have fits : count + ([] : Cells α).length ≤ cleared.nodes.capacity := capacity ▸ room
  have ⟨new, yields, contents⟩ := empty.pushTimes value fits
  rw [BoundedForwardList.assignTimes, clears, bind_some, ← capacity]
  rw [append_nil] at yields
  exact ⟨new, yields, contents⟩

theorem insertSurplus {passed : Cells α} (linked : Linked l (front ++ [(a, x)]))
    (source : Linked other (passed ++ rest))
    (room : front.length + 1 + rest.length ≤ l.nodes.capacity) (enough : rest.length ≤ fuel) :
    ∃ cells, Yields (l.insertSurplus other fuel (rest.map Prod.fst).head? (some a))
      l.nodes.capacity (front ++ [(a, x)] ++ cells) ∧ cells.map Prod.snd = rest.map Prod.snd := by
  induction rest generalizing l front a x passed fuel with
  | nil =>
    refine ⟨[], ⟨l, ?_, by simpa using linked, rfl⟩, rfl⟩
    cases fuel <;> rfl
  | cons cell rest ih =>
    cases fuel with
    | zero => exact absurd enough (Nat.not_succ_le_zero _)
    | succ fuel =>
      rw [length_cons] at room
      have live := source.live (show cell ∈ passed ++ cell :: rest by simp)
      have sourceNext := source.next_eq (a := cell.1) (x := cell.2)
      have ⟨node, l', inserts, grown, capacity, next⟩ := insertAfter linked
        (by simp only [length_append, length_singleton]; omega) cell.2
      have shape : front ++ [(a, x), (node, cell.2)] =
        (front ++ [(a, x)]) ++ [(node, cell.2)] := by simp
      have shifted : passed ++ cell :: rest = (passed ++ [cell]) ++ rest := by simp
      have ⟨cells, yields, contents⟩ := ih (shape ▸ grown) (shifted ▸ source) (by
        rw [capacity, length_append, length_singleton]
        omega) (Nat.le_of_succ_le_succ enough)
      refine ⟨(node, cell.2) :: cells, ?_, by rw [map_cons, map_cons, contents]⟩
      have step : l'.nodes.advance 1 (some a) = some node := next
      rw [map_cons, head?_cons, BoundedForwardList.insertSurplus, live,
        bind_some, inserts, bind_some, sourceNext, step, ← capacity]
      simpa using yields

theorem moveSurplus {front' : Cells α} {b : Nat} {y : α}
    (linked : Linked l (front ++ [(a, x)] ++ rest)) (linked' : Linked other (front' ++ [(b, y)]))
    (room : front'.length + 1 + rest.length ≤ other.nodes.capacity) :
    ∃ l' other' cells, l.moveSurplus other (rest.map Prod.fst).head? (some a) (some b) =
        some (l', other') ∧ Linked l' (front ++ [(a, x)]) ∧
      Linked other' (front' ++ [(b, y)] ++ cells) ∧ cells.map Prod.snd = rest.map Prod.snd ∧
      l'.nodes.capacity = l.nodes.capacity ∧ other'.nodes.capacity = other.nodes.capacity := by
  cases rest with
  | nil =>
    exact ⟨l, other, [], rfl, by simpa using linked, by simpa using linked', rfl, rfl, rfl⟩
  | cons cell rest =>
    have enough : (cell :: rest).length ≤ l.nodes.passes := by
      have total := linked.length_le
      rw [length_append] at total
      exact (Nat.le_trans (Nat.le_add_left _ _) total).trans (Nat.le_succ _)
    have ⟨cells, ⟨other', inserts, grown, capacity'⟩, contents⟩ :=
      linked'.insertSurplus linked room enough
    have shape : front ++ [(a, x)] ++ cell :: rest = front ++ (a, x) :: (cell :: rest) := by simp
    have ⟨l', erases, left, capacity⟩ := eraseAllAfter (shape ▸ linked)
    refine ⟨l', other', cells, ?_, left, grown, contents, capacity, capacity'⟩
    rw [BoundedForwardList.moveSurplus, if_neg nofun, inserts, bind_some, erases]
    rfl

theorem exchanged {others : Cells α} (linked : Linked l cells) {nodes : Nodes α}
    (chained : Chained nodes l.firstNode
      (withValues cells others ++ cells.drop others.length)) :
    Linked { l with nodes } (withValues cells others ++ cells.drop others.length) where
  toChained := chained
  count := by
    have same := congrArg List.length (withValues_fst cells others)
    rw [length_map, length_map] at same
    exact linked.count.trans same.symm

theorem swap (linked : Linked l cells) (linked' : Linked other cells')
    (together : cells = [] ↔ cells' = []) (room : cells'.length ≤ l.nodes.capacity)
    (room' : cells.length ≤ other.nodes.capacity) :
    ∃ l' other' left left', l.swap other = some (l', other') ∧
      Linked l' left ∧ left.map Prod.snd = cells'.map Prod.snd ∧
      Linked other' left' ∧ left'.map Prod.snd = cells.map Prod.snd ∧
      l'.nodes.capacity = l.nodes.capacity ∧ other'.nodes.capacity = other.nodes.capacity := by
  have all : Chained l.nodes l.firstNode ([] ++ cells) := linked.toChained
  have all' : Chained other.nodes other.firstNode ([] ++ cells') := linked'.toChained
  have enough : cells.length ≤ l.nodes.passes := linked.length_le.trans (Nat.le_succ _)
  have ⟨nodes, nodes', common, chained, chained', capacity, capacity'⟩ :=
    all.swapCommon all' enough none none
  rw [← linked.first_eq, ← linked'.first_eq] at common
  rw [nil_append] at chained chained'
  rw [BoundedForwardList.swap, begin, begin, common, bind_some, ← capacity, ← capacity']
  exact swapped (·.nodes.capacity) BoundedForwardList.moveSurplus (fun _ _ _ _ => rfl) moveSurplus
    (linked.exchanged chained) (linked'.exchanged chained') together (capacity ▸ room) (capacity' ▸ room')

theorem insertAfter_none (l : BoundedForwardList α) (value : α) :
    l.insertAfter none value = none := by
  rw [BoundedForwardList.insertAfter]
  cases l.nodes.allocateNode <;> rfl

theorem moveSurplus_none {cell : Nat × α} (linked : Linked l (cell :: rest)) :
    l.moveSurplus other l.firstNode none none = none := by
  have first : l.firstNode = some cell.1 := linked.first_eq
  have fails : other.insertSurplus l l.nodes.passes (some cell.1) none = none := by
    rw [Nodes.passes, BoundedForwardList.insertSurplus, linked.live mem_cons_self, bind_some, insertAfter_none]
    rfl
  rw [BoundedForwardList.moveSurplus, first, if_neg nofun, fails]
  rfl

theorem swap_none (linked : Linked l cells) (linked' : Linked other cells')
    (apart : ¬(cells = [] ↔ cells' = [])) : l.swap other = none := by
  cases cells with
  | nil =>
    cases cells' with
    | nil => exact absurd Iff.rfl apart
    | cons cell rest =>
      have first : l.firstNode = none := linked.first_eq
      have fails : ∀ l, other.moveSurplus l other.firstNode none none = none := fun _ =>
        linked'.moveSurplus_none
      rw [BoundedForwardList.swap, begin, first, Nodes.passes, Nodes.swapCommon,
        bind_some]
      dsimp only
      rw [BoundedForwardList.moveSurplus, if_pos rfl, bind_some]
      dsimp only
      exact congrArg (Option.map _) (fails _)
  | cons cell rest =>
    cases cells' with
    | nil =>
      obtain ⟨nodes, numAllocated, firstNode⟩ := l
      have first : firstNode = some cell.1 := linked.first_eq
      have first' : other.firstNode = none := linked'.first_eq
      subst first
      have fails : ∀ other : BoundedForwardList α,
          BoundedForwardList.moveSurplus _ other _ none none = none :=
        fun _ => linked.moveSurplus_none
      rw [BoundedForwardList.swap, begin, begin, first', Nodes.passes, Nodes.swapCommon,
        bind_some]
      · exact congrArg (Option.bind · _) (fails _)
      · intros
        contradiction
    | cons cell' rest' => exact absurd (iff_of_false (by simp) (by simp)) apart

variable [LT α] [DecidableLT α]

def anyLess (contents contents' : List α) : Bool :=
  (contents.zip contents').any fun (mine, theirs) => decide (mine < theirs)

theorem lessLoop_eq {front' rest' : Cells α} (linked : Linked l (front ++ rest))
    (linked' : Linked other (front' ++ rest')) (enough : rest.length ≤ fuel) :
    l.lessLoop other fuel (rest.map Prod.fst).head? (rest'.map Prod.fst).head? =
      some (anyLess (rest.map Prod.snd) (rest'.map Prod.snd) ||
        decide (l.size < other.size)) := by
  induction rest generalizing front front' rest' fuel with
  | nil => cases fuel <;> simp [lessLoop, anyLess]
  | cons cell rest ih =>
    cases rest' with
    | nil => cases fuel <;> simp [lessLoop, anyLess]
    | cons cell' rest' =>
      cases fuel with
      | zero => exact absurd enough (Nat.not_succ_le_zero _)
      | succ fuel =>
        have mine := linked.live (show cell ∈ front ++ cell :: rest by simp)
        have theirs := linked'.live (show cell' ∈ front' ++ cell' :: rest' by simp)
        have next := linked.next_eq (a := cell.1) (x := cell.2)
        have next' := linked'.next_eq (a := cell'.1) (x := cell'.2)
        have shape : front ++ cell :: rest = (front ++ [cell]) ++ rest := by simp
        have shape' : front' ++ cell' :: rest' = (front' ++ [cell']) ++ rest' := by simp
        have later := ih (shape ▸ linked) (shape' ▸ linked') (Nat.le_of_succ_le_succ enough)
        simp only [map_cons, head?_cons]
        rw [lessLoop, mine, bind_some, theirs, bind_some, next, next', later]
        by_cases less : cell.2 < cell'.2
        · simp [less, anyLess]
        · simp [less, anyLess]

theorem less_eq (linked : Linked l cells) (linked' : Linked other cells') :
    l.less other = some (anyLess (cells.map Prod.snd) (cells'.map Prod.snd) ||
      decide (cells.length < cells'.length)) := by
  have all : Linked l ([] ++ cells) := linked
  have all' : Linked other ([] ++ cells') := linked'
  have enough : cells.length ≤ l.nodes.passes := linked.length_le.trans (Nat.le_succ _)
  rw [less, begin, begin, linked.first_eq, linked'.first_eq, all.lessLoop_eq all' enough, size, size,
    linked.count, linked'.count]

end Linked

end BoundedForwardList

end BoundedLists
