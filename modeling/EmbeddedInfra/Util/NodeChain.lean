import EmbeddedInfra.Util.NodePool

/-! Nodes that are linked to a list: its iterators, and the part of `swap` that exchanges the objects
of two lists. -/

namespace BoundedLists

open Segments List Function

variable {α : Type}

namespace Nodes

def passes (n : Nodes α) : Nat := n.numInitialized + 1

/-- `++` of an iterator, a number of times. -/
def advance (n : Nodes α) : Nat → Option Nat → Option Nat
  | 0, position => position
  | k + 1, position => position.bind fun node => advance n k (n.next node)

theorem advance_add (n : Nodes α) (k j : Nat) (position : Option Nat) :
    n.advance (k + j) position = n.advance j (n.advance k position) := by
  induction k generalizing position with
  | zero => rw [Nat.zero_add]; rfl
  | succ k ih =>
    rw [Nat.succ_add]
    cases position with
    | none =>
      have stays : ∀ j, n.advance j none = none := fun j => by cases j <;> rfl
      rw [stays, stays, stays]
    | some node => exact ih (n.next node)

/-- What `*position` yields from a position to the end. -/
def elementsFrom (n : Nodes α) : Nat → Option Nat → Option (List α)
  | _, none => some []
  | 0, some _ => none
  | fuel + 1, some node =>
    (n.storage node).bind fun element =>
      (elementsFrom n fuel (n.next node)).map (element :: ·)

/-- `swap(*i1, *i2)` of two objects that are there. -/
def exchange (n other : Nodes α) (i1 i2 : Nat) : Nodes α × Nodes α :=
  let mine := n.storage i1
  let theirs := other.storage i2
  ({ n with storage := update n.storage i1 theirs },
    { other with storage := update other.storage i2 mine })

/-- The first loop of `swap`: the nodes, and `i1`, `i2`, `i1old` and `i2old` behind it. -/
def swapCommon (n other : Nodes α) :
    Nat → Option Nat → Option Nat → Option Nat → Option Nat →
      Option ((Nodes α × Nodes α) × Option Nat × Option Nat × Option Nat × Option Nat)
  | _, none, i2, i1old, i2old => some ((n, other), none, i2, i1old, i2old)
  | _, i1, none, i1old, i2old => some ((n, other), i1, none, i1old, i2old)
  | 0, some _, some _, _, _ => none
  | fuel + 1, some i1, some i2, _, _ =>
    let (n, other) := n.exchange other i1 i2
    swapCommon n other fuel (n.next i1) (other.next i2) (some i1) (some i2)

end Nodes

abbrev Cells (α : Type) := List (Nat × α)

theorem live_iff {storage : Nat → Option α} {cells : Cells α} :
    (cells.map Prod.fst).map storage = (cells.map Prod.snd).map some ↔
      ∀ cell ∈ cells, storage cell.1 = some cell.2 := by
  simp only [List.map_map]
  exact map_inj_left

theorem split_at {cells : Cells α} {k : Nat} (within : k < cells.length) :
    ∃ front a x back, cells = front ++ (a, x) :: back ∧ front.length = k := by
  refine ⟨cells.take k, cells[k].1, cells[k].2, cells.drop (k + 1), ?_, ?_⟩
  · calc cells = cells.take k ++ cells.drop k := (take_append_drop k cells).symm
      _ = cells.take k ++ cells[k] :: cells.drop (k + 1) := by
        rw [← drop_eq_getElem_cons within]
  · exact length_take_of_le (Nat.le_of_lt within)

theorem take_succ_mid (front back : List α) (x : α) :
    (front ++ x :: back).take (front.length + 1) = front ++ [x] := by
  rw [take_length_add_append]
  rfl

theorem drop_succ_mid (front back : List α) (x : α) :
    (front ++ x :: back).drop (front.length + 1) = back := by
  rw [← drop_drop, drop_left]
  rfl

/-- From a pointer these cells are passed, and all other nodes that were handed out are free. -/
structure Chained (n : Nodes α) (first : Option Nat) (cells : Cells α) : Prop where
  segment : Segment n.next first (cells.map Prod.fst) none
  holding : Holding n (cells.map Prod.fst) (cells.map Prod.snd)

variable {n other : Nodes α} {first first' : Option Nat} {cells front back : Cells α} {a : Nat}
  {x : α}

namespace Chained

theorem live (linked : Chained n first cells) {cell : Nat × α} (member : cell ∈ cells) :
    n.storage cell.1 = some cell.2 := live_iff.mp linked.holding.live cell member

theorem length_le (linked : Chained n first cells) : cells.length ≤ n.numInitialized := by
  simpa using linked.holding.length_le

theorem fst_nodup (linked : Chained n first cells) : (cells.map Prod.fst).Nodup := linked.holding.nodup

theorem first_eq (linked : Chained n first cells) : first = (cells.map Prod.fst).head? := by
  have segment := linked.segment
  cases cells with
  | nil => exact segment
  | cons cell rest => exact segment.1

theorem next_eq (linked : Chained n first (front ++ (a, x) :: back)) :
    n.next a = (back.map Prod.fst).head? := by
  have segment := linked.segment
  rw [map_append, segment_append] at segment
  have ⟨_, _, _, rest⟩ := segment
  cases back with
  | nil => exact rest
  | cons cell more => exact rest.1

theorem advance_split (linked : Chained n first (front ++ (a, x) :: back)) :
    n.advance front.length first = some a := by
  have walk : ∀ {passed left : Cells α}, Chained n first (passed ++ left ++ (a, x) :: back) →
      n.advance left.length ((left ++ (a, x) :: back).map Prod.fst).head? = some a := by
    intro passed left
    induction left generalizing passed with
    | nil => exact fun _ => rfl
    | cons cell rest ih =>
      intro linked
      have shifted : passed ++ cell :: rest ++ (a, x) :: back =
          passed ++ cell :: (rest ++ (a, x) :: back) := by simp
      have next := (shifted ▸ linked).next_eq (a := cell.1) (x := cell.2)
      have later := ih (show Chained n first (passed ++ [cell] ++ rest ++ (a, x) :: back) by simpa using linked)
      simp only [cons_append, map_cons, head?_cons, length_cons]
      rw [Nodes.advance, Option.bind_some, next]
      exact later
  rw [linked.first_eq]
  exact walk (show Chained n first ([] ++ front ++ (a, x) :: back) from linked)

theorem elements_eq (linked : Chained n first (front ++ back)) {fuel : Nat}
    (enough : back.length ≤ fuel) :
    n.elementsFrom fuel (back.map Prod.fst).head? = some (back.map Prod.snd) := by
  induction back generalizing front fuel with
  | nil => cases fuel <;> rfl
  | cons cell rest ih =>
    cases fuel with
    | zero => exact absurd enough (Nat.not_succ_le_zero _)
    | succ fuel =>
      have shifted : front ++ cell :: rest = (front ++ [cell]) ++ rest := by simp
      have live := linked.live (show cell ∈ front ++ cell :: rest by simp)
      have next := linked.next_eq (a := cell.1) (x := cell.2)
      have later := ih (shifted ▸ linked) (Nat.le_of_succ_le_succ enough)
      simp only [map_cons, head?_cons]
      rw [Nodes.elementsFrom, live, Option.bind_some, next, later]
      rfl

theorem overwrite (linked : Chained n first (front ++ (a, x) :: back)) (value : α) :
    Chained { n with storage := update n.storage a (some value) } first
      (front ++ (a, value) :: back) := by
  have sameNodes : (front ++ (a, value) :: back).map Prod.fst =
      (front ++ (a, x) :: back).map Prod.fst := by simp
  have distinct := linked.fst_nodup
  rw [map_append, map_cons] at distinct
  have ⟨_, rest, apart⟩ := nodup_append.mp distinct
  have live : ∀ cell ∈ front ++ (a, value) :: back,
      update n.storage a (some value) cell.1 = some cell.2 := by
    intro cell member
    rcases mem_append.mp member with inFront | inRest
    · have differs : cell.1 ≠ a := fun same =>
        apart cell.1 (mem_map_of_mem inFront) a mem_cons_self same
      rw [update_of_ne differs]
      exact linked.live (mem_append_left _ inFront)
    · cases inRest with
      | head => exact update_self _ _ _
      | tail _ inBack =>
        have inside : cell.1 ∈ back.map Prod.fst := mem_map_of_mem inBack
        have differs : cell.1 ≠ a := fun same => (nodup_cons.mp rest).1 (same ▸ inside)
        rw [update_of_ne differs]
        exact linked.live (mem_append_right _ (mem_cons_of_mem _ inBack))
  constructor
  · rw [sameNodes]
    exact linked.segment
  · have written := live_iff.mpr live
    rw [sameNodes] at written ⊢
    exact linked.holding.overwrite (by simp) value written

theorem exchange {front' back' : Cells α} {b : Nat} {y : α}
    (linked : Chained n first (front ++ (a, x) :: back))
    (linked' : Chained other first' (front' ++ (b, y) :: back')) :
    Chained (n.exchange other a b).1 first (front ++ (a, y) :: back) ∧
      Chained (n.exchange other a b).2 first' (front' ++ (b, x) :: back') := by
  have mine : n.storage a = some x :=
    linked.live (show (a, x) ∈ front ++ (a, x) :: back by simp)
  have theirs : other.storage b = some y :=
    linked'.live (show (b, y) ∈ front' ++ (b, y) :: back' by simp)
  rw [Nodes.exchange, mine, theirs]
  exact ⟨linked.overwrite y, linked'.overwrite x⟩

/-- The place of the last of these cells, if there is one. -/
def lastOr (cells : Cells α) (old : Option Nat) : Option Nat :=
  (cells.map Prod.fst).getLast?.or old

theorem lastOr_cons (cell : Nat × α) (rest : Cells α) (old : Option Nat) :
    lastOr (cell :: rest) old = lastOr rest (some cell.1) := by
  cases rest with
  | nil => rfl
  | cons second more =>
    simp only [lastOr, map_cons, getLast?_cons, Option.or, Option.getD_some]

theorem lastOr_snoc (cell : Nat × α) (front : Cells α) (old : Option Nat) :
    lastOr (front ++ [cell]) old = some cell.1 := by
  simp [lastOr]

def withValues (cells others : Cells α) : Cells α :=
  List.zipWith (fun cell other => (cell.1, other.2)) cells others

theorem swapCommon {front' rest rest' : Cells α} (linked : Chained n first (front ++ rest))
    (linked' : Chained other first' (front' ++ rest')) {fuel : Nat} (enough : rest.length ≤ fuel)
    (i1old i2old : Option Nat) :
    ∃ n' other', n.swapCommon other fuel (rest.map Prod.fst).head? (rest'.map Prod.fst).head?
        i1old i2old =
      some ((n', other'), ((rest.drop rest'.length).map Prod.fst).head?,
        ((rest'.drop rest.length).map Prod.fst).head?, lastOr (withValues rest rest') i1old,
        lastOr (withValues rest' rest) i2old) ∧
      Chained n' first (front ++ withValues rest rest' ++ rest.drop rest'.length) ∧
      Chained other' first' (front' ++ withValues rest' rest ++ rest'.drop rest.length) ∧
      n'.capacity = n.capacity ∧ other'.capacity = other.capacity := by
  induction rest generalizing n other front front' rest' fuel i1old i2old with
  | nil =>
    refine ⟨n, other, ?_, by simpa [withValues] using linked, by simpa [withValues] using linked',
      rfl, rfl⟩
    cases fuel <;> simp [Nodes.swapCommon, withValues, lastOr]
  | cons cell rest ih =>
    cases rest' with
    | nil =>
      refine ⟨n, other, ?_, by simpa [withValues] using linked,
        by simpa [withValues] using linked', rfl, rfl⟩
      cases fuel <;> simp [Nodes.swapCommon, withValues, lastOr]
    | cons cell' rest' =>
      cases fuel with
      | zero => exact absurd enough (Nat.not_succ_le_zero _)
      | succ fuel =>
        have ⟨mine, theirs⟩ := linked.exchange (x := cell.2) (y := cell'.2) linked'
        have next := mine.next_eq
        have next' := theirs.next_eq
        have shape : front ++ (cell.1, cell'.2) :: rest =
          (front ++ [(cell.1, cell'.2)]) ++ rest := by simp
        have shape' : front' ++ (cell'.1, cell.2) :: rest' =
          (front' ++ [(cell'.1, cell.2)]) ++ rest' := by simp
        have ⟨n', other', swaps, kept, kept', capacity, capacity'⟩ :=
          ih (shape ▸ mine) (shape' ▸ theirs) (Nat.le_of_succ_le_succ enough)
            (some cell.1) (some cell'.1)
        refine ⟨n', other', ?_, by simpa [withValues] using kept,
          by simpa [withValues] using kept', capacity, capacity'⟩
        have values : withValues (cell :: rest) (cell' :: rest') =
          (cell.1, cell'.2) :: withValues rest rest' := rfl
        have values' : withValues (cell' :: rest') (cell :: rest) =
          (cell'.1, cell.2) :: withValues rest' rest := rfl
        rw [values, values', lastOr_cons, lastOr_cons]
        simp only [map_cons, head?_cons, length_cons, drop_succ_cons]
        rw [Nodes.swapCommon]
        dsimp only
        rw [next, next']
        exact swaps

theorem withValues_fst (cells others : Cells α) :
    (withValues cells others ++ cells.drop others.length).map Prod.fst = cells.map Prod.fst := by
  induction cells generalizing others with
  | nil => simp [withValues]
  | cons cell rest ih =>
    cases others with
    | nil => rfl
    | cons other more => exact congrArg (cell.1 :: ·) (ih more)

theorem withValues_snd (cells others : Cells α) :
    (withValues cells others).map Prod.snd = (others.map Prod.snd).take cells.length := by
  induction cells generalizing others with
  | nil => simp [withValues]
  | cons cell rest ih =>
    cases others with
    | nil => rfl
    | cons other more => exact congrArg (other.2 :: ·) (ih more)

/-- After the first loop of `swap`: when what one list has more is moved to the other, behind the
last that both have, the lists have exchanged all of their contents. -/
theorem swapped {L : Type} {Linked : L → Cells α → Prop} (capacity : L → Nat)
    (move : L → L → Option Nat → Option Nat → Option Nat → Option (L × L))
    (moves_none : ∀ l l' i j, move l l' none i j = some (l, l'))
    (moves : ∀ {l l' : L} {front front' rest : Cells α} {a b : Nat} {x y : α},
      Linked l (front ++ [(a, x)] ++ rest) → Linked l' (front' ++ [(b, y)]) →
        front'.length + 1 + rest.length ≤ capacity l' →
        ∃ left grown cells,
          move l l' (rest.map Prod.fst).head? (some a) (some b) = some (left, grown) ∧
          Linked left (front ++ [(a, x)]) ∧ Linked grown (front' ++ [(b, y)] ++ cells) ∧
          cells.map Prod.snd = rest.map Prod.snd ∧
          capacity left = capacity l ∧ capacity grown = capacity l')
    {l l' : L} {cells cells' : Cells α}
    (kept : Linked l (withValues cells cells' ++ cells.drop cells'.length))
    (kept' : Linked l' (withValues cells' cells ++ cells'.drop cells.length))
    (together : cells = [] ↔ cells' = []) (room : cells'.length ≤ capacity l)
    (room' : cells.length ≤ capacity l') :
    ∃ m m' left left',
      ((move l l' ((cells.drop cells'.length).map Prod.fst).head?
          (lastOr (withValues cells cells') none) (lastOr (withValues cells' cells) none)).bind
        fun (l, l') =>
          (move l' l ((cells'.drop cells.length).map Prod.fst).head?
            (lastOr (withValues cells' cells) none) (lastOr (withValues cells cells') none)).map
              fun (l', l) => (l, l')) = some (m, m') ∧
      Linked m left ∧ left.map Prod.snd = cells'.map Prod.snd ∧
      Linked m' left' ∧ left'.map Prod.snd = cells.map Prod.snd ∧
      capacity m = capacity l ∧ capacity m' = capacity l' := by
  have snd : (withValues cells cells').map Prod.snd = (cells'.map Prod.snd).take cells.length :=
    withValues_snd cells cells'
  have snd' : (withValues cells' cells).map Prod.snd = (cells.map Prod.snd).take cells'.length :=
    withValues_snd cells' cells
  have total : (withValues cells cells').length = min cells.length cells'.length :=
    length_zipWith
  have total' : (withValues cells' cells).length = min cells'.length cells.length :=
    length_zipWith
  rcases eq_nil_or_concat' (withValues cells cells') with nothing | ⟨front, ⟨a, x⟩, shape⟩
  · have bothEmpty : cells = [] ∧ cells' = [] := by
      rw [nothing, length_nil] at total
      rcases Nat.min_eq_zero_iff.mp total.symm with isZero | isZero
      · have empty := length_eq_zero_iff.mp isZero
        exact ⟨empty, together.mp empty⟩
      · have empty := length_eq_zero_iff.mp isZero
        exact ⟨together.mpr empty, empty⟩
    have ⟨empty, empty'⟩ := bothEmpty
    subst empty
    subst empty'
    refine ⟨l, l', [], [], ?_, kept, rfl, kept', rfl, rfl, rfl⟩
    have noFirst : (([] : Cells α).map Prod.fst).head? = none := rfl
    rw [drop_nil, noFirst, moves_none, Option.bind_some]
    dsimp only
    rw [moves_none]
    rfl
  rcases eq_nil_or_concat' (withValues cells' cells) with nothing | ⟨front', ⟨b, y⟩, shape'⟩
  · rw [nothing, length_nil] at total'
    rw [shape, length_append, length_singleton] at total
    omega
  rw [shape, length_append, length_singleton] at total
  rw [shape', length_append, length_singleton] at total'
  rw [shape] at kept snd ⊢
  rw [shape'] at kept' snd' ⊢
  rw [lastOr_snoc, lastOr_snoc]
  rcases Nat.le_total cells'.length cells.length with shorter | longer
  · have nothing : cells'.drop cells.length = [] := drop_eq_nil_of_le shorter
    rw [nothing, append_nil] at kept'
    have ⟨m, m', new, moved, left, grown, contents, same, same'⟩ :=
      moves kept kept' (by rw [length_drop]; omega)
    rw [moved, nothing, Option.bind_some]
    refine ⟨m, m', _, _, ?_, left, ?_, grown, ?_, same, same'⟩
    · exact congrArg (Option.map _) (moves_none _ _ _ _)
    · rw [snd]
      exact take_of_length_le (by simpa using shorter)
    · rw [map_append, snd', contents, map_drop]
      exact take_append_drop _ _
  · have nothing : cells.drop cells'.length = [] := drop_eq_nil_of_le longer
    rw [nothing, append_nil] at kept
    have ⟨m', m, new, moved, left, grown, contents, same', same⟩ :=
      moves kept' kept (by rw [length_drop]; omega)
    have noFirst : (([] : Cells α).map Prod.fst).head? = none := rfl
    rw [nothing, noFirst, moves_none, Option.bind_some]
    refine ⟨m, m', _, _, congrArg (Option.map _) moved, grown, ?_, left, ?_, same, same'⟩
    · rw [map_append, snd, contents, map_drop]
      exact take_append_drop _ _
    · rw [snd']
      exact take_of_length_le (by simpa using longer)

end Chained

end BoundedLists
