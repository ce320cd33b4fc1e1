import EmbeddedInfra.Lockstep
import EmbeddedInfra.Util.ListSteps

/-! When `BoundedList`s behave as plain lists: `swap` has nowhere to erase behind if one list is
empty. -/

namespace BoundedLists

open List

open Lockstep

variable {α : Type}

namespace Lists

inductive Call (α : Type)
  | pushFront (list : Nat) (value : α)
  | popFront (list : Nat)
  | pushBack (list : Nat) (value : α)
  | popBack (list : Nat)
  | insert (list k : Nat) (value : α)
  | erase (list k : Nat)
  | eraseAllAfter (list k : Nat)
  | remove (list k : Nat)
  | assign (list : Nat) (values : List α)
  | assignTimes (list count : Nat) (value : α)
  | swap (list other : Nat)
  | clear (list : Nat)

abbrev Storages (α : Type) := Nat → BoundedList α

/-- `begin()` advanced `k` times. -/
def position (l : BoundedList α) (k : Nat) : Option Nat := l.nodes.advance k l.begin

def on (s : Storages α) (list : Nat) (result : Option (BoundedList α)) : Option (Storages α × Unit) :=
  result.map fun l => (Function.update s list l, ())

def perform (s : Storages α) : Call α → Option (Storages α × Unit)
  | .pushFront list value => on s list ((s list).pushFront value)
  | .popFront list => on s list (s list).popFront
  | .pushBack list value => on s list ((s list).pushBack value)
  | .popBack list => on s list (s list).popBack
  | .insert list k value => on s list ((s list).insert (position (s list) k) value)
  | .erase list k => on s list ((s list).erase (position (s list) k))
  | .eraseAllAfter list k => on s list ((s list).eraseAllAfter (position (s list) k))
  | .remove list k => on s list ((position (s list) k).bind (s list).remove)
  | .assign list values => on s list ((s list).assign values)
  | .assignTimes list count value => on s list ((s list).assignTimes count value)
  | .swap list other =>
    ((s list).swap (s other)).map fun (l, l') =>
      (Function.update (Function.update s list l) other l', ())
  | .clear list => on s list (s list).clear

def plain (m : Nat → List α) : Call α → Nat → List α
  | .pushFront list value => Function.update m list (value :: m list)
  | .popFront list => Function.update m list (m list).tail
  | .pushBack list value => Function.update m list (m list ++ [value])
  | .popBack list => Function.update m list (m list).dropLast
  | .insert list k value => Function.update m list ((m list).take k ++ value :: (m list).drop k)
  | .erase list k => Function.update m list ((m list).eraseIdx k)
  | .eraseAllAfter list k => Function.update m list ((m list).take (k + 1))
  | .remove list k => Function.update m list ((m list).eraseIdx k)
  | .assign list values => Function.update m list values
  | .assignTimes list count value => Function.update m list (List.replicate count value)
  | .swap list other => Function.update (Function.update m list (m other)) other (m list)
  | .clear list => Function.update m list []

/-- The call respects the capacities, and that a list may be empty; positions are in the list, or for
`insert` at its end. -/
def Allowed (capacity : Nat → Nat) (m : Nat → List α) : Call α → Prop
  | .pushFront list _ => (m list).length < capacity list
  | .popFront list => m list ≠ []
  | .pushBack list _ => (m list).length < capacity list
  | .popBack list => m list ≠ []
  | .insert list k _ => k ≤ (m list).length ∧ (m list).length < capacity list
  | .erase list k => k < (m list).length
  | .eraseAllAfter list k => k < (m list).length
  | .remove list k => k < (m list).length
  | .assign list values => values.length ≤ capacity list
  | .assignTimes list count _ => count ≤ capacity list
  | .swap list other => list ≠ other ∧ (m other).length ≤ capacity list ∧
      (m list).length ≤ capacity other
  | .clear _ => True

abbrev AllAllowed (capacity : Nat → Nat) : (Nat → List α) → List (Call α) → Prop :=
  Always plain (Allowed capacity)

/-- The list iterates over the contents in both directions and counts them; the slots in it hold one
object each, and all others that were handed out are in the free list and hold none. -/
structure Shows (l : BoundedList α) (contents : List α) : Prop where
  iterates : l.iterate = some contents
  iteratesBack : l.iterateBack = some contents.reverse
  counts : l.size = contents.length
  slots : ∃ cells, l.Linked cells ∧ cells.map Prod.snd = contents

/-- After every call the lists show what the plain lists hold. -/
abbrev Refines : Storages α → (Nat → List α) → List (Call α) → Prop :=
  Lockstep.Refines perform plain (fun _ _ => ()) fun s m => ∀ list, Shows (s list) (m list)

/-- Only two lists that are both empty or both not are swapped. -/
def Meets (m : Nat → List α) : Call α → Prop
  | .swap list other => m list = [] ↔ m other = []
  | _ => True

abbrev AllMeet : (Nat → List α) → List (Call α) → Prop := Always plain Meets

def Represents (capacity : Nat → Nat) (s : Storages α) (m : Nat → List α) : Prop :=
  ∀ list, ∃ cells, (s list).Linked cells ∧ cells.map Prod.snd = m list ∧
    (s list).nodes.capacity = capacity list

variable {capacity : Nat → Nat} {s : Storages α} {m : Nat → List α}

theorem Represents.shows (represents : Represents capacity s m) (list : Nat) :
    Shows (s list) (m list) := by
  have ⟨cells, linked, contents, _⟩ := represents list
  refine ⟨contents ▸ linked.iterate_eq, contents ▸ linked.iterateBack_eq, ?_, cells, linked, contents⟩
  rw [BoundedList.size, linked.count, ← contents, length_map]

theorem Represents.update (represents : Represents capacity s m) (list : Nat) {l : BoundedList α}
    {cells : Cells α} (linked : l.Linked cells) {contents : List α}
    (same : cells.map Prod.snd = contents) (kept : l.nodes.capacity = capacity list) :
    Represents capacity (Function.update s list l) (Function.update m list contents) := by
  intro other
  by_cases here : other = list
  · subst here
    simp only [Function.update_self]
    exact ⟨cells, linked, same, kept⟩
  · simp only [Function.update_of_ne here]
    exact represents other

theorem Represents.on (represents : Represents capacity s m) {list : Nat}
    {result : Option (BoundedList α)} {cells : Cells α}
    (yields : BoundedList.Yields result (s list).nodes.capacity cells) {contents : List α}
    (same : cells.map Prod.snd = contents) :
    ∃ t, on s list result = some (t, ()) ∧
      Represents capacity t (Function.update m list contents) := by
  have ⟨_, _, _, kept⟩ := represents list
  have ⟨l, result_, linked, capacity_⟩ := yields
  refine ⟨_, by rw [Lists.on, result_]; rfl, represents.update list linked same ?_⟩
  exact capacity_.trans kept

theorem Represents.split (represents : Represents capacity s m) {list k : Nat}
    (within : k < (m list).length) :
    ∃ front a x back, (s list).Linked (front ++ (a, x) :: back) ∧
      m list = front.map Prod.snd ++ x :: back.map Prod.snd ∧ k = (front.map Prod.snd).length ∧
      position (s list) k = some a := by
  have ⟨cells, linked, contents, _⟩ := represents list
  rw [← contents, length_map] at within
  have ⟨front, a, x, back, shape, place⟩ := split_at within
  subst shape
  refine ⟨front, a, x, back, linked, ?_, by rw [length_map, place], ?_⟩
  · rw [← contents, map_append, map_cons]
  · rw [position, ← place]
    exact linked.advance_split

theorem position_end {l : BoundedList α} {cells : Cells α} (linked : l.Linked cells) :
    position l cells.length = none := by
  rcases eq_nil_or_concat' cells with nothing | ⟨front, ⟨a, x⟩, shape⟩
  · subst nothing
    exact linked.first_eq
  · subst shape
    have last := linked.advance_split
    have next := linked.next_eq
    rw [position, length_append, length_singleton, Nodes.advance_add, BoundedList.begin, last]
    exact next

theorem eraseIdx_mid (front back : List α) (x : α) :
    (front ++ x :: back).eraseIdx front.length = front ++ back := by
  rw [eraseIdx_append_of_length_le (Nat.le_refl _), Nat.sub_self, eraseIdx_cons_zero]

theorem Represents.step (represents : Represents capacity s m) {call : Call α}
    (allowed : Allowed capacity m call) (meets : Meets m call) :
    ∃ t, perform s call = some (t, ()) ∧ Represents capacity t (plain m call) := by
  have room : ∀ {list}, (m list).length < capacity list → ∀ {cells : Cells α},
      cells.map Prod.snd = m list → cells.length < (s list).nodes.capacity := by
    intro list below cells contents
    have ⟨_, _, _, kept⟩ := represents list
    rw [← contents, length_map] at below
    rwa [kept]
  cases call with
  | pushFront list value =>
    have ⟨cells, linked, contents, _⟩ := represents list
    have ⟨node, yields⟩ := linked.pushFront (room allowed contents) value
    exact represents.on yields (by rw [map_cons, contents])
  | popFront list =>
    have ⟨cells, linked, contents, _⟩ := represents list
    cases cells with
    | nil => exact absurd contents.symm allowed
    | cons cell rest => exact represents.on linked.popFront (by rw [← contents]; rfl)
  | pushBack list value =>
    have ⟨cells, linked, contents, _⟩ := represents list
    have ⟨node, yields⟩ := linked.pushBack (room allowed contents) value
    exact represents.on yields (by rw [map_append, contents]; rfl)
  | popBack list =>
    have ⟨cells, linked, contents, _⟩ := represents list
    rcases eq_nil_or_concat' cells with nothing | ⟨rest, cell, shape⟩
    · subst nothing
      exact absurd contents.symm allowed
    · subst shape
      have left : rest.map Prod.snd = (m list).dropLast := by rw [← contents]; simp
      exact represents.on linked.popBack left
  | insert list k value =>
    have ⟨within, below⟩ := allowed
    rcases Nat.lt_or_eq_of_le within with inside | atEnd
    · have ⟨front, a, x, back, linked, contents, counted, place⟩ := represents.split inside
      have ⟨node, yields⟩ := linked.insert (room below (by simp [contents])) value
      rw [perform, place]
      refine represents.on yields ?_
      rw [contents, counted, take_left, drop_left]
      simp
    · have ⟨cells, linked, contents, _⟩ := represents list
      have all : (s list).Linked (cells ++ []) := (append_nil cells).symm ▸ linked
      have fits : (cells ++ []).length < (s list).nodes.capacity := by
        rw [append_nil]
        exact room below contents
      have ⟨node, yields⟩ := all.insert fits value
      have counted : k = cells.length := by rw [atEnd, ← contents, length_map]
      rw [perform, counted, position_end linked]
      refine represents.on yields ?_
      rw [map_append, map_cons, contents, ← counted, atEnd, take_length,
        drop_length]
      rfl
  | erase list k =>
    have ⟨front, a, x, back, linked, contents, counted, place⟩ := represents.split allowed
    rw [perform, place]
    refine represents.on linked.erase ?_
    rw [contents, counted, eraseIdx_mid, map_append]
  | eraseAllAfter list k =>
    have ⟨front, a, x, back, linked, contents, counted, place⟩ := represents.split allowed
    rw [perform, place]
    refine represents.on linked.eraseAllAfter ?_
    rw [contents, counted, take_succ_mid, map_append]
    rfl
  | remove list k =>
    have ⟨front, a, x, back, linked, contents, counted, place⟩ := represents.split allowed
    rw [perform, place, Option.bind_some]
    refine represents.on linked.erase ?_
    rw [contents, counted, eraseIdx_mid, map_append]
  | assign list values =>
    have ⟨cells, linked, _, kept⟩ := represents list
    have fits : values.length ≤ (s list).nodes.capacity := by rw [kept]; exact allowed
    have ⟨new, yields, contents⟩ := linked.assign fits
    exact represents.on yields contents
  | assignTimes list count value =>
    have ⟨cells, linked, _, kept⟩ := represents list
    have fits : (List.replicate count value).length ≤ (s list).nodes.capacity := by
      rw [kept, length_replicate]
      exact allowed
    have ⟨new, yields, contents⟩ := linked.assign fits
    exact represents.on yields contents
  | swap list other =>
    have ⟨cells, linked, contents, kept⟩ := represents list
    have ⟨cells', linked', contents', kept'⟩ := represents other
    have ⟨_, fits, fits'⟩ := allowed
    rw [← contents', length_map, ← kept] at fits
    rw [← contents, length_map, ← kept'] at fits'
    have together : cells = [] ↔ cells' = [] := by
      have both : m list = [] ↔ m other = [] := meets
      rwa [← contents, ← contents', map_eq_nil_iff, map_eq_nil_iff] at both
    have ⟨l, l', left, left', swaps, swapped, same, swapped', same', holds, holds'⟩ :=
      linked.swap linked' together fits fits'
    refine ⟨_, by rw [perform, swaps]; rfl, ?_⟩
    exact (represents.update list swapped (same.trans contents') (holds.trans kept)).update other
      swapped' (same'.trans contents) (holds'.trans kept')
  | clear list =>
    have ⟨cells, linked, _, _⟩ := represents list
    exact represents.on linked.clear rfl

theorem Represents.run (represents : Represents capacity s m) {calls : List (Call α)}
    (allowed : AllAllowed capacity m calls) : Refines s m calls ↔ AllMeet m calls := by
  apply refines_iff (R := Represents capacity) Represents.shows _ _ represents allowed
  · exact fun represents allowed meets => represents.step allowed meets
  · intro s m call t represents allowed meetsNot performs
    cases call with
    | swap list other =>
      have ⟨cells, linked, contents, _⟩ := represents list
      have ⟨cells', linked', contents', _⟩ := represents other
      have apart : ¬(cells = [] ↔ cells' = []) := by
        intro together
        apply meetsNot
        change m list = [] ↔ m other = []
        rw [← contents, ← contents', map_eq_nil_iff, map_eq_nil_iff]
        exact together
      rw [perform, linked.swap_none linked' apart] at performs
      exact nomatch performs
    | _ => exact absurd trivial meetsNot

theorem Represents.empty (capacity : Nat → Nat) :
    Represents capacity (fun list => .empty (capacity list)) (fun _ => ([] : List α)) :=
  fun list => ⟨[], .empty (capacity list), rfl, rfl⟩

/-- Any lists behave as plain lists, in any calls that respect their capacities and that they may be
empty, exactly when no empty list is swapped with one that is not. -/
theorem shows_plain_iff (capacity : Nat → Nat) (calls : List (Call α))
    (allowed : AllAllowed capacity (fun _ => []) calls) :
    Refines (fun list => .empty (capacity list)) (fun _ => []) calls ↔ AllMeet (fun _ => []) calls :=
  (Represents.empty capacity).run allowed

theorem shows_plain_iff_two_lists :
    Refines (fun _ => .empty 3) (fun _ => ([] : List Nat))
      [.pushFront 0 5, .pushBack 0 2, .insert 0 1 3, .assign 1 [4, 1], .swap 0 1, .erase 1 1,
        .eraseAllAfter 1 0, .remove 1 0, .assignTimes 1 2 7, .popFront 1, .popBack 0, .clear 1] := by
  apply (shows_plain_iff (fun _ => 3) _ _).mpr
  · simp [AllMeet, Always, Meets, plain, Function.update]
  · simp [AllAllowed, Always, Allowed, plain, Function.update]

/-- A list with one element is swapped with an empty one. -/
theorem not_shows_plain :
    ¬Refines (fun _ => .empty 3) (fun _ => ([] : List Nat)) [.pushFront 0 1, .swap 0 1] := by
  intro refines
  have represents := Represents.empty (α := Nat) fun _ => 3
  have meets :=
    (represents.run (by simp [AllAllowed, Always, Allowed, plain, Function.update])).mp refines
  simp [AllMeet, Always, Meets, plain, Function.update] at meets

end Lists

end BoundedLists
