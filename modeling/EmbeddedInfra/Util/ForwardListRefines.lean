import EmbeddedInfra.Lockstep
import EmbeddedInfra.Util.ForwardListSteps

/-! When `BoundedForwardList`s behave as plain lists: `erase_slow` leaves an object in the node that it
gives back, `swap` has nowhere to insert behind if one list is empty, and `operator<` goes on after an
element that is greater. -/

namespace BoundedLists

open Lockstep List Function

variable {α : Type}

/-- `std::lexicographical_compare` -/
def lexicographicalCompare [LT α] [DecidableLT α] : List α → List α → Bool
  | _, [] => false
  | [], _ :: _ => true
  | a :: rest, b :: rest' =>
    if a < b then true else if b < a then false else lexicographicalCompare rest rest'

namespace ForwardLists

inductive Call (α : Type)
  | pushFront (list : Nat) (value : α)
  | popFront (list : Nat)
  | insertAfter (list k : Nat) (value : α)
  | eraseSlow (list k : Nat)
  | eraseAllAfter (list k : Nat)
  | assign (list : Nat) (values : List α)
  | assignTimes (list count : Nat) (value : α)
  | swap (list other : Nat)
  | clear (list : Nat)
  | less (list other : Nat)

abbrev Lists (α : Type) := Nat → BoundedForwardList α

variable [LT α] [DecidableLT α]

/-- A call on some of the lists, with its answer; a position is `begin()` advanced `k` times. -/
def perform (s : Lists α) : Call α → Option (Lists α × Option Bool)
  | .pushFront list value =>
    ((s list).pushFront value).map fun l => (update s list l, none)
  | .popFront list => (s list).popFront.map fun l => (update s list l, none)
  | .insertAfter list k value =>
    ((s list).insertAfter ((s list).nodes.advance k (s list).begin) value).map fun l =>
      (update s list l, none)
  | .eraseSlow list k =>
    ((s list).eraseSlow ((s list).nodes.advance k (s list).begin)).map fun l =>
      (update s list l, none)
  | .eraseAllAfter list k =>
    ((s list).eraseAllAfter ((s list).nodes.advance k (s list).begin)).map fun l =>
      (update s list l, none)
  | .assign list values => ((s list).assign values).map fun l => (update s list l, none)
  | .assignTimes list count value =>
    ((s list).assignTimes count value).map fun l => (update s list l, none)
  | .swap list other =>
    ((s list).swap (s other)).map fun (l, l') =>
      (update (update s list l) other l', none)
  | .clear list => (s list).clear.map fun l => (update s list l, none)
  | .less list other => ((s list).less (s other)).map fun answer => (s, some answer)

def plain (m : Nat → List α) : Call α → Nat → List α
  | .pushFront list value => update m list (value :: m list)
  | .popFront list => update m list (m list).tail
  | .insertAfter list k value =>
    update m list ((m list).take (k + 1) ++ value :: (m list).drop (k + 1))
  | .eraseSlow list k => update m list ((m list).eraseIdx k)
  | .eraseAllAfter list k => update m list ((m list).take (k + 1))
  | .assign list values => update m list values
  | .assignTimes list count value => update m list (List.replicate count value)
  | .swap list other => update (update m list (m other)) other (m list)
  | .clear list => update m list []
  | .less _ _ => m

def answer (m : Nat → List α) : Call α → Option Bool
  | .less list other => some (lexicographicalCompare (m list) (m other))
  | _ => none

/-- The call respects the capacities, and that a list may be empty; positions are in the list. -/
def Allowed (capacity : Nat → Nat) (m : Nat → List α) : Call α → Prop
  | .pushFront list _ => (m list).length < capacity list
  | .popFront list => m list ≠ []
  | .insertAfter list k _ => k < (m list).length ∧ (m list).length < capacity list
  | .eraseSlow list k => k < (m list).length
  | .eraseAllAfter list k => k < (m list).length
  | .assign list values => values.length ≤ capacity list
  | .assignTimes list count _ => count ≤ capacity list
  | .swap list other => list ≠ other ∧ (m other).length ≤ capacity list ∧
      (m list).length ≤ capacity other
  | .clear _ => True
  | .less _ _ => True

abbrev AllAllowed (capacity : Nat → Nat) : (Nat → List α) → List (Call α) → Prop :=
  Always plain (Allowed capacity)

/-- The list iterates over the contents and counts them; the slots in it hold one object each, and
all others that were handed out are in the free list and hold none. -/
structure Shows (l : BoundedForwardList α) (contents : List α) : Prop where
  iterates : l.iterate = some contents
  counts : l.size = contents.length
  slots : ∃ cells, l.Linked cells ∧ cells.map Prod.snd = contents

/-- After every call the lists show what the plain lists hold, and the answers are the same. -/
abbrev Refines : Lists α → (Nat → List α) → List (Call α) → Prop :=
  Lockstep.Refines perform plain answer fun s m => ∀ list, Shows (s list) (m list)

def misleads : List α → List α → Bool
  | a :: rest, b :: rest' =>
    if a < b then false
    else if b < a then
      BoundedForwardList.Linked.anyLess rest rest' || decide (rest.length < rest'.length)
    else misleads rest rest'
  | _, _ => false

/-- Nothing is erased with `erase_slow`, only two lists that are both empty or both not are swapped,
and no comparison goes on to something less after an element that is greater. -/
def Meets (m : Nat → List α) : Call α → Prop
  | .eraseSlow _ _ => False
  | .swap list other => m list = [] ↔ m other = []
  | .less list other => misleads (m list) (m other) = false
  | _ => True

abbrev AllMeet : (Nat → List α) → List (Call α) → Prop := Always plain Meets

theorem anyLess_iff (contents contents' : List α) :
    (BoundedForwardList.Linked.anyLess contents contents' ||
      decide (contents.length < contents'.length)) = lexicographicalCompare contents contents' ↔
        misleads contents contents' = false := by
  induction contents generalizing contents' with
  | nil => cases contents' <;> simp [BoundedForwardList.Linked.anyLess, lexicographicalCompare, misleads]
  | cons a rest ih =>
    cases contents' with
    | nil => simp [BoundedForwardList.Linked.anyLess, lexicographicalCompare, misleads]
    | cons b rest' =>
      have first : BoundedForwardList.Linked.anyLess (a :: rest) (b :: rest') =
        (decide (a < b) || BoundedForwardList.Linked.anyLess rest rest') := rfl
      rw [first, lexicographicalCompare, misleads]
      by_cases less : a < b
      · simp [less]
      by_cases greater : b < a
      · simp [less, greater]
      · have later := ih rest'
        simpa [less, greater] using later

def Represents (capacity : Nat → Nat) (s : Lists α) (m : Nat → List α) : Prop :=
  ∀ list, ∃ cells, (s list).Linked cells ∧ cells.map Prod.snd = m list ∧
    (s list).nodes.capacity = capacity list

omit [LT α] [DecidableLT α] in
theorem Represents.shows {capacity : Nat → Nat} {s : Lists α} {m : Nat → List α}
    (represents : Represents capacity s m) (list : Nat) : Shows (s list) (m list) := by
  have ⟨cells, linked, contents, _⟩ := represents list
  refine ⟨contents ▸ linked.iterate_eq, ?_, cells, linked, contents⟩
  rw [BoundedForwardList.size, linked.count, ← contents, length_map]

omit [LT α] [DecidableLT α] in
theorem Represents.update {capacity : Nat → Nat} {s : Lists α} {m : Nat → List α}
    (represents : Represents capacity s m) (list : Nat) {l : BoundedForwardList α} {cells : Cells α}
    (linked : l.Linked cells) {contents : List α} (same : cells.map Prod.snd = contents)
    (kept : l.nodes.capacity = capacity list) :
    Represents capacity (update s list l) (update m list contents) := by
  intro other
  by_cases here : other = list
  · subst here
    simp only [update_self]
    exact ⟨cells, linked, same, kept⟩
  · simp only [update_of_ne here]
    exact represents other

variable {capacity : Nat → Nat} {s : Lists α} {m : Nat → List α}

theorem Represents.step (represents : Represents capacity s m) {call : Call α}
    (allowed : Allowed capacity m call) (meets : Meets m call) :
    ∃ t, perform s call = some (t, answer m call) ∧ Represents capacity t (plain m call) := by
  cases call with
  | pushFront list value =>
    obtain ⟨cells, linked, contents, kept⟩ := represents list
    have room : cells.length < (s list).nodes.capacity := by
      rw [kept, ← length_map (f := Prod.snd), contents]
      exact allowed
    obtain ⟨node, l, pushes, pushed, same⟩ := linked.pushFront room value
    refine ⟨_, by rw [perform, pushes]; rfl, represents.update list pushed ?_ (same.trans kept)⟩
    rw [map_cons, contents]
  | popFront list =>
    obtain ⟨cells, linked, contents, kept⟩ := represents list
    cases cells with
    | nil => exact absurd contents.symm allowed
    | cons cell rest =>
      obtain ⟨l, pops, left, same⟩ := linked.popFront
      refine ⟨_, by rw [perform, pops]; rfl, represents.update list left ?_ (same.trans kept)⟩
      rw [← contents]
      rfl
  | insertAfter list k value =>
    obtain ⟨cells, linked, contents, kept⟩ := represents list
    obtain ⟨within, room⟩ := allowed
    rw [← contents, length_map] at within room
    obtain ⟨front, a, x, back, shape, place⟩ := split_at within
    subst shape
    have position := linked.advance_split
    rw [place] at position
    obtain ⟨node, l, inserts, grown, same, _⟩ := linked.insertAfter (kept ▸ room) value
    refine ⟨_, by rw [perform, BoundedForwardList.begin, position, inserts]; rfl,
      represents.update list grown ?_ (same.trans kept)⟩
    have mapped : (m list) = front.map Prod.snd ++ x :: back.map Prod.snd := by
      rw [← contents, map_append, map_cons]
    have counted : k = (front.map Prod.snd).length := by rw [length_map, place]
    rw [mapped, counted, take_succ_mid, drop_succ_mid]
    simp
  | eraseSlow list k => exact absurd meets id
  | eraseAllAfter list k =>
    obtain ⟨cells, linked, contents, kept⟩ := represents list
    have within : k < (m list).length := allowed
    rw [← contents, length_map] at within
    obtain ⟨front, a, x, back, shape, place⟩ := split_at within
    subst shape
    have position := linked.advance_split
    rw [place] at position
    obtain ⟨l, erases, left, same⟩ := linked.eraseAllAfter
    refine ⟨_, by rw [perform, BoundedForwardList.begin, position, erases]; rfl,
      represents.update list left ?_ (same.trans kept)⟩
    have mapped : (m list) = front.map Prod.snd ++ x :: back.map Prod.snd := by
      rw [← contents, map_append, map_cons]
    have counted : k = (front.map Prod.snd).length := by rw [length_map, place]
    rw [mapped, counted, take_succ_mid]
    simp
  | assign list values =>
    obtain ⟨cells, linked, _, kept⟩ := represents list
    have room : values.length ≤ (s list).nodes.capacity := by rw [kept]; exact allowed
    obtain ⟨new, ⟨l, assigns, assigned, same⟩, contents⟩ := linked.assign room
    exact ⟨_, by rw [perform, assigns]; rfl,
      represents.update list assigned contents (same.trans kept)⟩
  | assignTimes list count value =>
    obtain ⟨cells, linked, _, kept⟩ := represents list
    have room : count ≤ (s list).nodes.capacity := by rw [kept]; exact allowed
    obtain ⟨new, ⟨l, assigns, assigned, same⟩, contents⟩ := linked.assignTimes room value
    exact ⟨_, by rw [perform, assigns]; rfl,
      represents.update list assigned contents (same.trans kept)⟩
  | swap list other =>
    obtain ⟨cells, linked, contents, kept⟩ := represents list
    obtain ⟨cells', linked', contents', kept'⟩ := represents other
    obtain ⟨_, room, room'⟩ := allowed
    rw [← contents'] at room
    rw [← contents] at room'
    have together : cells = [] ↔ cells' = [] := by
      have both : m list = [] ↔ m other = [] := meets
      rwa [← contents, ← contents', map_eq_nil_iff, map_eq_nil_iff] at both
    obtain ⟨l, l', left, left', swaps, swapped, same, swapped', same', fits, fits'⟩ :=
      linked.swap linked' together (by rw [kept]; simpa using room)
        (by rw [kept']; simpa using room')
    refine ⟨_, by rw [perform, swaps]; rfl, ?_⟩
    exact (represents.update list swapped (same.trans contents') (fits.trans kept)).update other
      swapped' (same'.trans contents) (fits'.trans kept')
  | clear list =>
    obtain ⟨cells, linked, _, kept⟩ := represents list
    obtain ⟨l, clears, cleared, same⟩ := linked.clear
    exact ⟨_, by rw [perform, clears]; rfl,
      represents.update list cleared rfl (same.trans kept)⟩
  | less list other =>
    obtain ⟨cells, linked, contents, _⟩ := represents list
    obtain ⟨cells', linked', contents', _⟩ := represents other
    have compared := linked.less_eq linked'
    have counted : cells.length = (m list).length := by rw [← contents, length_map]
    have counted' : cells'.length = (m other).length := by rw [← contents', length_map]
    rw [contents, contents', counted, counted', (anyLess_iff _ _).mpr meets] at compared
    exact ⟨s, by rw [perform, compared]; rfl, represents⟩

/-- A call that does not meet the condition fails, or breaks a list, or answers something else. -/
theorem Represents.fails (represents : Represents capacity s m) {call : Call α}
    (allowed : Allowed capacity m call) (meetsNot : ¬Meets m call) {t : Lists α}
    (performs : perform s call = some (t, answer m call)) :
    ¬∀ list, Shows (t list) (plain m call list) := by
  intro shown
  cases call with
  | eraseSlow list k =>
    obtain ⟨cells, linked, contents, _⟩ := represents list
    have within : k < (m list).length := allowed
    rw [← contents, length_map] at within
    obtain ⟨front, a, x, back, shape, place⟩ := split_at within
    subst shape
    have position := linked.advance_split
    rw [place] at position
    rw [perform, BoundedForwardList.begin, position] at performs
    obtain ⟨l, erases, result⟩ := Option.map_eq_some_iff.mp performs
    have here := shown list
    rw [← (Prod.mk.inj result).1, update_self] at here
    obtain ⟨left, broken, _⟩ := here.slots
    exact linked.eraseSlow_broken (by simp) erases left broken
  | swap list other =>
    obtain ⟨cells, linked, contents, _⟩ := represents list
    obtain ⟨cells', linked', contents', _⟩ := represents other
    have apart : ¬(cells = [] ↔ cells' = []) := by
      intro together
      apply meetsNot
      change m list = [] ↔ m other = []
      rw [← contents, ← contents', map_eq_nil_iff, map_eq_nil_iff]
      exact together
    rw [perform, linked.swap_none linked' apart] at performs
    cases performs
  | less list other =>
    obtain ⟨cells, linked, contents, _⟩ := represents list
    obtain ⟨cells', linked', contents', _⟩ := represents other
    have compared := linked.less_eq linked'
    have counted : cells.length = (m list).length := by rw [← contents, length_map]
    have counted' : cells'.length = (m other).length := by rw [← contents', length_map]
    rw [contents, contents', counted, counted'] at compared
    rw [perform, compared] at performs
    have same := Option.some.inj (Prod.mk.inj (Option.some.inj performs)).2
    exact meetsNot ((anyLess_iff _ _).mp same)
  | _ => exact meetsNot trivial

theorem Represents.run (represents : Represents capacity s m) {calls : List (Call α)}
    (allowed : AllAllowed capacity m calls) : Refines s m calls ↔ AllMeet m calls := by
  apply refines_iff (R := Represents capacity) Represents.shows _ _ represents allowed
  · exact fun represents allowed meets => represents.step allowed meets
  · exact fun represents allowed meetsNot performs => represents.fails allowed meetsNot performs

omit [LT α] [DecidableLT α] in
theorem Represents.empty (capacity : Nat → Nat) :
    Represents capacity (fun list => .empty (capacity list)) (fun _ => ([] : List α)) :=
  fun list => ⟨[], .empty (capacity list), rfl, rfl⟩

/-- Any lists behave as plain lists, in any calls that respect their capacities and that they may be
empty, exactly when every call meets the condition. -/
theorem refines_plain_iff (capacity : Nat → Nat) (calls : List (Call α))
    (allowed : AllAllowed capacity (fun _ => []) calls) :
    Refines (fun list => .empty (capacity list)) (fun _ => []) calls ↔ AllMeet (fun _ => []) calls :=
  (Represents.empty capacity).run allowed

theorem refines_plain_iff_two_lists :
    Refines (fun _ => .empty 3) (fun _ => ([] : List Nat))
      [.pushFront 0 5, .pushFront 0 2, .insertAfter 0 0 3, .assign 1 [4, 1], .swap 0 1, .less 1 0,
        .eraseAllAfter 1 0, .assignTimes 0 2 7, .popFront 0, .clear 1] := by
  apply (refines_plain_iff (fun _ => 3) _ _).mpr
  · simp [AllMeet, Always, Meets, plain, update, misleads]
  · simp [AllAllowed, Always, Allowed, plain, update]

/-- Each of the three conditions is needed. -/
theorem not_refines_plain :
    ¬Refines (fun _ => .empty 3) (fun _ => ([] : List Nat)) [.pushFront 0 1, .eraseSlow 0 0] ∧
    ¬Refines (fun _ => .empty 3) (fun _ => ([] : List Nat)) [.pushFront 0 1, .swap 0 1] ∧
    ¬Refines (fun _ => .empty 3) (fun _ => ([] : List Nat))
      [.assign 0 [2, 1], .assign 1 [1, 2], .less 0 1] := by
  have represents := Represents.empty (α := Nat) fun _ => 3
  constructor
  · intro refines
    have meets := (represents.run (by simp [AllAllowed, Always, Allowed, plain])).mp refines
    simp [AllMeet, Always, Meets] at meets
  constructor
  · intro refines
    have meets :=
      (represents.run (by simp [AllAllowed, Always, Allowed, plain, update])).mp refines
    simp [AllMeet, Always, Meets, plain, update] at meets
  · intro refines
    have meets :=
      (represents.run (by simp [AllAllowed, Always, Allowed])).mp refines
    simp [AllMeet, Always, Meets, plain, update, misleads,
      BoundedForwardList.Linked.anyLess] at meets

end ForwardLists

end BoundedLists
