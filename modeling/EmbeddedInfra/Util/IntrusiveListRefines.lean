import EmbeddedInfra.Util.HeldLists
import EmbeddedInfra.Util.SetElements

/-! What is seen of `IntrusiveList`s, for every sequence of calls. -/

namespace IntrusiveLists

open IntrusiveSets Segments List Function

variable {ν : Type} [DecidableEq ν] {s t : Sets ν} {c : Owner → List ν} {o other : Owner} {v : ν}
  {front back : List ν}

namespace Holds

theorem fixEnd (holds : Holds s c) (o : Owner) : Holds (IntrusiveLists.fixEnd s o) c := by
  rw [IntrusiveLists.fixEnd]
  rcases eq_nil_or_concat' (c o) with nothing | ⟨front, v, shape⟩
  · rw [holds.previous_end_nil nothing]
    exact holds.congr rfl rfl (update_self_eq (holds.begin_nil nothing)) rfl
  · rw [holds.previous_end shape]
    exact holds.congr (update_self_eq (holds.next_last shape)) rfl rfl rfl

theorem swap_self (holds : Holds s c) (o : Owner) : Holds (swap s o o) c := by
  have same : Holds { s with
      beginNode := update (update s.beginNode o (s.beginNode o)) o (s.beginNode o)
      numberOfElements := update
        (update s.numberOfElements o (s.numberOfElements o)) o (s.numberOfElements o) } c := by
    refine holds.congr rfl rfl ?_ ?_
    · simp only [update_eq_self]
    · simp only [update_eq_self]
  exact (same.fixEnd o).fixEnd o

theorem swap_nil (holds : Holds s c) (nothing : c o = []) (otherNothing : c other = []) :
    Holds (swap s o other) c := by
  have first : (swap s o other).beginNode = s.beginNode := by
    simp only [swap, IntrusiveLists.fixEnd, holds.previous_end_nil nothing,
      holds.previous_end_nil otherNothing]
    funext p
    simp only [update_apply]
    split
    · next same => rw [same, holds.begin_nil otherNothing]
    split
    · next same => rw [same, holds.begin_nil nothing]
    · rfl
  have counts : (swap s o other).numberOfElements = s.numberOfElements := by
    simp only [swap, IntrusiveLists.fixEnd, holds.previous_end_nil nothing,
      holds.previous_end_nil otherNothing]
    rw [holds.stored.count o, holds.stored.count other, nothing, otherNothing]
    have noneHere : s.numberOfElements o = 0 := by rw [holds.stored.count, nothing]; rfl
    have noneThere : s.numberOfElements other = 0 := by rw [holds.stored.count, otherNothing]; rfl
    rw [length_nil, update_self_eq noneHere, update_self_eq noneThere]
  apply holds.congr _ _ first counts
  all_goals
    simp only [swap, IntrusiveLists.fixEnd, holds.previous_end_nil nothing,
      holds.previous_end_nil otherNothing]

theorem elementsBefore_eq (holds : Holds s c) {fuel : Nat} (shape : c o = front ++ back)
    (enough : front.length ≤ fuel) :
    elementsBefore s o fuel (partPlace o back) = some front.reverse := by
  induction fuel generalizing front back with
  | zero =>
    obtain rfl : front = [] := eq_nil_of_length_eq_zero (Nat.le_zero.mp enough)
    have first := holds.stored.first_eq o
    rw [shape, nil_append, partPlace_eq] at first
    rw [elementsBefore, if_pos first, reverse_nil]
  | succ fuel ih =>
    have first := holds.stored.first_eq o
    rcases eq_nil_or_concat' front with rfl | ⟨before, v, rfl⟩
    · rw [shape, nil_append, partPlace_eq] at first
      rw [elementsBefore, if_pos first, reverse_nil]
    · have longer : c o = before ++ v :: back := by
        rw [shape, append_assoc, singleton_append]
      have distinct := holds.stored.nodup o
      have notFirst : s.beginNode o ≠ some (partPlace o back) := by
        rw [first]
        intro same
        cases back with
        | nil =>
          rw [shape] at same
          cases before <;> exact nomatch same
        | cons w rest =>
          have isHead : (c o).head? = some w := by
            rw [shape] at same ⊢
            cases before with
            | nil | cons u tail => exact congrArg some (Place.node.inj (Option.some.inj same))
          rw [longer] at distinct isHead
          cases before with
          | nil =>
            obtain rfl := Option.some.inj isHead
            exact (nodup_cons.mp distinct).1 mem_cons_self
          | cons u tail =>
            obtain rfl := Option.some.inj isHead
            exact (nodup_cons.mp distinct).1 (by simp)
      have isPrevious : s.previous (partPlace o back) = some (.node v) := by
        rw [previous_partPlace holds.stored shape, map_append, map_singleton,
          getLast?_concat]
      have rest := ih longer (by
        rw [length_append, length_singleton] at enough
        omega)
      have isPlace : partPlace o (v :: back) = Place.node v := rfl
      rw [isPlace] at rest
      rw [elementsBefore, if_neg notFirst, isPrevious]
      dsimp only
      rw [rest, reverse_append, reverse_singleton, Option.map_some,
        singleton_append]

theorem shows_ (holds : Holds s c) : Shows s c := by
  have stored := holds.stored
  constructor
  · intro o
    refine ⟨stored.count o, ?_, ?_, ?_⟩
    · rw [empty, stored.count o]
      cases c o <;> rfl
    · rw [iterate, size, stored.first_eq]
      exact elementsFrom_eq stored (show c o = [] ++ c o from rfl) (Nat.le_of_eq (stored.count o).symm)
    · exact holds.elementsBefore_eq (append_nil _).symm (Nat.le_of_eq (stored.count o).symm)
  · exact fun v outside => ⟨holds.unlinked outside, stored.free outside⟩

end Holds

variable {fuel : Nat} {position : Option (Place ν)}

theorem elementsFrom_nil (found : s.elementsFrom o fuel position = some []) :
    position = some (.last o) := by
  by_contra notEnd
  have ends : (if position = some (.last o) then some [] else none : Option (List ν)) ≠ some [] := by
    rw [if_neg notEnd]
    exact nofun
  cases fuel with
  | zero => exact ends found
  | succ fuel =>
    rcases position with _ | w | p
    · exact ends found
    · obtain ⟨_, _, same⟩ := Option.map_eq_some_iff.mp found
      exact nomatch same
    · exact ends found

theorem elementsFrom_cons {rest : List ν}
    (found : s.elementsFrom o fuel position = some (v :: rest)) :
    ∃ left, s.elementsFrom o left (s.next (.node v)) = some rest := by
  have ends : (if position = some (.last o) then some [] else none : Option (List ν)) ≠
      some (v :: rest) := by
    split <;> exact nofun
  cases fuel with
  | zero => exact absurd found ends
  | succ fuel =>
    rcases position with _ | w | p
    · exact absurd found ends
    · obtain ⟨others, later, same⟩ := Option.map_eq_some_iff.mp found
      obtain ⟨rfl, rfl⟩ := List.cons.inj same
      exact ⟨fuel, later⟩
    · exact absurd found ends

theorem next_of_elementsFrom (found : s.elementsFrom o fuel position = some (front ++ [v])) :
    s.next (.node v) = some (.last o) := by
  induction front generalizing fuel position with
  | nil =>
    obtain ⟨left, later⟩ := elementsFrom_cons found
    exact elementsFrom_nil later
  | cons w tail ih =>
    obtain ⟨left, later⟩ := elementsFrom_cons found
    exact ih later

theorem popBack_shows_not (holds : Holds s c) (shape : c o = front ++ [v])
    (pops : popBack s o = some t) :
    ¬Shows t (update c o front) := by
  intro shows
  have distinct := holds.stored.nodup o
  rw [shape] at distinct
  have notFront : v ∉ front := fun inside =>
    (nodup_append.mp distinct).2.2 v inside v (mem_singleton_self v) rfl
  have left : ∀ o', v ∉ update c o front o' := by
    intro o' member
    by_cases same : o' = o
    · subst same
      rw [update_self] at member
      exact notFront member
    · rw [update_of_ne same] at member
      exact same (holds.stored.apart member (by rw [shape]; simp))
  have unlinked := (shows.2 v left).1
  rw [popBack, holds.previous_end shape, Option.map_some] at pops
  have linked : t.next (.node v) = s.next (.node v) := by
    obtain rfl := Option.some.inj pops
    dsimp only
    cases isNode : s.previous (.node v) with
    | none => rfl
    | some node =>
      have differs : Place.node v ≠ node := by
        rintro rfl
        rw [holds.stored.previous_eq shape] at isNode
        exact notFront (node_mem.mp (mem_of_getLast? isNode))
      exact update_of_ne differs _ _
  rw [linked, holds.next_last shape] at unlinked
  exact nomatch unlinked

theorem swap_shows_not (holds : Holds s c) (differs : o ≠ other) (some_ : c o ≠ [] ∨ c other ≠ []) :
    ¬Shows (swap s o other) (plain c (.swap o other)) := by
  intro shows
  have iterates := (shows.1 o).2.2.1
  rw [plain, update_of_ne differs, update_self] at iterates
  rcases eq_nil_or_concat' (c other) with nothing | ⟨front, v, shape⟩
  · have something : c o ≠ [] := some_.resolve_right (not_not_intro nothing)
    obtain ⟨front, v, shape⟩ := (eq_nil_or_concat' (c o)).resolve_left something
    have begin_ : (swap s o other).beginNode o = some (.last other) := by
      simp only [swap, fixEnd, holds.previous_end shape, holds.previous_end_nil nothing,
        update_of_ne differs, update_self, holds.begin_nil nothing]
    have counts : (swap s o other).numberOfElements o = 0 := by
      simp only [swap, fixEnd, holds.previous_end shape, holds.previous_end_nil nothing,
        update_of_ne differs, update_self, holds.stored.count other, nothing]
      rfl
    have notHere : (some (Place.last other) : Option (Place ν)) ≠ some (.last o) := fun same =>
      differs (Place.last.inj (Option.some.inj same)).symm
    rw [iterate, size, counts, begin_, Sets.elementsFrom, if_neg notHere] at iterates
    exact nomatch iterates
  · have linked : (swap s o other).next (.node v) = some (.last other) := by
      have still : s.previous (.last other) = some (.node v) := holds.previous_end shape
      cases isNode : s.previous (.last o) <;>
        simp only [swap, fixEnd, isNode, still, update_self]
    rw [iterate, shape] at iterates
    have ends := next_of_elementsFrom iterates
    rw [linked] at ends
    exact differs (Place.last.inj (Option.some.inj ends)).symm

theorem step {call : Call ν} (holds : Holds s c) (allowed : Allowed c call) (meets : Meets c call) :
    ∃ t, perform s call = some (t, ()) ∧ Holds t (plain c call) := by
  have done {outcome : Option (Sets ν)} {c' : Owner → List ν} :
      (∃ t, outcome = some t ∧ Holds t c') →
        ∃ t, outcome.map (·, ()) = some (t, ()) ∧ Holds t c' := fun ⟨t, isSome, next⟩ =>
    ⟨t, by rw [isSome, Option.map_some], next⟩
  cases call with
  | pushFront o v => exact done ⟨_, rfl, holds.pushFront o allowed⟩
  | pushBack o v => exact done ⟨_, rfl, holds.pushBack o allowed⟩
  | popFront o =>
    obtain ⟨v, rest, shape⟩ := exists_cons_of_ne_nil allowed
    have pops := holds.popFront shape
    rw [plain, shape, tail_cons]
    exact done pops
  | popBack o => exact absurd meets id
  | insert o position v => exact done (holds.insertAt allowed.1 allowed.2)
  | erase o v => exact done (holds.erase allowed)
  | assign o elements => exact done (holds.assign o allowed.1 allowed.2)
  | swap o other =>
    apply done
    refine ⟨_, rfl, ?_⟩
    rcases meets with rfl | ⟨nothing, otherNothing⟩
    · rw [plain, update_idem, update_eq_self]
      exact holds.swap_self o
    · rw [plain, update_self_eq (nothing.trans otherNothing.symm),
        update_self_eq (otherNothing.trans nothing.symm)]
      exact holds.swap_nil nothing otherNothing
  | move o other => exact done (holds.move o other)
  | clear o => exact done (holds.clear o)

theorem fails {call : Call ν} (holds : Holds s c) (allowed : Allowed c call)
    (meetsNot : ¬Meets c call) (performs : perform s call = some (t, ())) :
    ¬Shows t (plain c call) := by
  obtain ⟨u, outcome, same⟩ := Option.map_eq_some_iff.mp performs
  obtain rfl := (Prod.mk.inj same).1
  cases call with
  | popBack o =>
    obtain ⟨front, v, shape⟩ := (eq_nil_or_concat' (c o)).resolve_left allowed
    rw [plain, shape, dropLast_concat]
    exact popBack_shows_not holds shape outcome
  | swap o other =>
    obtain ⟨differs, some_⟩ := not_or.mp meetsNot
    obtain rfl := Option.some.inj outcome
    exact swap_shows_not holds differs (not_and_or.mp some_)
  | _ => exact absurd trivial meetsNot

/-- In every sequence of calls the lists show the elements of the plain ones if and only if no
element is popped from the back of a list, and no list with elements takes part in a swap. -/
theorem refines_lists_iff {calls : List (Call ν)}
    (allowed : Lockstep.Always plain Allowed (fun _ => []) calls) :
    Lockstep.Refines perform plain (fun _ _ => ()) Shows (construct ν) (fun _ => []) calls ↔
      Lockstep.Always plain Meets (fun _ => []) calls := by
  apply Lockstep.refines_iff (R := Holds) _ _ _ holds_construct allowed
  · exact fun holds => holds.shows_
  · exact fun holds allowed meets => step holds allowed meets
  · exact fun holds allowed meetsNot performs => fails holds allowed meetsNot performs

theorem refines_lists_iff_moved :
    Lockstep.Refines perform plain (fun _ _ => ()) Shows (construct Nat) (fun _ => [])
      [.pushBack (.set 0) 1, .move (.set 1) (.set 0), .popFront (.set 1)] := by
  have allowed : Lockstep.Always plain Allowed (fun _ => [])
      [.pushBack (.set 0) 1, .move (.set 1) (.set 0), .popFront (.set 1)] :=
    ⟨fun _ => not_mem_nil, trivial, by simp [Allowed, plain], trivial⟩
  exact (refines_lists_iff allowed).mpr ⟨trivial, trivial, trivial, trivial⟩

/-- The only element is popped from the back, and keeps its link to the end node. -/
theorem popped_keeps_links : ¬∀ calls : List (Call Nat),
    Lockstep.Always plain Allowed (fun _ => []) calls →
      Lockstep.Refines perform plain (fun _ _ => ()) Shows (construct Nat) (fun _ => []) calls := by
  intro refines
  have allowed : Lockstep.Always plain Allowed (fun _ => [])
      [.pushBack (.set 0) 1, .popBack (.set 0)] :=
    ⟨fun _ => not_mem_nil, by simp [Allowed, plain], trivial⟩
  have pushed : Holds (pushBack (construct Nat) (.set 0) 1) (update (fun _ => []) (.set 0) [1]) :=
    holds_construct.pushBack (.set 0) fun _ => not_mem_nil
  obtain ⟨-, s, pushes, -, t, pops, shows⟩ := refines _ allowed
  obtain rfl := (Prod.mk.inj (Option.some.inj pushes)).1
  obtain ⟨u, popped, same⟩ := Option.map_eq_some_iff.mp pops
  obtain rfl := (Prod.mk.inj same).1
  exact popBack_shows_not pushed (show _ = [] ++ [1] from update_self _ _ _) popped shows

end IntrusiveLists
