import EmbeddedInfra.Segments
import EmbeddedInfra.Util.IntrusiveUnorderedSet
import Mathlib.Data.List.Nodup

/-! What each operation of an `IntrusiveList` does to the elements of the lists. -/

namespace IntrusiveSets

open Segments List Function

variable {ν : Type}

/-- The lists hold these elements, each in at most one of them, and are linked in both directions. -/
structure Stored (s : Sets ν) (c : Owner → List ν) : Prop where
  forth : ∀ o, Segment s.next (s.beginNode o) ((c o).map .node) (some (.last o))
  back : ∀ o, Segment s.previous (some (.last o)) (.last o :: ((c o).map .node).reverse) none
  count : ∀ o, s.numberOfElements o = (c o).length
  nodup : ∀ o, (c o).Nodup
  apart : ∀ {o o' v}, v ∈ c o → v ∈ c o' → o = o'
  free : ∀ {v}, (∀ o, v ∉ c o) → s.previous (.node v) = none

variable {s t : Sets ν} {c : Owner → List ν} {o : Owner} {v : ν} {front back : List ν}

theorem nodes_nodup {elements : List ν} (distinct : elements.Nodup) :
    (elements.map Place.node).Nodup :=
  distinct.map fun _ _ same => Place.node.inj same

theorem node_mem {elements : List ν} :
    Place.node v ∈ elements.map Place.node ↔ v ∈ elements :=
  mem_map_of_injective fun _ _ same => Place.node.inj same

theorem last_notMem {elements : List ν} : Place.last o ∉ elements.map Place.node := by
  simp

namespace Stored

theorem first_eq (stored : Stored s c) (o : Owner) :
    s.beginNode o = ((c o).map Place.node).head?.or (some (.last o)) := (stored.forth o).first_eq

theorem last_eq (stored : Stored s c) (o : Owner) :
    s.previous (.last o) = ((c o).map Place.node).getLast? := by
  rw [(stored.back o).2.first_eq, Option.or_none, head?_reverse]

theorem next_eq (stored : Stored s c) (shape : c o = front ++ v :: back) :
    s.next (.node v) = (back.map Place.node).head?.or (some (.last o)) := by
  have forth := stored.forth o
  rw [shape, map_append, map_cons, segment_append] at forth
  have ⟨_, _, _, rest⟩ := forth
  exact rest.first_eq

theorem previous_eq (stored : Stored s c) (shape : c o = front ++ v :: back) :
    s.previous (.node v) = (front.map Place.node).getLast? := by
  have turned := (stored.back o).2
  rw [shape, map_append, map_cons, reverse_append, reverse_cons,
    append_assoc, singleton_append, segment_append] at turned
  have ⟨_, _, _, rest⟩ := turned
  rw [rest.first_eq, Option.or_none, head?_reverse]

theorem change (stored : Stored s c) {elements : List ν}
    (forth : Segment t.next (t.beginNode o) (elements.map .node) (some (.last o)))
    (back : Segment t.previous (some (.last o)) (.last o :: (elements.map .node).reverse) none)
    (count : t.numberOfElements o = elements.length) (distinct : elements.Nodup)
    (others : ∀ o', o' ≠ o →
      t.beginNode o' = s.beginNode o' ∧ t.numberOfElements o' = s.numberOfElements o')
    (same : ∀ o', o' ≠ o → ∀ place ∈ Place.last o' :: (c o').map .node,
      t.next place = s.next place ∧ t.previous place = s.previous place)
    (new : ∀ v ∈ elements, ∀ o', o' ≠ o → v ∉ c o')
    (free : ∀ v, v ∉ elements → (∀ o', o' ≠ o → v ∉ c o') → t.previous (.node v) = none) :
    Stored t (update c o elements) where
  forth o' := by
    by_cases here : o' = o
    · subst here
      rw [update_self]
      exact forth
    · rw [update_of_ne here, (others o' here).1]
      exact (stored.forth o').congr fun place member =>
        (same o' here place (mem_cons_of_mem _ member)).1
  back o' := by
    by_cases here : o' = o
    · subst here
      rw [update_self]
      exact back
    · rw [update_of_ne here]
      refine (stored.back o').congr fun place member => (same o' here place ?_).2
      simpa using member
  count o' := by
    by_cases here : o' = o
    · subst here
      rw [update_self]
      exact count
    · rw [update_of_ne here, (others o' here).2]
      exact stored.count o'
  nodup o' := by
    by_cases here : o' = o
    · subst here
      rw [update_self]
      exact distinct
    · rw [update_of_ne here]
      exact stored.nodup o'
  apart := by
    intro p q v first second
    by_cases here : p = o <;> by_cases there : q = o
    · exact here.trans there.symm
    · subst here
      rw [update_self] at first
      rw [update_of_ne there] at second
      exact absurd second (new v first q there)
    · subst there
      rw [update_self] at second
      rw [update_of_ne here] at first
      exact absurd first (new v second p here)
    · rw [update_of_ne here] at first
      rw [update_of_ne there] at second
      exact stored.apart first second
  free := by
    intro v outside
    apply free v
    · have here := outside o
      rwa [update_self] at here
    · intro o' differs
      have there := outside o'
      rwa [update_of_ne differs] at there

variable [DecidableEq ν]

theorem append (stored : Stored s c) (o : Owner) (new : ∀ o', v ∉ c o') :
    ∃ t, s.listInsert o (some (.last o)) v = some t ∧
      Stored t (update c o (c o ++ [v])) ∧ t.buckets = s.buckets := by
  have linked : ∀ before, s.previous (.last o) = before →
      ∃ t, s.listInsert o (some (.last o)) v = some t ∧ t.buckets = s.buckets ∧
        (t.next, t.beginNode o) = redirect (update s.next (.node v) (some (.last o)))
          (s.beginNode o) before (some (.node v)) ∧
        t.previous = update (update s.previous (.node v) before) (.last o)
          (some (.node v)) ∧
        (∀ o', o' ≠ o → t.beginNode o' = s.beginNode o') ∧
        t.numberOfElements = update s.numberOfElements o (s.numberOfElements o + 1) := by
    intro before isLast
    rw [Sets.listInsert, Option.map_some]
    dsimp only
    rw [isLast]
    cases before with
    | none =>
      refine ⟨_, rfl, rfl, ?_, rfl, fun o' differs => update_of_ne differs _ _, rfl⟩
      simp [redirect]
    | some node => exact ⟨_, rfl, rfl, rfl, rfl, fun _ _ => rfl, rfl⟩
  have ⟨t, inserts, buckets, forth, back, others, counts⟩ := linked _ (stored.last_eq o)
  refine ⟨t, inserts, ?_, buckets⟩
  have nexts := congrArg Prod.fst forth
  have begins := congrArg Prod.snd forth
  dsimp only at nexts begins
  have notIn : Place.node v ∉ (c o).map Place.node := fun member => new o (node_mem.mp member)
  apply stored.change
  · have segment := stored.forth o
    have none_ : (c o).map Place.node = (c o).map Place.node ++ [] := (append_nil _).symm
    rw [none_] at segment
    have joined := segment.insert (by rw [← none_]; exact nodes_nodup (stored.nodup o))
      (by rwa [← none_])
    rw [nexts, begins, map_append]
    exact joined
  · rw [back, map_append, reverse_append]
    refine ⟨rfl, ?_⟩
    have differs : Place.node v ≠ Place.last o := nofun
    refine ⟨update_self _ _ _, ?_⟩
    rw [update_of_ne differs, update_self]
    have rest := (stored.back o).2
    rw [stored.last_eq o] at rest
    refine (rest.update ?_ _).update ?_ _
    · rwa [mem_reverse]
    · rw [mem_reverse]
      exact last_notMem
  · rw [counts, update_self, stored.count o, length_append, length_singleton]
  · exact nodup_append.mpr ⟨stored.nodup o, nodup_cons.mpr ⟨not_mem_nil, nodup_nil⟩, fun a member b single =>
      by rw [mem_singleton.mp single]; exact fun same => new o (same ▸ member)⟩
  · exact fun o' differs => ⟨others o' differs, by rw [counts, update_of_ne differs]⟩
  · intro o' differs place member
    have notNode : place ≠ .node v := by
      intro same
      subst same
      cases member with
      | tail _ inside => exact new o' (node_mem.mp inside)
    have notLast : place ≠ .last o := by
      intro same
      subst same
      cases member with
      | head => exact differs rfl
      | tail _ inside => exact last_notMem inside
    have notBefore : ((c o).map Place.node).getLast? ≠ some place := by
      intro same
      have inside := mem_of_getLast? same
      cases member with
      | head => exact last_notMem inside
      | tail _ there =>
        have ⟨w, inOther, isNode⟩ := mem_map.mp there
        subst isNode
        exact differs (stored.apart inOther (node_mem.mp inside))
    rw [nexts, back, redirect_of_ne notBefore, update_of_ne notNode,
      update_of_ne notLast, update_of_ne notNode]
    exact ⟨rfl, rfl⟩
  · intro w member o' differs inOther
    rcases mem_append.mp member with before | isNew
    · exact differs (stored.apart inOther before)
    · exact new o' (mem_singleton.mp isNew ▸ inOther)
  · intro w outside others'
    have ⟨notBefore, notNew⟩ := not_or.mp (mem_append.not.mp outside)
    have differs : Place.node w ≠ Place.node v := fun same =>
      notNew (mem_singleton.mpr (Place.node.inj same))
    have notLast : Place.node w ≠ Place.last o := nofun
    rw [back, update_of_ne notLast, update_of_ne differs]
    apply stored.free
    intro o'
    by_cases here : o' = o
    · exact here ▸ notBefore
    · exact others' o' here

theorem listErase_eq {before : Option (Place ν)} {after : Place ν}
    (isPrevious : s.previous (.node v) = before) (isNext : s.next (.node v) = some after)
    (isBegin : before = none → s.beginNode o = some (.node v)) (differs : before ≠ some (.node v)) :
    ∃ t, s.listErase o v = some t ∧ t.buckets = s.buckets ∧
      t.next = update (redirect s.next (s.beginNode o) before (some after)).1 (.node v) none ∧
      t.beginNode o = (redirect s.next (s.beginNode o) before (some after)).2 ∧
      t.previous = update (update s.previous after before) (.node v) none ∧
      (∀ o', o' ≠ o → t.beginNode o' = s.beginNode o') ∧
      t.numberOfElements = update s.numberOfElements o (s.numberOfElements o - 1) := by
  rw [Sets.listErase, isPrevious]
  cases before with
  | none =>
    dsimp only
    rw [if_neg (not_not_intro (isBegin rfl)), Sets.unlinkNext, isNext, Option.map_some]
    refine ⟨_, rfl, rfl, rfl, ?_, by rw [isPrevious], ?_, rfl⟩
    · exact update_self _ _ _
    · exact fun o' other => update_of_ne other _ _
  | some node =>
    have other : Place.node v ≠ node := fun same => differs (congrArg some same.symm)
    dsimp only
    rw [Sets.unlinkNext]
    dsimp only
    rw [update_of_ne other, isNext, Option.map_some]
    exact ⟨_, rfl, rfl, rfl, rfl, by rw [isPrevious], fun _ _ => rfl, rfl⟩

theorem remove (stored : Stored s c) (shape : c o = front ++ v :: back) :
    ∃ t, s.listErase o v = some t ∧ Stored t (update c o (front ++ back)) ∧
      t.buckets = s.buckets := by
  have distinct := stored.nodup o
  rw [shape] at distinct
  have ⟨notLeft, leftNodup⟩ := nodup_cons.mp (perm_middle.nodup_iff.mp distinct)
  have ⟨notFront, notBack⟩ := not_or.mp (mem_append.not.mp notLeft)
  have nodes := nodes_nodup distinct
  rw [map_append, map_cons] at nodes
  have ⟨after, isAfter⟩ : ∃ after, (back.map Place.node).head?.or (some (.last o)) = some after := by
    cases back with
    | nil | cons w rest => exact ⟨_, rfl⟩
  have isBegin : (front.map Place.node).getLast? = none → s.beginNode o = some (.node v) := by
    intro nothing
    rw [stored.first_eq o, shape]
    cases front with
    | nil => rfl
    | cons w rest => simp at nothing
  have differs : (front.map Place.node).getLast? ≠ some (.node v) := fun same =>
    notFront (node_mem.mp (mem_of_getLast? same))
  have isNext := stored.next_eq shape
  rw [isAfter] at isNext
  have ⟨t, erases, buckets, nexts, begins, previous, others, counts⟩ :=
    listErase_eq (stored.previous_eq shape) isNext isBegin differs
  have place_of_after : after = .last o ∨ ∃ w ∈ back, after = .node w := by
    cases back with
    | nil => exact .inl (Option.some.inj isAfter).symm
    | cons w rest => exact .inr ⟨w, mem_cons_self, (Option.some.inj isAfter).symm⟩
  refine ⟨t, erases, ?_, buckets⟩
  apply stored.change
  · have segment := stored.forth o
    rw [shape, map_append, map_cons] at segment
    have left := segment.remove nodes
    rw [isAfter] at left
    rw [nexts, begins, map_append]
    refine left.update ?_ _
    rw [← map_append]
    exact fun member => notLeft (node_mem.mp member)
  · have turned := stored.back o
    rw [shape, map_append, map_cons, reverse_append, reverse_cons,
      append_assoc, singleton_append, ← cons_append] at turned
    have apart : (Place.last o :: (back.map Place.node).reverse ++
        Place.node v :: (front.map Place.node).reverse).Nodup := by
      have reversed := nodup_reverse.mpr nodes
      rw [reverse_append, reverse_cons, append_assoc, singleton_append] at reversed
      refine nodup_cons.mpr ⟨?_, reversed⟩
      simp
    have left := turned.remove apart
    have isLast : (Place.last o :: (back.map Place.node).reverse).getLast? = some after := by
      rw [← isAfter]
      cases back with
      | nil => rfl
      | cons w rest =>
        rw [map_cons, reverse_cons, ← cons_append, getLast?_concat]
        rfl
    rw [isLast, head?_reverse, Option.or_none] at left
    rw [previous, map_append, reverse_append]
    refine Segment.update left ?_ _
    simpa [not_or] using And.intro notBack notFront
  · rw [counts, update_self, stored.count o, shape]
    simp
  · exact leftNodup
  · exact fun o' other => ⟨others o' other, by rw [counts, update_of_ne other]⟩
  · intro o' other place member
    have outside : ∀ w ∈ c o, place ≠ .node w := by
      intro w inside same
      subst same
      cases member with
      | tail _ there => exact other (stored.apart (node_mem.mp there) inside)
    have notLast : place ≠ .last o := by
      intro same
      subst same
      cases member with
      | head => exact other rfl
      | tail _ inside => exact last_notMem inside
    have notBefore : (front.map Place.node).getLast? ≠ some place := by
      intro same
      have ⟨w, inside, isNode⟩ := mem_map.mp (mem_of_getLast? same)
      exact outside w (by rw [shape]; exact mem_append_left _ inside) isNode.symm
    have notNode : place ≠ .node v := outside v (by rw [shape]; simp)
    have notAfter : place ≠ after := by
      rcases place_of_after with isEnd | ⟨w, inside, isNode⟩
      · exact isEnd ▸ notLast
      · exact isNode ▸ outside w (by
          rw [shape]
          exact mem_append_right _ (mem_cons_of_mem _ inside))
    rw [nexts, previous, update_of_ne notNode, update_of_ne notNode,
      update_of_ne notAfter, redirect_of_ne notBefore]
    exact ⟨rfl, rfl⟩
  · intro w member o' other inOther
    refine other (stored.apart inOther ?_)
    rw [shape]
    rcases mem_append.mp member with inFront | inBack
    · exact mem_append_left _ inFront
    · exact mem_append_right _ (mem_cons_of_mem _ inBack)
  · intro w outside others'
    rw [previous]
    by_cases same : w = v
    · rw [same, update_self]
    have notNode : Place.node w ≠ Place.node v := fun equal => same (Place.node.inj equal)
    have notAfter : Place.node w ≠ after := by
      intro equal
      rcases place_of_after with isEnd | ⟨w', inside, isNode⟩
      · exact nomatch equal.trans isEnd
      · have isSame := Place.node.inj (equal.trans isNode)
        exact outside (mem_append_right _ (isSame ▸ inside))
    rw [update_of_ne notNode, update_of_ne notAfter]
    apply stored.free
    intro o' member
    by_cases here : o' = o
    · rw [here, shape] at member
      rcases mem_append.mp member with inFront | inRest
      · exact outside (mem_append_left _ inFront)
      · cases inRest with
        | head => exact same rfl
        | tail _ inBack => exact outside (mem_append_right _ inBack)
    · exact others' o' here member

theorem listErase_free (stored : Stored s c) (free : ∀ o, v ∉ c o) (o : Owner) :
    s.listErase o v = some s := by
  have notFirst : s.beginNode o ≠ some (.node v) := by
    rw [stored.first_eq o]
    intro same
    cases shape : c o with
    | nil => rw [shape] at same; exact nomatch same
    | cons w rest =>
      rw [shape] at same
      have isSame : w = v := Place.node.inj (Option.some.inj same)
      exact free o (by rw [shape, isSame]; exact mem_cons_self)
  rw [Sets.listErase, stored.free free]
  exact if_pos notFirst

theorem popFront_eq (stored : Stored s c) (shape : c o = v :: back) :
    s.popFront o = s.listErase o v := by
  have isBegin : s.beginNode o = some (.node v) := by
    rw [stored.first_eq o, shape]
    rfl
  have isPrevious : s.previous (.node v) = none :=
    stored.previous_eq (show c o = [] ++ v :: back from shape)
  rw [Sets.popFront, Sets.listErase, isPrevious, isBegin]
  dsimp only
  rw [if_neg (not_not_intro rfl), Sets.unlinkNext, isPrevious, Option.bind_some]
  cases isNext : s.next (.node v) with
  | none => rfl
  | some after =>
    have already : update s.previous after none (.node v) = none := by
      by_cases same : Place.node v = after
      · rw [same, update_self]
      · rw [update_of_ne same, isPrevious]
    have kept := update_eq_self (Place.node v) (update s.previous after none)
    rw [already] at kept
    simp only [Option.map_some, kept]

theorem popFront (stored : Stored s c) (shape : c o = v :: back) :
    ∃ t, s.popFront o = some t ∧ Stored t (update c o back) ∧ t.buckets = s.buckets := by
  rw [stored.popFront_eq shape]
  exact stored.remove (show c o = [] ++ v :: back from shape)

theorem popAll (stored : Stored s c) {fuel : Nat} (enough : (c o).length ≤ fuel) :
    ∃ t, s.popAll o fuel = some t ∧ Stored t (update c o []) ∧ t.buckets = s.buckets := by
  induction fuel generalizing s c with
  | zero =>
    have nothing : c o = [] := length_eq_zero_iff.mp (Nat.le_zero.mp enough)
    have counted : s.numberOfElements o = 0 := by rw [stored.count o, nothing]; rfl
    refine ⟨s, if_pos counted, ?_, rfl⟩
    rw [← nothing, update_eq_self]
    exact stored
  | succ fuel ih =>
    cases shape : c o with
    | nil =>
      have counted : s.numberOfElements o = 0 := by rw [stored.count o, shape]; rfl
      refine ⟨s, if_pos counted, ?_, rfl⟩
      rw [← shape, update_eq_self]
      exact stored
    | cons w rest =>
      have counted : s.numberOfElements o ≠ 0 := by rw [stored.count o, shape]; exact nofun
      have ⟨t, pops, left, buckets⟩ := stored.popFront shape
      have fewer : (update c o rest o).length ≤ fuel := by
        rw [shape] at enough
        rw [update_self]
        exact Nat.le_of_succ_le_succ enough
      have ⟨u, rests, empty, same⟩ := ih left fewer
      rw [Sets.popAll, if_neg counted, pops, Option.bind_some]
      rw [update_idem] at empty
      exact ⟨u, rests, empty, same.trans buckets⟩

theorem listClear (stored : Stored s c) (o : Owner) :
    ∃ t, s.listClear o = some t ∧ Stored t (update c o []) ∧ t.buckets = s.buckets :=
  stored.popAll (Nat.le_of_eq (stored.count o).symm)

end Stored

end IntrusiveSets
