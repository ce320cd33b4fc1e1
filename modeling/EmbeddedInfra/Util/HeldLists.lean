import EmbeddedInfra.Util.IntrusiveList
import EmbeddedInfra.Util.IntrusiveLists

/-! What the operations of `IntrusiveList`s do to the elements and to the nodes that leave them. -/

namespace IntrusiveLists

open IntrusiveSets Segments List Function

variable {ν : Type}

/-- The lists hold these elements, and a node that is in none of them has no links. -/
structure Holds (s : Sets ν) (c : Owner → List ν) : Prop where
  stored : Stored s c
  unlinked : ∀ {v}, (∀ o, v ∉ c o) → s.next (.node v) = none

variable {s t : Sets ν} {c : Owner → List ν} {o other : Owner} {v : ν} {front back : List ν}

theorem update_self_eq {κ β : Type} [DecidableEq κ] {f : κ → β} {k : κ} {value : β}
    (already : f k = value) : update f k value = f := by
  rw [← already, update_eq_self]

def partPlace (o : Owner) (back : List ν) : Place ν := place o back.head?

theorem partPlace_eq (o : Owner) (back : List ν) :
    (back.map Place.node).head?.or (some (.last o)) = some (partPlace o back) := by
  cases back <;> rfl

theorem partPlace_ne (notBack : v ∉ back) : partPlace o back ≠ .node v := by
  cases back with
  | nil => exact nofun
  | cons w rest => exact fun same => notBack (Place.node.inj same ▸ mem_cons_self)

theorem previous_partPlace (stored : Stored s c) (shape : c o = front ++ back) :
    s.previous (partPlace o back) = (front.map Place.node).getLast? := by
  cases back with
  | nil =>
    rw [append_nil] at shape
    rw [← shape]
    exact stored.last_eq o
  | cons w rest => exact stored.previous_eq shape

theorem getLast?_ne (shape : c o = front ++ back) (outside : v ∉ c o) :
    (front.map Place.node).getLast? ≠ some (.node v) := by
  intro same
  apply outside
  rw [shape]
  exact mem_append_left _ (node_mem.mp (mem_of_getLast? same))

namespace Holds

theorem next_last (holds : Holds s c) (shape : c o = front ++ [v]) :
    s.next (.node v) = some (.last o) := holds.stored.next_eq shape

theorem previous_end (holds : Holds s c) (shape : c o = front ++ [v]) :
    s.previous (.last o) = some (.node v) := by
  rw [holds.stored.last_eq, shape, map_append, map_singleton, getLast?_concat]

theorem previous_end_nil (holds : Holds s c) (nothing : c o = []) :
    s.previous (.last o) = none := by
  rw [holds.stored.last_eq, nothing]
  rfl

theorem begin_nil (holds : Holds s c) (nothing : c o = []) : s.beginNode o = some (.last o) := by
  rw [holds.stored.first_eq, nothing]
  rfl

theorem congr (holds : Holds s c) (nexts : t.next = s.next) (previous : t.previous = s.previous)
    (begins : t.beginNode = s.beginNode) (counts : t.numberOfElements = s.numberOfElements) :
    Holds t c := by
  have ⟨⟨forth, back, count, distinct, apart, free⟩, unlinked⟩ := holds
  rw [← nexts, ← begins] at forth
  rw [← previous] at back free
  rw [← counts] at count
  rw [← nexts] at unlinked
  exact ⟨⟨forth, back, count, distinct, apart, free⟩, unlinked⟩

end Holds

theorem holds_construct : Holds (construct ν) fun _ => [] where
  stored :=
    { forth := fun _ => rfl
      back := fun _ => ⟨rfl, rfl⟩
      count := fun _ => rfl
      nodup := fun _ => nodup_nil
      apart := fun member => nomatch member
      free := fun _ => rfl }
  unlinked := fun _ => rfl

variable [DecidableEq ν]

theorem listInsert_eq {position : Place ν} {before : Option (Place ν)}
    (isBefore : s.previous position = before) :
    ∃ t, s.listInsert o (some position) v = some t ∧
      (t.next, t.beginNode o) = redirect (update s.next (.node v) (some position))
        (s.beginNode o) before (some (.node v)) ∧
      t.previous = update (update s.previous (.node v) before) position
        (some (.node v)) ∧
      (∀ o', o' ≠ o → t.beginNode o' = s.beginNode o') ∧
      t.numberOfElements = update s.numberOfElements o (s.numberOfElements o + 1) := by
  rw [Sets.listInsert, Option.map_some]
  dsimp only
  rw [isBefore]
  cases before with
  | none =>
    refine ⟨_, rfl, ?_, rfl, fun o' differs => update_of_ne differs _ _, rfl⟩
    simp [redirect]
  | some node => exact ⟨_, rfl, rfl, rfl, fun _ _ => rfl, rfl⟩

namespace Holds

theorem insert (holds : Holds s c) (shape : c o = front ++ back) (new : ∀ o', v ∉ c o') :
    ∃ t, s.listInsert o (some (partPlace o back)) v = some t ∧
      Holds t (update c o (front ++ v :: back)) := by
  have stored := holds.stored
  obtain ⟨t, inserts, forth, previous, others, counts⟩ :=
    listInsert_eq (o := o) (v := v) (previous_partPlace stored shape)
  refine ⟨t, inserts, ?_⟩
  have nexts := congrArg Prod.fst forth
  have begins := congrArg Prod.snd forth
  dsimp only at nexts begins
  have distinct := stored.nodup o
  rw [shape] at distinct
  have notIn := new o
  rw [shape] at notIn
  obtain ⟨notFront, notBack⟩ := not_or.mp (mem_append.not.mp notIn)
  have isNotLast := getLast?_ne shape (new o)
  have members : ∀ w, w ∈ front ++ v :: back ↔ w = v ∨ w ∈ c o := by
    intro w
    rw [shape]
    simp only [mem_append, mem_cons]
    tauto
  constructor
  · apply stored.change
    · have segment := stored.forth o
      rw [shape, map_append] at segment
      have nodes := nodes_nodup distinct
      rw [map_append] at nodes
      have joined := segment.insert (a := .node v) nodes (by
        rw [← map_append]
        exact fun member => notIn (node_mem.mp member))
      rw [partPlace_eq] at joined
      rw [nexts, begins, map_append, map_cons]
      exact joined
    · have turned := stored.back o
      rw [shape, map_append, reverse_append, ← cons_append] at turned
      have reversed : (Place.last o :: (back.map Place.node).reverse ++
          (front.map Place.node).reverse).Nodup := by
        have nodes := nodup_reverse.mpr (nodes_nodup distinct)
        rw [map_append, reverse_append] at nodes
        refine nodup_cons.mpr ⟨?_, nodes⟩
        simp
      have joined := turned.insert (a := .node v) reversed (by
        simp [notFront, notBack])
      have isLast : (Place.last o :: (back.map Place.node).reverse).getLast? =
          some (partPlace o back) := by
        cases back with
        | nil => rfl
        | cons w rest =>
          rw [map_cons, reverse_cons, ← cons_append, getLast?_concat]
          rfl
      rw [isLast, head?_reverse, Option.or_none] at joined
      rw [previous, map_append, map_cons, reverse_append, reverse_cons,
        append_assoc, singleton_append]
      exact joined
    · rw [counts, update_self, stored.count o, shape]
      simp only [length_append, length_cons]
      omega
    · exact perm_middle.nodup_iff.mpr (nodup_cons.mpr ⟨notIn, distinct⟩)
    · exact fun o' differs => ⟨others o' differs, by rw [counts, update_of_ne differs]⟩
    · intro o' differs position member
      have notPlace : position ≠ partPlace o back := by
        rintro rfl
        cases back with
        | nil =>
          cases member with
          | head => exact differs rfl
          | tail _ inside => exact last_notMem inside
        | cons w rest =>
          cases member with
          | tail _ inside =>
            exact differs (stored.apart (node_mem.mp inside) (by rw [shape]; simp))
      have notNode : position ≠ .node v := by
        rintro rfl
        cases member with
        | tail _ inside => exact new o' (node_mem.mp inside)
      have notLast : (front.map Place.node).getLast? ≠ some position := by
        intro same
        obtain ⟨w, inside, rfl⟩ := mem_map.mp (mem_of_getLast? same)
        cases member with
        | tail _ there =>
          exact differs (stored.apart (node_mem.mp there) (by rw [shape]; exact mem_append_left _ inside))
      rw [nexts, previous, redirect_of_ne notLast, update_of_ne notNode,
        update_of_ne notPlace, update_of_ne notNode]
      exact ⟨rfl, rfl⟩
    · intro w member o' differs inOther
      rcases (members w).mp member with rfl | inside
      · exact new o' inOther
      · exact differs (stored.apart inOther inside)
    · intro w outside others'
      have ⟨notNew, notHere⟩ := not_or.mp ((members w).not.mp outside)
      have differs : Place.node w ≠ Place.node v := fun same => notNew (Place.node.inj same)
      have notPlace : Place.node w ≠ partPlace o back := by
        have inBack : w ∉ back := fun inside => notHere (by rw [shape]; exact mem_append_right _ inside)
        exact (partPlace_ne inBack).symm
      rw [previous, update_of_ne notPlace, update_of_ne differs]
      apply stored.free
      intro o'
      by_cases here : o' = o
      · exact here ▸ notHere
      · exact others' o' here
  · intro w outside
    have here := outside o
    rw [update_self, members, not_or] at here
    have differs : Place.node w ≠ Place.node v := fun same => here.1 (Place.node.inj same)
    rw [nexts, redirect_of_ne (getLast?_ne shape here.2), update_of_ne differs]
    apply holds.unlinked
    intro o'
    by_cases same : o' = o
    · exact same ▸ here.2
    · have there := outside o'
      rwa [update_of_ne same] at there

theorem remove (holds : Holds s c) (shape : c o = front ++ v :: back) :
    ∃ t, s.listErase o v = some t ∧ Holds t (update c o (front ++ back)) := by
  have stored := holds.stored
  obtain ⟨t, erases, left, -⟩ := stored.remove shape
  refine ⟨t, erases, left, ?_⟩
  have distinct := stored.nodup o
  rw [shape] at distinct
  have ⟨notLeft, _⟩ := nodup_cons.mp (perm_middle.nodup_iff.mp distinct)
  have ⟨notFront, _⟩ := not_or.mp (mem_append.not.mp notLeft)
  have isBegin : (front.map Place.node).getLast? = none → s.beginNode o = some (.node v) := by
    intro nothing
    rw [stored.first_eq o, shape]
    cases front with
    | nil => rfl
    | cons w rest => simp at nothing
  have differs : (front.map Place.node).getLast? ≠ some (.node v) := fun same =>
    notFront (node_mem.mp (mem_of_getLast? same))
  have isNext := stored.next_eq shape
  rw [partPlace_eq] at isNext
  obtain ⟨t', erases', -, nexts, -⟩ := Stored.listErase_eq (stored.previous_eq shape) isNext isBegin differs
  obtain rfl := Option.some.inj (erases.symm.trans erases')
  intro w outside
  have here := outside o
  rw [update_self] at here
  rw [nexts]
  by_cases same : w = v
  · rw [same, update_self]
  have notNode : Place.node w ≠ Place.node v := fun equal => same (Place.node.inj equal)
  have notHere : w ∉ c o := by
    rw [shape]
    simp only [mem_append, mem_cons] at here ⊢
    tauto
  rw [update_of_ne notNode, redirect_of_ne (getLast?_ne shape notHere)]
  apply holds.unlinked
  intro o'
  by_cases equal : o' = o
  · exact equal ▸ notHere
  · have there := outside o'
    rwa [update_of_ne equal] at there

theorem erase (holds : Holds s c) (only : ∀ o', o' ≠ o → v ∉ c o') :
    ∃ t, s.listErase o v = some t ∧ Holds t (update c o ((c o).erase v)) := by
  by_cases member : v ∈ c o
  · obtain ⟨front, back, shape⟩ := append_of_mem member
    have notFront : v ∉ front := by
      have distinct := holds.stored.nodup o
      rw [shape] at distinct
      have := (nodup_cons.mp (perm_middle.nodup_iff.mp distinct)).1
      exact fun inside => this (mem_append_left _ inside)
    obtain ⟨t, erases, left⟩ := holds.remove shape
    refine ⟨t, erases, ?_⟩
    rwa [shape, erase_append_right _ notFront, erase_cons_head]
  · have free : ∀ o', v ∉ c o' := fun o' => by
      by_cases same : o' = o
      · exact same ▸ member
      · exact only o' same
    refine ⟨s, holds.stored.listErase_free free o, ?_⟩
    rwa [erase_of_not_mem member, update_eq_self]

theorem popFront (holds : Holds s c) (shape : c o = v :: back) :
    ∃ t, s.popFront o = some t ∧ Holds t (update c o back) := by
  rw [holds.stored.popFront_eq shape]
  exact holds.remove (show c o = [] ++ v :: back from shape)

theorem clear (holds : Holds s c) (o : Owner) :
    ∃ t, s.listClear o = some t ∧ Holds t (update c o []) := by
  have all {fuel : Nat} : ∀ {s : Sets ν} {c : Owner → List ν}, Holds s c → (c o).length ≤ fuel →
      ∃ t, s.popAll o fuel = some t ∧ Holds t (update c o []) := by
    induction fuel with
    | zero =>
      intro s c holds enough
      have nothing : c o = [] := length_eq_zero_iff.mp (Nat.le_zero.mp enough)
      have counted : s.numberOfElements o = 0 := by rw [holds.stored.count o, nothing]; rfl
      refine ⟨s, if_pos counted, ?_⟩
      rw [← nothing, update_eq_self]
      exact holds
    | succ fuel ih =>
      intro s c holds enough
      cases shape : c o with
      | nil =>
        have counted : s.numberOfElements o = 0 := by rw [holds.stored.count o, shape]; rfl
        refine ⟨s, if_pos counted, ?_⟩
        rw [← shape, update_eq_self]
        exact holds
      | cons w rest =>
        have counted : s.numberOfElements o ≠ 0 := by rw [holds.stored.count o, shape]; exact nofun
        obtain ⟨t, pops, left⟩ := holds.popFront shape
        have fewer : (update c o rest o).length ≤ fuel := by
          rw [shape] at enough
          rw [update_self]
          exact Nat.le_of_succ_le_succ enough
        obtain ⟨u, rests, empty⟩ := ih left fewer
        rw [Sets.popAll, if_neg counted, pops, Option.bind_some]
        rw [update_idem] at empty
        exact ⟨u, rests, empty⟩
  exact all holds (Nat.le_of_eq (holds.stored.count o).symm)

theorem pushFront_eq (holds : Holds s c) (o : Owner) (v : ν) :
    s.listInsert o (some (partPlace o (c o))) v = some (IntrusiveLists.pushFront s o v) := by
  have first := holds.stored.first_eq o
  rw [partPlace_eq] at first
  have none_ : s.previous (partPlace o (c o)) = none :=
    previous_partPlace holds.stored (show c o = [] ++ c o from rfl)
  rw [Sets.listInsert, Option.map_some, IntrusiveLists.pushFront, first]
  dsimp only
  rw [none_]

theorem pushBack_eq (s : Sets ν) (o : Owner) (v : ν) :
    s.listInsert o (some (.last o)) v = some (IntrusiveLists.pushBack s o v) := by
  rw [Sets.listInsert, Option.map_some, IntrusiveLists.pushBack]
  dsimp only
  cases s.previous (.last o) <;> rfl

theorem pushFront (holds : Holds s c) (o : Owner) (new : ∀ o', v ∉ c o') :
    Holds (IntrusiveLists.pushFront s o v) (update c o (v :: c o)) := by
  obtain ⟨t, inserts, next⟩ := holds.insert (show c o = [] ++ c o from rfl) new
  obtain rfl := Option.some.inj ((holds.pushFront_eq o v).symm.trans inserts)
  exact next

theorem pushBack (holds : Holds s c) (o : Owner) (new : ∀ o', v ∉ c o') :
    Holds (IntrusiveLists.pushBack s o v) (update c o (c o ++ [v])) := by
  obtain ⟨t, inserts, next⟩ := holds.insert (show c o = c o ++ [] from (append_nil _).symm) new
  obtain rfl := Option.some.inj ((pushBack_eq s o v).symm.trans inserts)
  exact next

theorem pushAll {elements : List ν} (holds : Holds s c) (o : Owner)
    (distinct : (c o ++ elements).Nodup)
    (new : ∀ v ∈ elements, ∀ o', o' ≠ o → v ∉ c o') :
    Holds (elements.foldl (IntrusiveLists.pushBack · o ·) s)
      (update c o (c o ++ elements)) := by
  induction elements generalizing s c with
  | nil =>
    rw [append_nil, update_eq_self]
    exact holds
  | cons v rest ih =>
    have notHere : v ∉ c o := fun member =>
      (nodup_append.mp distinct).2.2 v member v mem_cons_self rfl
    have next := holds.pushBack (v := v) o fun o' => by
      by_cases same : o' = o
      · exact same ▸ notHere
      · exact new v mem_cons_self o' same
    have later := ih next
      (by rwa [update_self, append_assoc, singleton_append])
      (fun w member o' differs => by
        rw [update_of_ne differs]
        exact new w (mem_cons_of_mem _ member) o' differs)
    rwa [update_self, update_idem, append_assoc,
      singleton_append] at later

theorem assign {elements : List ν} (holds : Holds s c) (o : Owner) (distinct : elements.Nodup)
    (new : ∀ v ∈ elements, ∀ o', o' ≠ o → v ∉ c o') :
    ∃ t, IntrusiveLists.assign s o elements = some t ∧ Holds t (update c o elements) := by
  obtain ⟨t, clears, emptied⟩ := holds.clear o
  refine ⟨_, by rw [IntrusiveLists.assign, clears, Option.map_some], ?_⟩
  have pushed := emptied.pushAll o (by rwa [update_self, nil_append])
    (fun v member o' differs => by
      rw [update_of_ne differs]
      exact new v member o' differs)
  rwa [update_self, nil_append, update_idem] at pushed

theorem insertAt {position : Option ν} (holds : Holds s c) (new : ∀ o', v ∉ c o')
    (found : ∀ w, position = some w → w ∈ c o) :
    ∃ t, s.listInsert o (some (place o position)) v = some t ∧
      Holds t (update c o (IntrusiveLists.insertAt (c o) position v)) := by
  cases position with
  | none => exact holds.insert (show c o = c o ++ [] from (append_nil _).symm) new
  | some w =>
    have shape : c o = (c o).takeWhile (· ≠ w) ++ (c o).dropWhile (· ≠ w) :=
      (takeWhile_append_dropWhile).symm
    have isPlace : partPlace o ((c o).dropWhile (· ≠ w)) = place o (some w) := by
      obtain ⟨front, back, here⟩ := append_of_mem (found w rfl)
      have first : ((c o).dropWhile (· ≠ w)).head? = some w := by
        have member := found w rfl
        generalize c o = elements at member
        induction elements with
        | nil => cases member
        | cons u rest ih =>
          by_cases same : u = w
          · simp [same]
          · have inside : w ∈ rest := by
              cases member with
              | head => exact absurd rfl same
              | tail _ inside => exact inside
            simpa [same] using ih inside
      rw [partPlace, first]
    have inserted := holds.insert shape new
    rwa [isPlace] at inserted

theorem moveInto (holds : Holds s c) (differs : o ≠ other) (nothing : c o = []) {t : Sets ν}
    (nexts : t.next = match s.previous (.last other) with
      | some node => update s.next node (some (.last o))
      | none => s.next)
    (previous : t.previous = update
      (update s.previous (.last o) (s.previous (.last other))) (.last other) none)
    (begins : t.beginNode = update
      (if s.beginNode other ≠ some (Place.last other) then
        update s.beginNode o (s.beginNode other)
      else s.beginNode) other (some (.last other)))
    (counts : t.numberOfElements = update
      (update s.numberOfElements o (s.numberOfElements other)) other 0) :
    Holds t (update (update c o (c other)) other []) := by
  have stored := holds.stored
  have isLast := stored.last_eq other
  have lastDiffers : (Place.last o : Place ν) ≠ .last other := fun same =>
    differs (Place.last.inj same)
  have nextElsewhere : ∀ position, (∀ w ∈ c other, position ≠ .node w) →
      t.next position = s.next position := by
    intro position elsewhere
    rw [nexts]
    cases isNode : s.previous (.last other) with
    | none => rfl
    | some node =>
      have member := mem_of_getLast? (isLast.symm.trans isNode)
      obtain ⟨w, inside, rfl⟩ := mem_map.mp member
      exact update_of_ne (elsewhere w inside) _ _
  have previousNode : ∀ w, t.previous (.node w) = s.previous (.node w) := by
    intro w
    have notLast : ∀ p, Place.node w ≠ Place.last p := fun _ => nofun
    rw [previous, update_of_ne (notLast _), update_of_ne (notLast _)]
  have values : ∀ o', update (update c o (c other)) other [] o' =
      if o' = other then [] else if o' = o then c other else c o' := by
    intro o'
    simp only [update_apply]
  have unheld {w : ν} (outside : ∀ o', w ∉ update (update c o (c other)) other [] o') :
      ∀ o', w ∉ c o' := by
    intro o' member
    by_cases isOther : o' = other
    · have here := outside o
      rw [values, if_neg differs, if_pos rfl] at here
      exact here (isOther ▸ member)
    · by_cases isSelf : o' = o
      · rw [isSelf, nothing] at member
        cases member
      · have there := outside o'
        rw [values, if_neg isOther, if_neg isSelf] at there
        exact there member
  have beginOther : t.beginNode other = some (.last other) := by rw [begins, update_self]
  have beginSelf : t.beginNode o = ((c other).map Place.node).head?.or (some (.last o)) := by
    rw [begins, update_of_ne differs]
    have first := stored.first_eq other
    have own := stored.first_eq o
    rw [nothing] at own
    cases shape : c other with
    | nil =>
      have atEnd : s.beginNode other = some (.last other) := by rw [first, shape]; rfl
      rw [if_neg (not_not_intro atEnd)]
      exact own
    | cons w rest =>
      rw [shape] at first
      have notLast : s.beginNode other ≠ some (.last other) := by rw [first]; exact nofun
      rw [if_pos notLast, update_self, first]
      rfl
  have beginElse : ∀ o', o' ≠ o → o' ≠ other → t.beginNode o' = s.beginNode o' := by
    intro o' notSelf notOther
    rw [begins, update_of_ne notOther]
    split
    · exact update_of_ne notSelf _ _
    · rfl
  constructor
  · constructor
    · intro o'
      rw [values]
      split
      · next same => exact same ▸ beginOther
      split
      · next same =>
          subst same
          have segment := stored.forth other
          rcases eq_nil_or_concat' (c other) with empty | ⟨front, w, shape⟩
          · rw [beginSelf, empty]
            exact rfl
          · have isNode : s.previous (.last other) = some (.node w) := by
              rw [isLast, shape, map_append, map_singleton, getLast?_concat]
            have distinct := stored.nodup other
            rw [shape] at segment distinct
            rw [map_append, map_singleton] at segment
            have outside : Place.node w ∉ front.map Place.node := fun member =>
              (nodup_append.mp distinct).2.2 w (node_mem.mp member) w
                (mem_singleton_self w) rfl
            have moved := segment.redirect outside (some (.last o'))
            have begin_ : t.beginNode o' = s.beginNode other := by
              rw [beginSelf, stored.first_eq other, shape]
              cases front <;> rfl
            rw [begin_, nexts, isNode, shape, map_append, map_singleton]
            exact moved
      · next notOther notSelf =>
          rw [beginElse o' notSelf notOther]
          refine (stored.forth o').congr fun position member => ?_
          obtain ⟨w, inside, rfl⟩ := mem_map.mp member
          apply nextElsewhere
          rintro u there same
          obtain rfl := Place.node.inj same
          exact notOther (stored.apart inside there)
    · intro o'
      rw [values]
      split
      · next same =>
          subst same
          exact ⟨rfl, by rw [previous, update_self]; rfl⟩
      split
      · next same =>
          subst same
          refine ⟨rfl, ?_⟩
          rw [previous, update_of_ne lastDiffers, update_self]
          have turned := (stored.back other).2
          apply Segment.update
          · apply Segment.update turned
            simp
          · simp
      · next notOther notSelf =>
          refine (stored.back o').congr fun position member => ?_
          rw [previous]
          have notLast : ∀ p, p ≠ o' → position ≠ .last p := by
            rintro p apart rfl
            simp only [mem_cons, Place.last.injEq, mem_reverse] at member
            rcases member with same | inside
            · exact apart same
            · exact last_notMem inside
          rw [update_of_ne (notLast other (Ne.symm notOther)),
            update_of_ne (notLast o (Ne.symm notSelf))]
    · intro o'
      rw [values, counts]
      simp only [update_apply]
      split
      · rfl
      split
      · exact stored.count other
      · exact stored.count o'
    · intro o'
      rw [values]
      split
      · exact nodup_nil
      split
      · exact stored.nodup other
      · exact stored.nodup o'
    · intro p q w first second
      rw [values] at first second
      split at first
      · cases first
      split at second
      · cases second
      next notFirst notSecond =>
        split at first <;> split at second
        · next isFirst isSecond => exact isFirst.trans isSecond.symm
        · exact absurd (stored.apart second first) notSecond
        · exact absurd (stored.apart first second) notFirst
        · exact stored.apart first second
    · intro w outside
      rw [previousNode]
      exact stored.free (unheld outside)
  · intro w outside
    have everywhere := unheld outside
    rw [nextElsewhere]
    · exact holds.unlinked everywhere
    · rintro u inside same
      exact everywhere other (Place.node.inj same ▸ inside)

theorem move (holds : Holds s c) (o other : Owner) :
    ∃ t, s.listMove o other = some t ∧
      Holds t (update (update c o (c other)) other []) := by
  obtain ⟨t, clears, emptied⟩ := holds.clear o
  refine ⟨_, by rw [Sets.listMove, clears, Option.map_some], ?_⟩
  by_cases same : o = other
  · subst same
    have nothing : update c o [] o = [] := update_self _ _ _
    have noLast : t.previous (.last o) = none := by rw [emptied.stored.last_eq, nothing]; rfl
    have atEnd : t.beginNode o = some (.last o) := by rw [emptied.stored.first_eq, nothing]; rfl
    have counted : t.numberOfElements o = 0 := by rw [emptied.stored.count, nothing]; rfl
    rw [update_idem]
    apply emptied.congr
    · simp only [update_self, noLast]
    · simp only [update_self, noLast, update_self_eq noLast]
    · simp only [update_self, noLast, atEnd, ne_eq, not_true, if_false, update_self_eq atEnd]
    · simp only [update_self, noLast, counted, update_self_eq counted]
  · have there : update c o [] other = c other := update_of_ne (Ne.symm same) _ _
    have lists : update (update c o (c other)) other [] =
        update (update (update c o []) o (update c o [] other))
          other [] := by
      rw [there, update_idem]
    rw [lists]
    apply emptied.moveInto same (update_self _ _ _)
    all_goals
      simp only [update_self]
      cases t.previous (.last other) <;> rfl

end Holds

end IntrusiveLists
