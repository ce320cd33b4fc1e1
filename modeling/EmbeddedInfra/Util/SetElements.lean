import EmbeddedInfra.Util.IntrusiveLists

/-! What each operation of an `IntrusiveUnorderedSet` does to its elements and to its buckets, as long
as it goes right: then every bucket ends at the end of the list. -/

namespace IntrusiveSets

open Segments List Function
open Option (bind_some some_or)

variable {ν : Type} (hash : ν → Nat)

/-- Every bucket begins at one of these elements or at the end of the list, and no element before its
beginning belongs to it. -/
def Bucketed (s : Sets ν) (i : Nat) (covered : List ν) : Prop :=
  ∀ k < (s.buckets i).length, ∃ front back, covered = front ++ back ∧
    (s.buckets i)[k]? = some ((back.map Place.node).head?.or (Sets.end_ i), Sets.end_ i) ∧
    ∀ v ∈ front, s.hashToBucket hash i v ≠ k

variable {hash} {s t : Sets ν} {c : Owner → List ν} {i other : Nat} {v : ν}
  {covered front back : List ν}

theorem hashToBucket_lt (some_ : 0 < (s.buckets i).length) (v : ν) :
    s.hashToBucket hash i v < (s.buckets i).length :=
  Nat.lt_of_le_of_lt (Nat.mod_le _ _) (Nat.mod_lt _ some_)

theorem hashToBucket_congr (same : (t.buckets i).length = (s.buckets i).length) (v : ν) :
    t.hashToBucket hash i v = s.hashToBucket hash i v := by
  rw [Sets.hashToBucket, same]
  rfl

theorem Bucketed.congr (bucketed : Bucketed hash s i covered) (same : t.buckets i = s.buckets i) :
    Bucketed hash t i covered := by
  intro k below
  rw [same] at below ⊢
  have ⟨front, back, shape, here, before⟩ := bucketed k below
  refine ⟨front, back, shape, here, fun v member => ?_⟩
  rw [hashToBucket_congr (congrArg List.length same)]
  exact before v member

theorem length_initializeBuckets (s : Sets ν) (i j : Nat) :
    ((s.initializeBuckets i).buckets j).length = (s.buckets j).length := by
  by_cases same : j = i
  · subst same
    simp [Sets.initializeBuckets]
  · simp [Sets.initializeBuckets, update_of_ne same]

theorem initializeBuckets_get (s : Sets ν) {i k : Nat} (below : k < (s.buckets i).length) :
    ((s.initializeBuckets i).buckets i)[k]? = some (Sets.end_ i, Sets.end_ i) := by
  rw [Sets.initializeBuckets]
  dsimp only
  rw [update_self, getElem?_replicate, if_pos below]

theorem initializeBuckets_of_ne (s : Sets ν) {j : Nat} (differs : j ≠ i) :
    (s.initializeBuckets i).buckets j = s.buckets j := update_of_ne differs _ _

theorem Bucketed.initializeBuckets (s : Sets ν) (i : Nat) :
    Bucketed hash (s.initializeBuckets i) i [] := by
  intro k below
  rw [length_initializeBuckets] at below
  exact ⟨[], [], rfl, initializeBuckets_get s below, nofun⟩

theorem Stored.initializeBuckets (stored : Stored s c) (i : Nat) :
    Stored (s.initializeBuckets i) c where
  forth := stored.forth
  back := stored.back
  count := stored.count
  nodup := stored.nodup
  apart := stored.apart
  free := stored.free

theorem bucket_eq (some_ : 0 < (s.buckets i).length) (bucketed : Bucketed hash s i covered) (v : ν) :
    ∃ front back, covered = front ++ back ∧
      s.bucket hash i v = some ((back.map Place.node).head?.or (Sets.end_ i), Sets.end_ i) ∧
      ∀ w ∈ front, s.hashToBucket hash i w ≠ s.hashToBucket hash i v :=
  bucketed _ (hashToBucket_lt some_ v)

variable {elements values : List ν} {o : Owner} {fuel : Nat}

theorem head_or_end (same : (elements.map Place.node).head?.or (Sets.end_ i) = Sets.end_ i) :
    elements = [] := by
  cases elements with
  | nil => rfl
  | cons w rest => exact nomatch same

/-- What an insertion has done to the buckets. -/
structure Inserted (hash : ν → Nat) (s t : Sets ν) (i : Nat) (v : ν) : Prop where
  here : t.buckets i = (s.buckets i).set (s.hashToBucket hash i v) (some (.node v), Sets.end_ i)
  others : ∀ j, j ≠ i → t.buckets j = s.buckets j

theorem Inserted.length (inserted : Inserted hash s t i v) (j : Nat) :
    (t.buckets j).length = (s.buckets j).length := by
  by_cases same : j = i
  · rw [same, inserted.here, length_set]
  · rw [inserted.others j same]

theorem Bucketed.insert (bucketed : Bucketed hash s i covered)
    (empty : s.bucket hash i v = some (Sets.end_ i, Sets.end_ i))
    (inserted : Inserted hash s t i v) : Bucketed hash t i (covered ++ [v]) := by
  intro k below
  have indexed : ∀ v, t.hashToBucket hash i v = s.hashToBucket hash i v :=
    hashToBucket_congr (inserted.length i)
  rw [inserted.length i] at below
  have ⟨front, back, shape, here, before⟩ := bucketed k below
  by_cases isIts : k = s.hashToBucket hash i v
  · subst isIts
    have nothing : back = [] := by
      apply head_or_end (i := i)
      exact congrArg Prod.fst (Option.some.inj (here.symm.trans empty))
    rw [nothing, append_nil] at shape
    refine ⟨covered, [v], rfl, ?_, ?_⟩
    · rw [inserted.here, getElem?_set_self below]
      rfl
    · intro w member
      rw [indexed]
      exact before w (shape ▸ member)
  · have kept : (t.buckets i)[k]? = (s.buckets i)[k]? := by
      rw [inserted.here, getElem?_set_ne (Ne.symm isIts)]
    rw [kept, here]
    cases back with
    | nil =>
      refine ⟨front ++ [v], [], by rw [shape]; simp, rfl, ?_⟩
      intro w member
      rw [indexed]
      rcases mem_append.mp member with inFront | isNew
      · exact before w inFront
      · rw [mem_singleton.mp isNew]
        exact fun same => isIts same.symm
    | cons w rest =>
      refine ⟨front, w :: rest ++ [v], by rw [shape]; simp, rfl, ?_⟩
      intro w member
      rw [indexed]
      exact before w member

theorem bucket_of_ne (inserted : Inserted hash s t i v) {w : ν}
    (differs : s.hashToBucket hash i w ≠ s.hashToBucket hash i v) :
    t.bucket hash i w = s.bucket hash i w := by
  rw [Sets.bucket, Sets.bucket, hashToBucket_congr (inserted.length i), inserted.here,
    getElem?_set_ne (Ne.symm differs)]

/-- These elements can be inserted one after the other, each in a bucket that has no range. -/
structure Room (hash : ν → Nat) (s : Sets ν) (i : Nat) (values : List ν) : Prop where
  empty : ∀ v ∈ values, s.bucket hash i v = some (Sets.end_ i, Sets.end_ i)
  distinct : (values.map (s.hashToBucket hash i)).Nodup

theorem Room.rest (room : Room hash s i (v :: values)) (inserted : Inserted hash s t i v) :
    Room hash t i values where
  empty := by
    intro w member
    have ⟨notIn, _⟩ := nodup_cons.mp room.distinct
    rw [bucket_of_ne inserted fun same => notIn (same ▸ mem_map_of_mem member)]
    exact room.empty w (mem_cons_of_mem _ member)
  distinct := by
    have same : t.hashToBucket hash i = s.hashToBucket hash i :=
      funext (hashToBucket_congr (inserted.length i))
    rw [same]
    exact (nodup_cons.mp room.distinct).2

theorem Room.initializeBuckets (s : Sets ν) {i : Nat} (some_ : 0 < (s.buckets i).length)
    (distinct : (values.map (s.hashToBucket hash i)).Nodup) :
    Room hash (s.initializeBuckets i) i values where
  empty v _ := by
    apply initializeBuckets_get
    exact (hashToBucket_congr (length_initializeBuckets s i i) v) ▸ hashToBucket_lt some_ v
  distinct := by
    have same : (s.initializeBuckets i).hashToBucket hash i = s.hashToBucket hash i :=
      funext (hashToBucket_congr (length_initializeBuckets s i i))
    rw [same]
    exact distinct

theorem Room.congr (room : Room hash s i values) (same : t.buckets i = s.buckets i) :
    Room hash t i values where
  empty v member := by
    rw [Sets.bucket, hashToBucket_congr (congrArg List.length same), same]
    exact room.empty v member
  distinct := by
    have indexed : t.hashToBucket hash i = s.hashToBucket hash i :=
      funext (hashToBucket_congr (congrArg List.length same))
    rw [indexed]
    exact room.distinct

variable [DecidableEq ν]

theorem insert_eq (stored : Stored s c) (new : ∀ o, v ∉ c o)
    (empty : s.bucket hash i v = some (Sets.end_ i, Sets.end_ i)) :
    ∃ t, s.insert hash i v = some t ∧
      Stored t (update c (.set i) (c (.set i) ++ [v])) ∧ Inserted hash s t i v := by
  have ⟨t, inserts, stored', same⟩ := stored.append (.set i) new
  have isLast : t.previous (.last (.set i)) = some (.node v) := by
    rw [stored'.last_eq, update_self]
    simp
  refine ⟨t.setBucket hash i v (some (.node v), Sets.end_ i), ?_, ?_, ?_⟩
  · rw [Sets.insert, empty, bind_some]
    dsimp only
    rw [Sets.end_, inserts, bind_some, Option.map_some, isLast]
  · exact
      { forth := stored'.forth, back := stored'.back, count := stored'.count
        nodup := stored'.nodup, apart := stored'.apart, free := stored'.free }
  · have indexed : t.hashToBucket hash i v = s.hashToBucket hash i v :=
      hashToBucket_congr (by rw [same]) v
    constructor
    · rw [Sets.setBucket, indexed, same]
      exact update_self _ _ _
    · intro j differs
      rw [Sets.setBucket, same]
      exact update_of_ne differs _ _

theorem insertAll_eq (stored : Stored s c) (bucketed : Bucketed hash s i covered)
    (distinct : values.Nodup) (new : ∀ v ∈ values, ∀ o, v ∉ c o) (room : Room hash s i values) :
    ∃ t, s.insertAll hash i values = some t ∧
      Stored t (update c (.set i) (c (.set i) ++ values)) ∧
      Bucketed hash t i (covered ++ values) ∧ (∀ j, (t.buckets j).length = (s.buckets j).length) ∧
      ∀ j, j ≠ i → t.buckets j = s.buckets j := by
  induction values generalizing s c covered with
  | nil =>
    refine ⟨s, rfl, ?_, by rwa [append_nil], fun _ => rfl, fun _ _ => rfl⟩
    rw [append_nil, update_eq_self]
    exact stored
  | cons v rest ih =>
    have empty := room.empty v mem_cons_self
    have ⟨notIn, distinct'⟩ := nodup_cons.mp distinct
    have ⟨t, inserts, stored', inserted⟩ := insert_eq stored (new v mem_cons_self) empty
    have new' : ∀ w ∈ rest, ∀ o, w ∉ update c (.set i) (c (.set i) ++ [v]) o := by
      intro w member o
      by_cases here : o = .set i
      · subst here
        rw [update_self]
        intro inside
        rcases mem_append.mp inside with before | isNew
        · exact new w (mem_cons_of_mem _ member) _ before
        · exact notIn (mem_singleton.mp isNew ▸ member)
      · rw [update_of_ne here]
        exact new w (mem_cons_of_mem _ member) o
    have ⟨u, rests, stored'', bucketed', lengths, others⟩ :=
      ih stored' (bucketed.insert empty inserted) distinct' new' (room.rest inserted)
    refine ⟨u, by rw [Sets.insertAll, inserts, bind_some, rests], ?_, ?_, ?_, ?_⟩
    · rw [update_idem, update_self, append_assoc] at stored''
      exact stored''
    · rw [append_assoc] at bucketed'
      exact bucketed'
    · exact fun j => (lengths j).trans (inserted.length j)
    · exact fun j differs => (others j differs).trans (inserted.others j differs)

/-! ### Elements that go from one list to another -/

omit [DecidableEq ν] in
theorem update_pair {p : Owner} (c : Owner → List ν) (a a' b b' : List ν) :
    update (update (update (update c o a) p b) o a') p b' =
      update (update c o a') p b' := by
  funext q
  by_cases isSecond : q = p
  · rw [isSecond, update_self, update_self]
  · simp only [update_of_ne isSecond]
    by_cases isFirst : q = o
    · rw [isFirst, update_self, update_self]
    · simp only [update_of_ne isFirst, update_of_ne isSecond]

theorem transfer {rest : List ν} (stored : Stored s c) (differs : o ≠ .set i)
    (shape : c o = v :: rest) (empty : s.bucket hash i v = some (Sets.end_ i, Sets.end_ i)) :
    ∃ t u, s.listErase o v = some t ∧ t.insert hash i v = some u ∧
      Stored u (update (update c o rest) (.set i) (c (.set i) ++ [v])) ∧
      Inserted hash s u i v := by
  have ⟨t, erases, left, same⟩ := stored.remove (show c o = [] ++ v :: rest from shape)
  rw [nil_append] at left
  have free : ∀ p, v ∉ update c o rest p := by
    intro p
    by_cases here : p = o
    · rw [here, update_self]
      have distinct := stored.nodup o
      rw [shape] at distinct
      exact (nodup_cons.mp distinct).1
    · rw [update_of_ne here]
      intro inside
      exact here (stored.apart inside (by rw [shape]; exact mem_cons_self))
  have empty' : t.bucket hash i v = some (Sets.end_ i, Sets.end_ i) := by
    rw [Sets.bucket, hashToBucket_congr (congrArg List.length (congrFun same i)), same]
    exact empty
  have ⟨u, inserts, stored', inserted⟩ := insert_eq left free empty'
  rw [update_of_ne differs.symm] at stored'
  refine ⟨t, u, erases, inserts, stored', ?_, ?_⟩
  · rw [inserted.here, hashToBucket_congr (congrArg List.length (congrFun same i)), same]
  · exact fun j other => (inserted.others j other).trans (congrFun same j)

/-- What a loop that takes all elements of a list and inserts them in a set has done. -/
structure Transferred (hash : ν → Nat) (s t : Sets ν) (c : Owner → List ν) (o : Owner) (i : Nat)
    (left values : List ν) : Prop where
  stored : Stored t (update (update c o left) (.set i) (c (.set i) ++ values))
  bucketed : ∀ {covered}, Bucketed hash s i covered → Bucketed hash t i (covered ++ values)
  lengths : ∀ j, (t.buckets j).length = (s.buckets j).length
  others : ∀ j, j ≠ i → t.buckets j = s.buckets j

variable {left front' back' : List ν} {equal : ν → ν → Bool}

omit [DecidableEq ν] in
theorem Transferred.done (stored : Stored s c) (shape : c o = left) :
    Transferred hash s s c o i left [] where
  stored := by
    rw [append_nil, ← shape, update_eq_self, update_eq_self]
    exact stored
  bucketed bucketed := by rwa [append_nil]
  lengths _ := rfl
  others _ _ := rfl

omit [DecidableEq ν] in
theorem Transferred.cons {u : Sets ν} {rest : List ν}
    (empty : s.bucket hash i v = some (Sets.end_ i, Sets.end_ i)) (inserted : Inserted hash s t i v)
    (later : Transferred hash t u (update (update c o rest) (.set i) (c (.set i) ++ [v])) o i left
      values) :
    Transferred hash s u c o i left (v :: values) where
  stored := by
    have stored := later.stored
    rw [update_pair, update_self, append_assoc] at stored
    exact stored
  bucketed bucketed := by
    have bucketed' := later.bucketed (bucketed.insert empty inserted)
    rwa [append_assoc] at bucketed'
  lengths j := (later.lengths j).trans (inserted.length j)
  others j other := (later.others j other).trans (inserted.others j other)

omit [DecidableEq ν] in
theorem begin_cons {rest : List ν} (stored : Stored s c) (shape : c o = v :: rest) :
    s.beginNode o = some (.node v) ∧ s.numberOfElements o ≠ 0 := by
  rw [stored.first_eq o, stored.count o, shape]
  exact ⟨rfl, nofun⟩

theorem moveAll_eq (stored : Stored s c) (differs : i ≠ other) (shape : c (.set other) = values)
    (room : Room hash s i values) (enough : values.length ≤ fuel) :
    ∃ t, s.moveAll hash i other fuel = some t ∧
      Transferred hash s t c (.set other) i [] values := by
  induction values generalizing s c fuel with
  | nil =>
    have nothing : s.numberOfElements (.set other) = 0 := by rw [stored.count, shape]; rfl
    refine ⟨s, ?_, .done stored shape⟩
    cases fuel <;> exact if_pos nothing
  | cons v rest ih =>
    cases fuel with
    | zero => exact absurd enough (Nat.not_succ_le_zero _)
    | succ fuel =>
      have apart : Owner.set other ≠ Owner.set i := fun same => differs (Owner.set.inj same).symm
      have ⟨first, some_⟩ := begin_cons stored shape
      have empty := room.empty v mem_cons_self
      have ⟨t, u, erases, inserts, stored', inserted⟩ := transfer stored apart shape empty
      have ⟨w, moves, later⟩ := ih stored'
        (by rw [update_of_ne apart, update_self]) (room.rest inserted)
        (Nat.le_of_succ_le_succ enough)
      refine ⟨w, ?_, later.cons empty inserted⟩
      rw [Sets.moveAll, if_neg some_, Sets.begin, first]
      dsimp only
      rw [erases, bind_some, inserts, bind_some, moves]

theorem takeAll_eq (stored : Stored s c) (differs : i ≠ other) (shape : c (.set other) = values)
    (room : Room hash s i values) (enough : values.length ≤ fuel) (currentEnd : Option (Place ν)) :
    ∃ t, s.takeAll hash i other fuel currentEnd =
        some (t, if currentEnd = Sets.end_ i then (values.map Place.node).head?.or (Sets.end_ i)
          else currentEnd) ∧
      Transferred hash s t c (.set other) i [] values := by
  induction values generalizing s c fuel currentEnd with
  | nil =>
    have nothing : s.numberOfElements (.set other) = 0 := by rw [stored.count, shape]; rfl
    refine ⟨s, ?_, .done stored shape⟩
    have kept : (if currentEnd = Sets.end_ i then
        (([] : List ν).map Place.node).head?.or (Sets.end_ i) else currentEnd) = currentEnd := by
      split
      · next same => exact same.symm
      · rfl
    rw [kept]
    cases fuel <;> exact if_pos nothing
  | cons v rest ih =>
    cases fuel with
    | zero => exact absurd enough (Nat.not_succ_le_zero _)
    | succ fuel =>
      have apart : Owner.set other ≠ Owner.set i := fun same => differs (Owner.set.inj same).symm
      have ⟨first, some_⟩ := begin_cons stored shape
      have empty := room.empty v mem_cons_self
      have ⟨t, u, erases, inserts, stored', inserted⟩ := transfer stored apart shape empty
      rw [← stored.popFront_eq shape] at erases
      have isLast : u.previous (.last (.set i)) = some (.node v) := by
        rw [stored'.last_eq, update_self]
        simp
      have ⟨w, takes, later⟩ := ih stored'
        (by rw [update_of_ne apart, update_self]) (room.rest inserted)
        (Nat.le_of_succ_le_succ enough)
        (if currentEnd = Sets.end_ i then currentEnd.bind u.previous else currentEnd)
      refine ⟨w, ?_, later.cons empty inserted⟩
      rw [Sets.takeAll, if_neg some_, Sets.begin, first]
      dsimp only
      rw [erases, bind_some, inserts, bind_some, takes]
      by_cases same : currentEnd = Sets.end_ i
      · have stepped : currentEnd.bind u.previous = some (.node v) := by
          rw [same]
          exact isLast
        have isNot : (some (Place.node v) : Option (Place ν)) ≠ Sets.end_ i := nofun
        rw [if_pos same, stepped, if_neg isNot, if_pos same]
        rfl
      · rw [if_neg same, if_neg same, if_neg same]

theorem giveAll_eq {kept : List ν} (stored : Stored s c) (differs : i ≠ other)
    (shape : c (.set i) = values ++ kept) (room : Room hash s other values)
    (enough : values.length ≤ fuel) :
    ∃ t, s.giveAll hash i other ((kept.map Place.node).head?.or (Sets.end_ i)) fuel = some t ∧
      Transferred hash s t c (.set i) other kept values := by
  induction values generalizing s c fuel with
  | nil =>
    have first : s.begin i = (kept.map Place.node).head?.or (Sets.end_ i) := by
      rw [Sets.begin, stored.first_eq, shape]
      rfl
    refine ⟨s, ?_, .done stored shape⟩
    cases fuel <;> exact if_pos first
  | cons v rest ih =>
    cases fuel with
    | zero => exact absurd enough (Nat.not_succ_le_zero _)
    | succ fuel =>
      have apart : Owner.set i ≠ Owner.set other := fun same => differs (Owner.set.inj same)
      have ⟨first, _⟩ := begin_cons stored shape
      have distinct := stored.nodup (.set i)
      rw [shape] at distinct
      have notEnd : s.begin i ≠ (kept.map Place.node).head?.or (Sets.end_ i) := by
        rw [Sets.begin, first]
        cases kept with
        | nil => exact nofun
        | cons w more =>
          intro same
          have isSame : v = w := Place.node.inj (Option.some.inj same)
          apply (nodup_cons.mp distinct).1
          rw [isSame]
          exact mem_append_right _ mem_cons_self
      have empty := room.empty v mem_cons_self
      have ⟨t, u, erases, inserts, stored', inserted⟩ := transfer stored apart shape empty
      rw [← stored.popFront_eq shape] at erases
      have ⟨w, gives, later⟩ := ih stored'
        (by rw [update_of_ne apart, update_self]; rfl) (room.rest inserted)
        (Nat.le_of_succ_le_succ enough)
      refine ⟨w, ?_, later.cons empty inserted⟩
      rw [Sets.giveAll, if_neg notEnd, Sets.begin, first]
      dsimp only
      rw [erases, bind_some, inserts, bind_some, gives]

/-! ### Erasure -/

/-- No other bucket refers to the node, and it is not the last in the range of its own unless it is
also the first. -/
def Unreferred (hash : ν → Nat) (s : Sets ν) (i : Nat) (v : ν) : Prop :=
  (∀ k < (s.buckets i).length, k ≠ s.hashToBucket hash i v → ∀ borders ∈ (s.buckets i)[k]?,
    borders.1 ≠ some (.node v) ∧ borders.2 ≠ some (.node v)) ∧
  ∀ borders ∈ s.bucket hash i v,
    borders.1 = some (.node v) ∨ borders.2.bind s.previous ≠ some (.node v)

omit [DecidableEq ν] in
theorem split_unique (distinct : (front ++ v :: back).Nodup)
    (same : front' ++ v :: back' = front ++ v :: back) : front' = front ∧ back' = back := by
  have notIn := fun {f b : List ν} (distinct : (f ++ v :: b).Nodup) =>
    not_or.mp (mem_append.not.mp
      (nodup_cons.mp (perm_middle.nodup_iff.mp distinct)).1)
  have distinct' : (front' ++ v :: back').Nodup := same ▸ distinct
  have ⟨fronts, _, backs⟩ := (append_cons_inj_of_notMem (notIn distinct').1
    (notIn distinct').2).mp same
  exact ⟨fronts, backs⟩

omit [DecidableEq ν] in
theorem split_without (distinct : (front ++ v :: back).Nodup)
    (shape : front ++ v :: back = front' ++ back') (notHead : back'.head? ≠ some v) :
    ∃ front'' back'', front ++ back = front'' ++ back'' ∧ back''.head? = back'.head? ∧
      ∀ w ∈ front'', w ∈ front' := by
  have member : v ∈ front' ++ back' := shape ▸ (by simp)
  rcases mem_append.mp member with inFront | inBack
  · have ⟨before, after, split⟩ := append_of_mem inFront
    rw [split, append_assoc, cons_append] at shape
    have ⟨isFront, isBack⟩ := split_unique distinct shape.symm
    refine ⟨before ++ after, back', by rw [← isFront, ← isBack, append_assoc], rfl, ?_⟩
    intro w inside
    rw [split]
    rcases mem_append.mp inside with early | late
    · exact mem_append_left _ early
    · exact mem_append_right _ (mem_cons_of_mem _ late)
  · have ⟨before, after, split⟩ := append_of_mem inBack
    rw [split, ← append_assoc] at shape
    have ⟨isFront, isBack⟩ := split_unique distinct shape.symm
    refine ⟨front', before ++ after, by rw [← isFront, ← isBack, append_assoc], ?_, fun _ => id⟩
    rw [split]
    cases before with
    | nil => exact absurd (by rw [split]; rfl) notHead
    | cons w more => rfl

omit [DecidableEq ν] in
theorem head_eq :
    (elements.map Place.node).head?.or (Sets.end_ i) = some (.node v) ↔ elements.head? = some v := by
  cases elements with
  | nil => exact iff_of_false nofun nofun
  | cons w rest =>
    constructor
    · intro same
      exact congrArg some (Place.node.inj (Option.some.inj same))
    · intro same
      exact congrArg (some ∘ Place.node) (Option.some.inj same)

omit [DecidableEq ν] in
theorem head_congr {others : List ν} (same : elements.head? = others.head?) :
    (elements.map Place.node).head?.or (Sets.end_ i) =
      (others.map Place.node).head?.or (Sets.end_ i) := by
  rw [head?_map, head?_map, same]

theorem erase_eq (some_ : 0 < (s.buckets i).length) (stored : Stored s c)
    (shape : c (.set i) = front ++ v :: back) (bucketed : Bucketed hash s i (c (.set i)))
    (unreferred : Unreferred hash s i v) :
    ∃ t, s.erase hash i v = some t ∧ Stored t (update c (.set i) (front ++ back)) ∧
      Bucketed hash t i (front ++ back) ∧ (∀ j, (t.buckets j).length = (s.buckets j).length) ∧
      ∀ j, j ≠ i → t.buckets j = s.buckets j := by
  have distinct := stored.nodup (.set i)
  rw [shape] at distinct bucketed
  have ⟨front', back', split, here, before⟩ := bucket_eq some_ bucketed v
  have isNext := stored.next_eq shape
  by_cases isFirst : back'.head? = some v
  · have first := (head_eq (i := i)).mpr isFirst
    have ⟨rest, isRest⟩ : ∃ rest, back' = v :: rest := by
      cases back' with
      | nil => exact nomatch isFirst
      | cons w rest => exact ⟨rest, by rw [Option.some.inj isFirst]⟩
    rw [isRest] at split
    have ⟨isFront, isBack⟩ := split_unique distinct split.symm
    have stored' : Stored
        (s.setBucket hash i v ((back.map Place.node).head?.or (Sets.end_ i), Sets.end_ i)) c :=
      { forth := stored.forth, back := stored.back, count := stored.count
        nodup := stored.nodup, apart := stored.apart, free := stored.free }
    have ⟨t, erases, left, buckets⟩ := stored'.remove shape
    have mine : t.buckets i = (s.buckets i).set (s.hashToBucket hash i v)
        ((back.map Place.node).head?.or (Sets.end_ i), Sets.end_ i) := by
      rw [buckets]
      exact update_self _ _ _
    have lengths : ∀ j, (t.buckets j).length = (s.buckets j).length := by
      intro j
      by_cases same : j = i
      · rw [same, mine, length_set]
      · rw [buckets, Sets.setBucket]
        exact congrArg List.length (update_of_ne same _ _)
    refine ⟨t, ?_, left, ?_, lengths, ?_⟩
    · rw [Sets.erase, here, bind_some]
      dsimp only
      rw [if_pos first, first, bind_some, isNext]
      exact erases
    · intro k below
      rw [lengths i] at below
      by_cases own : k = s.hashToBucket hash i v
      · subst own
        refine ⟨front, back, rfl, ?_, ?_⟩
        · rw [mine, getElem?_set_self below]
        · intro w member
          rw [hashToBucket_congr (lengths i)]
          exact before w (isFront ▸ member)
      · have ⟨front₂, back₂, split₂, here₂, before₂⟩ := bucketed k below
        have notHead : back₂.head? ≠ some v := fun same =>
          (unreferred.1 k below own _ here₂).1 (head_eq.mpr same)
        have ⟨front₃, back₃, split₃, head₃, fewer⟩ := split_without distinct split₂ notHead
        refine ⟨front₃, back₃, split₃, ?_, ?_⟩
        · rw [mine, getElem?_set_ne (Ne.symm own), here₂, head_congr head₃]
        · intro w member
          rw [hashToBucket_congr (lengths i)]
          exact before₂ w (fewer w member)
    · intro j differs
      rw [buckets, Sets.setBucket]
      exact update_of_ne differs _ _
  · have notFirst := (head_eq (i := i)).not.mpr isFirst
    have notLast : (Sets.end_ i).bind s.previous ≠ some (.node v) :=
      (unreferred.2 _ here).resolve_left notFirst
    have ⟨t, erases, left, buckets⟩ := stored.remove shape
    refine ⟨t, ?_, left, ?_, fun j => by rw [buckets], fun j _ => by rw [buckets]⟩
    · rw [Sets.erase, here, bind_some]
      dsimp only
      rw [if_neg notFirst, if_neg notLast]
      exact erases
    · intro k below
      rw [buckets] at below
      have ⟨front₂, back₂, split₂, here₂, before₂⟩ := bucketed k below
      have notHead : back₂.head? ≠ some v := by
        by_cases own : k = s.hashToBucket hash i v
        · subst own
          intro same
          have borders := Option.some.inj (here₂.symm.trans here)
          exact notFirst ((congrArg Prod.fst borders).symm.trans (head_eq.mpr same))
        · exact fun same => (unreferred.1 k below own _ here₂).1 (head_eq.mpr same)
      have ⟨front₃, back₃, split₃, head₃, fewer⟩ := split_without distinct split₂ notHead
      refine ⟨front₃, back₃, split₃, by rw [buckets, here₂, head_congr head₃], ?_⟩
      intro w member
      rw [hashToBucket_congr (congrArg List.length (congrFun buckets i))]
      exact before₂ w (fewer w member)

theorem erase_free (some_ : 0 < (s.buckets i).length) (stored : Stored s c)
    (bucketed : Bucketed hash s i (c (.set i))) (free : ∀ o, v ∉ c o) :
    s.erase hash i v = some s := by
  have ⟨front, back, split, here, _⟩ := bucket_eq some_ bucketed v
  have notFirst : (back.map Place.node).head?.or (Sets.end_ i) ≠ some (.node v) := by
    intro same
    apply free (.set i)
    rw [split]
    exact mem_append_right _ (mem_of_head? (head_eq.mp same))
  have notLast : (Sets.end_ i).bind s.previous ≠ some (.node v) := by
    rw [Sets.end_, bind_some, stored.last_eq]
    exact fun same => free (.set i) (node_mem.mp (mem_of_getLast? same))
  rw [Sets.erase, here, bind_some]
  dsimp only
  rw [if_neg notFirst, if_neg notLast]
  exact stored.listErase_free free (.set i)

/-! ### Queries -/

theorem elementsFrom_eq (stored : Stored s c) (shape : c o = front ++ back)
    (enough : back.length ≤ fuel) :
    s.elementsFrom o fuel ((back.map Place.node).head?.or (some (.last o))) = some back := by
  induction back generalizing front fuel with
  | nil => cases fuel <;> exact if_pos rfl
  | cons w rest ih =>
    cases fuel with
    | zero => exact absurd enough (Nat.not_succ_le_zero _)
    | succ fuel =>
      have shape' : c o = (front ++ [w]) ++ rest := by rw [shape]; simp
      have later := ih shape' (Nat.le_of_succ_le_succ enough)
      rw [← stored.next_eq shape] at later
      change (s.elementsFrom o fuel (s.next (.node w))).map _ = _
      rw [later]
      rfl

theorem iterate_eq (stored : Stored s c) (i : Nat) : s.iterate i = some (c (.set i)) := by
  rw [Sets.iterate, Sets.begin, stored.first_eq]
  exact elementsFrom_eq stored (show c (.set i) = [] ++ c (.set i) from rfl)
    (Nat.le_of_eq (stored.count _).symm)

theorem search_eq (stored : Stored s c) (shape : c (.set i) = front ++ back) (found : ν → Bool)
    (enough : back.length ≤ fuel) :
    s.search found (Sets.end_ i) fuel ((back.map Place.node).head?.or (Sets.end_ i)) =
      some (back.any found) := by
  induction back generalizing front fuel with
  | nil => cases fuel <;> exact if_pos rfl
  | cons w rest ih =>
    cases fuel with
    | zero => exact absurd enough (Nat.not_succ_le_zero _)
    | succ fuel =>
      have shape' : c (.set i) = (front ++ [w]) ++ rest := by rw [shape]; simp
      have later := ih shape' (Nat.le_of_succ_le_succ enough)
      have isNext : s.next (.node w) = (rest.map Place.node).head?.or (Sets.end_ i) :=
        stored.next_eq shape
      rw [← isNext] at later
      have notEnd : (some (Place.node w) : Option (Place ν)) ≠ Sets.end_ i := nofun
      rw [map_cons, head?_cons, some_or, Sets.search, if_neg notEnd, later,
        any_cons]
      cases found w <;> rfl

theorem lookup_eq (some_ : 0 < (s.buckets i).length) (stored : Stored s c)
    (bucketed : Bucketed hash s i (c (.set i))) (value : ν) (found : ν → Bool)
    (compatible : ∀ v, found v = true → hash v = hash value) :
    ((s.bucket hash i value).bind fun (first, second) =>
      s.search found second (s.numberOfElements (.set i)) first) =
        some ((c (.set i)).any found) := by
  have ⟨front, back, split, here, before⟩ := bucket_eq some_ bucketed value
  have enough : back.length ≤ s.numberOfElements (.set i) := by
    rw [stored.count, split, length_append]
    exact Nat.le_add_left _ _
  have notFront : front.any found = false := by
    rw [any_eq_false]
    intro w member isFound
    apply before w member
    rw [Sets.hashToBucket, Sets.hashToBucket, compatible w isFound]
  rw [here, bind_some]
  dsimp only
  rw [search_eq stored split found enough, split, any_append, notFront, Bool.false_or]

theorem hasElement_eq (some_ : 0 < (s.buckets i).length) (stored : Stored s c)
    (bucketed : Bucketed hash s i (c (.set i))) (value : ν) :
    s.hasElement hash i value = some (decide (value ∈ c (.set i))) := by
  have looked := lookup_eq some_ stored bucketed value (fun v => decide (v = value))
    fun v same => congrArg hash (of_decide_eq_true same)
  rw [Sets.hasElement, looked]
  congr 1
  rw [Bool.eq_iff_iff, any_eq_true, decide_eq_true_iff]
  constructor
  · intro ⟨v, member, same⟩
    exact of_decide_eq_true same ▸ member
  · exact fun member => ⟨value, member, decide_eq_true rfl⟩

theorem contains_eq (compatible : ∀ v w, equal v w = true → hash v = hash w)
    (some_ : 0 < (s.buckets i).length) (stored : Stored s c)
    (bucketed : Bucketed hash s i (c (.set i))) (value : ν) :
    s.contains hash equal i value = some ((c (.set i)).any (equal · value)) :=
  lookup_eq some_ stored bucketed value (equal · value) fun v same => compatible v value same

theorem equals_eq (compatible : ∀ v w, equal v w = true → hash v = hash w)
    (some_ : 0 < (s.buckets other).length) (stored : Stored s c)
    (bucketed : Bucketed hash s other (c (.set other))) (i : Nat) :
    s.equals hash equal i other = some (decide ((c (.set i)).length = (c (.set other)).length) &&
      (c (.set i)).all fun v => (c (.set other)).any (equal · v)) := by
  have loop : ∀ {fuel front back}, c (.set i) = front ++ back → back.length ≤ fuel →
      s.equalsLoop hash equal i other fuel ((back.map Place.node).head?.or (Sets.end_ i)) =
        some (back.all fun v => (c (.set other)).any (equal · v)) := by
    intro fuel front back shape enough
    induction back generalizing front fuel with
    | nil => cases fuel <;> exact if_pos rfl
    | cons w rest ih =>
      cases fuel with
      | zero => exact absurd enough (Nat.not_succ_le_zero _)
      | succ fuel =>
        have shape' : c (.set i) = (front ++ [w]) ++ rest := by rw [shape]; simp
        have later := ih shape' (Nat.le_of_succ_le_succ enough)
        have isNext : s.next (.node w) = (rest.map Place.node).head?.or (Sets.end_ i) :=
          stored.next_eq shape
        rw [← isNext] at later
        rw [map_cons, head?_cons, some_or, Sets.equalsLoop,
          contains_eq compatible some_ stored bucketed w, bind_some, later,
          all_cons]
        cases (c (.set other)).any (equal · w) <;> rfl
  rw [Sets.equals, stored.count, stored.count]
  by_cases same : (c (.set i)).length = (c (.set other)).length
  · rw [if_neg (not_not_intro same), Sets.begin, stored.first_eq, decide_eq_true same,
      Bool.true_and]
    exact loop (show c (.set i) = [] ++ c (.set i) from rfl) (Nat.le_refl _)
  · rw [if_pos same, decide_eq_false same, Bool.false_and]

end IntrusiveSets
