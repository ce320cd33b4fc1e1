import EmbeddedInfra.Lockstep
import EmbeddedInfra.Util.SetElements

/-! When `IntrusiveUnorderedSet`s find exactly their elements: an element that is inserted in a bucket
with others falls outside its range, and one that is erased may still be a border. -/

namespace IntrusiveSets

open List
open Function (update_eq_self update_idem update_of_ne update_self)

open Lockstep

variable {ν : Type}

inductive Call (ν : Type)
  | insert (i : Nat) (v : ν)
  | erase (i : Nat) (v : ν)
  | assign (i : Nat) (values : List ν)
  | clear (i : Nat)
  | swap (i other : Nat)
  | move (i other : Nat)

/-- Sets with these numbers of buckets, of which none has an element. -/
def Sets.initial (sizes : Nat → Nat) : Sets ν where
  next _ := none
  previous _ := none
  beginNode o := some (.last o)
  numberOfElements _ := 0
  buckets i := List.replicate (sizes i) (Sets.end_ i, Sets.end_ i)

variable [DecidableEq ν] (hash : ν → Nat) (equal : ν → ν → Bool)

def perform (s : Sets ν) (call : Call ν) : Option (Sets ν × Unit) :=
  (match call with
    | .insert i v => s.insert hash i v
    | .erase i v => s.erase hash i v
    | .assign i values => s.assign hash i values
    | .clear i => s.clear i
    | .swap i other => s.swap hash i other
    | .move i other => s.move hash i other).map fun t => (t, ())

/-- What the sets should then contain. -/
def plain (m : Nat → List ν) : Call ν → Nat → List ν
  | .insert i v => Function.update m i (m i ++ [v])
  | .erase i v => Function.update m i ((m i).erase v)
  | .assign i values => Function.update m i values
  | .clear i => Function.update m i []
  | .swap i other => Function.update (Function.update m other (m i)) i (m other)
  | .move i other => Function.update (Function.update m other []) i (m other)

/-- Nodes that are inserted are in no list, and those that are erased are in the set or in no list. -/
def Allowed (m : Nat → List ν) : Call ν → Prop
  | .insert _ v => ∀ j, v ∉ m j
  | .erase i v => v ∈ m i ∨ ∀ j, v ∉ m j
  | .assign i values => values.Nodup ∧ ∀ v ∈ values, ∀ j, j ≠ i → v ∉ m j
  | .clear _ => True
  | .swap i other => i ≠ other
  | .move i other => i ≠ other

/-- The sets contain these elements and find them, and no bucket refers to another node. -/
structure Shows (s : Sets ν) (m : Nat → List ν) : Prop where
  iterates : ∀ i, ∃ elements, s.iterate i = some elements ∧ elements.Nodup ∧ elements.Perm (m i)
  hasElement : ∀ i v, s.hasElement hash i v = some (decide (v ∈ m i))
  contains : ∀ i v, s.contains hash equal i v = some ((m i).any (equal · v))
  equals : ∀ i j, s.equals hash equal i j = some (decide ((m i).length = (m j).length) &&
    (m i).all fun v => (m j).any (equal · v))
  borders : ∀ i, ∀ borders ∈ s.buckets i, ∀ v,
    borders.1 = some (.node v) ∨ borders.2 = some (.node v) → v ∈ m i

/-- After every call the sets show what they should contain. -/
abbrev Refines : Sets ν → (Nat → List ν) → List (Call ν) → Prop :=
  Lockstep.Refines (perform hash) plain (fun _ _ => ()) (Shows hash equal)

/-- An insertion finds an empty range, an erasure leaves no border behind, sets with the same number of
buckets are not swapped, and elements that are inserted together do not share a bucket. -/
def Meets (s : Sets ν) (m : Nat → List ν) : Call ν → Prop
  | .insert i v => ∃ borders ∈ s.bucket hash i v, borders.1 = borders.2
  | .erase i v => Unreferred hash s i v
  | .assign i values => (values.map (s.hashToBucket hash i)).Nodup
  | .clear _ => True
  | .swap i other => (s.buckets i).length ≠ (s.buckets other).length ∧
      ((m other).map (s.hashToBucket hash i)).Nodup ∧ ((m i).map (s.hashToBucket hash other)).Nodup
  | .move i other => ((m other).map (s.hashToBucket hash i)).Nodup

abbrev AllAllowed : (Nat → List ν) → List (Call ν) → Prop := Always plain Allowed

abbrev AllMeet : Sets ν → (Nat → List ν) → List (Call ν) → Prop :=
  Throughout (perform hash) plain (Meets hash)

instance (s : Sets ν) (i : Nat) (v : ν) : Decidable (Unreferred hash s i v) :=
  instDecidableAnd

instance (s : Sets ν) (m : Nat → List ν) : (call : Call ν) → Decidable (Meets hash s m call)
  | .insert i v => inferInstanceAs (Decidable (∃ borders ∈ s.bucket hash i v, borders.1 = borders.2))
  | .erase i v => inferInstanceAs (Decidable (Unreferred hash s i v))
  | .assign i values => inferInstanceAs (Decidable (values.map (s.hashToBucket hash i)).Nodup)
  | .clear _ => isTrue trivial
  | .swap _ _ => inferInstanceAs (Decidable (_ ∧ _ ∧ _))
  | .move i other => inferInstanceAs (Decidable ((m other).map (s.hashToBucket hash i)).Nodup)

omit [DecidableEq ν] in
def lists (m : Nat → List ν) : Owner → List ν
  | .set i => m i
  | .temporary => []

omit [DecidableEq ν] in
theorem lists_update (m : Nat → List ν) (i : Nat) (elements : List ν) :
    Function.update (lists m) (.set i) elements = lists (Function.update m i elements) := by
  funext o
  cases o with
  | temporary =>
    have differs : Owner.temporary ≠ Owner.set i := nofun
    exact update_of_ne differs elements (lists m)
  | set j =>
    by_cases same : j = i
    · rw [same, update_self, lists, update_self]
    · have differs : Owner.set j ≠ Owner.set i := fun equal => same (Owner.set.inj equal)
      rw [update_of_ne differs, lists, lists, update_of_ne same]

/-- The lists hold the elements, and every bucket covers its own. -/
structure Represents (sizes : Nat → Nat) (s : Sets ν) (m : Nat → List ν) : Prop where
  stored : Stored s (lists m)
  bucketed : ∀ i, Bucketed hash s i (m i)
  lengths : ∀ i, (s.buckets i).length = sizes i

variable {hash equal} {sizes : Nat → Nat} {s t : Sets ν} {m : Nat → List ν}

omit [DecidableEq ν] in
theorem Represents.initial (sizes : Nat → Nat) :
    Represents hash sizes (Sets.initial sizes : Sets ν) (fun _ => []) where
  stored :=
    { forth := fun o => by cases o <;> rfl
      back := fun o => by cases o <;> exact ⟨rfl, rfl⟩
      count := fun o => by cases o <;> rfl
      nodup := fun o => by cases o <;> exact nodup_nil
      apart := fun {o _ _} member => by cases o <;> exact nomatch member
      free := fun _ => rfl }
  bucketed i := by
    intro k below
    refine ⟨[], [], rfl, ?_, nofun⟩
    rw [Sets.initial, length_replicate] at below
    rw [Sets.initial, getElem?_replicate, if_pos below]
    rfl
  lengths i := length_replicate

theorem Represents.shows (represents : Represents hash sizes s m)
    (compatible : ∀ v w, equal v w = true → hash v = hash w) (some_ : ∀ i, 0 < sizes i) :
    Shows hash equal s m where
  iterates i := ⟨m i, iterate_eq represents.stored i, represents.stored.nodup (.set i),
    List.Perm.refl _⟩
  hasElement i v :=
    hasElement_eq (represents.lengths i ▸ some_ i) represents.stored (represents.bucketed i) v
  contains i v := contains_eq compatible (represents.lengths i ▸ some_ i) represents.stored
    (represents.bucketed i) v
  equals i j := equals_eq compatible (represents.lengths j ▸ some_ j) represents.stored
    (represents.bucketed j) i
  borders i borders member v refers := by
    have ⟨k, below, isBorders⟩ := getElem_of_mem member
    have ⟨front, back, split, here, _⟩ := represents.bucketed i k below
    rw [getElem?_eq_getElem below, isBorders] at here
    have same := Option.some.inj here
    rw [same] at refers
    rcases refers with first | second
    · rw [split]
      exact mem_append_right _ (mem_of_head? (head_eq.mp first))
    · exact nomatch second

omit [DecidableEq ν] in
theorem Represents.update (represents : Represents hash sizes s m) {i : Nat} {elements : List ν}
    (stored : Stored t (Function.update (lists m) (.set i) elements))
    (bucketed : Bucketed hash t i elements)
    (lengths : ∀ j, (t.buckets j).length = (s.buckets j).length)
    (others : ∀ j, j ≠ i → t.buckets j = s.buckets j) :
    Represents hash sizes t (Function.update m i elements) where
  stored := lists_update m i elements ▸ stored
  bucketed j := by
    by_cases same : j = i
    · rw [same, update_self]
      exact bucketed
    · rw [update_of_ne same]
      exact (represents.bucketed j).congr (others j same)
  lengths j := (lengths j).trans (represents.lengths j)

theorem Represents.clear (represents : Represents hash sizes s m) (i : Nat) :
    ∃ t : Sets ν, s.clear i = some (t.initializeBuckets i) ∧ t.buckets = s.buckets ∧
      Represents hash sizes (t.initializeBuckets i) (Function.update m i []) := by
  have ⟨t, clears, stored, same⟩ := represents.stored.listClear (.set i)
  refine ⟨t, by rw [Sets.clear, clears]; rfl, same, ?_⟩
  apply represents.update (stored.initializeBuckets i) (.initializeBuckets t i)
  · exact fun j => (length_initializeBuckets t i j).trans (by rw [same])
  · exact fun j differs => (initializeBuckets_of_ne t differs).trans (by rw [same])

omit [DecidableEq ν] in
theorem Represents.room (represents : Represents hash sizes s m) (some_ : ∀ i, 0 < sizes i) {i : Nat}
    (same : t.buckets = s.buckets) {values : List ν}
    (distinct : (values.map (s.hashToBucket hash i)).Nodup) :
    Room hash (t.initializeBuckets i) i values := by
  apply Room.initializeBuckets
  · rw [same, represents.lengths]
    exact some_ i
  · have indexed : t.hashToBucket hash i = s.hashToBucket hash i :=
      funext (hashToBucket_congr (by rw [same]))
    rw [indexed]
    exact distinct

theorem Represents.swap (represents : Represents hash sizes s m) (some_ : ∀ i, 0 < sizes i)
    {i other : Nat} (differs : i ≠ other)
    (apart : (s.buckets i).length ≠ (s.buckets other).length)
    (distinct : ((m other).map (s.hashToBucket hash i)).Nodup)
    (distinct' : ((m i).map (s.hashToBucket hash other)).Nodup) :
    ∃ t, s.swap hash i other = some t ∧ Represents hash sizes t (plain m (.swap i other)) := by
  have room := represents.room some_ rfl distinct
  have room' := represents.room some_ rfl distinct'
  have stored := (represents.stored.initializeBuckets i).initializeBuckets other
  have others : ((s.initializeBuckets i).initializeBuckets other).buckets i =
      (s.initializeBuckets i).buckets i := initializeBuckets_of_ne _ differs
  have others' : ((s.initializeBuckets i).initializeBuckets other).buckets other =
      (s.initializeBuckets other).buckets other := by
    simp [Sets.initializeBuckets, update_of_ne (Ne.symm differs)]
  have counted := stored.count (.set other)
  obtain ⟨t, takes, taken⟩ := takeAll_eq stored differs rfl (room.congr others)
    (Nat.le_of_eq counted.symm) (Sets.end_ i)
  have differs' : Owner.set i ≠ Owner.set other := fun same => differs (Owner.set.inj same)
  have shape : Function.update (Function.update (lists m) (.set other) []) (.set i)
      (lists m (.set i) ++ lists m (.set other)) (.set i) = m i ++ m other :=
    update_self _ _ _
  have enough : (m i).length ≤ t.numberOfElements (.set i) := by
    rw [taken.stored.count, shape, length_append]
    exact Nat.le_add_right _ _
  obtain ⟨u, gives, given⟩ := giveAll_eq taken.stored differs shape
    ((room'.congr others').congr (taken.others other (Ne.symm differs))) enough
  refine ⟨u, ?_, ?_, ?_, ?_⟩
  · rw [Sets.swap, if_neg apart]
    dsimp only
    rw [takes, Option.bind_some, if_pos rfl]
    exact gives
  · have final := given.stored
    rw [update_of_ne (Ne.symm differs'), update_self, nil_append,
      update_idem, lists_update, lists_update, lists_update] at final
    have same : Function.update (Function.update (Function.update m other []) i (m other)) other
        (m i) = plain m (.swap i other) := by
      funext j
      rw [plain]
      by_cases isSecond : j = other
      · rw [isSecond, update_self, update_of_ne (Ne.symm differs),
          update_self]
      · by_cases isFirst : j = i
        · rw [isFirst, update_of_ne differs, update_self, update_self]
        · simp only [update_of_ne isFirst, update_of_ne isSecond]
    exact same ▸ final
  · intro j
    rw [plain]
    by_cases isFirst : j = i
    · rw [isFirst, update_self]
      have covered := taken.bucketed ((Bucketed.initializeBuckets s i).congr others)
      exact covered.congr (given.others i differs)
    rw [update_of_ne isFirst]
    by_cases isSecond : j = other
    · rw [isSecond, update_self]
      exact given.bucketed (((Bucketed.initializeBuckets s other).congr others').congr
        (taken.others other (Ne.symm differs)))
    · rw [update_of_ne isSecond]
      apply (represents.bucketed j).congr
      rw [given.others j isSecond, taken.others j isFirst, initializeBuckets_of_ne _ isSecond,
        initializeBuckets_of_ne _ isFirst]
  · intro j
    rw [given.lengths, taken.lengths, length_initializeBuckets, length_initializeBuckets,
      represents.lengths]

theorem Represents.move (represents : Represents hash sizes s m) (some_ : ∀ i, 0 < sizes i)
    {i other : Nat} (differs : i ≠ other)
    (distinct : ((m other).map (s.hashToBucket hash i)).Nodup) :
    ∃ t, s.move hash i other = some t ∧ Represents hash sizes t (plain m (.move i other)) := by
  have ⟨t, clears, same, cleared⟩ := represents.clear i
  have room := represents.room some_ same distinct
  have differs' : Owner.set other ≠ Owner.set i := fun equal => differs (Owner.set.inj equal).symm
  have shape : lists (Function.update m i []) (.set other) = m other :=
    update_of_ne (Ne.symm differs) _ _
  have counted := cleared.stored.count (.set other)
  rw [shape] at counted
  have ⟨u, moves, moved⟩ := moveAll_eq cleared.stored differs shape room
    (Nat.le_of_eq counted.symm)
  refine ⟨u.initializeBuckets other, ?_, ?_, ?_, ?_⟩
  · rw [Sets.move, clears, Option.bind_some, moves]
    rfl
  · have final := moved.stored.initializeBuckets other
    have mine : lists (Function.update m i []) (.set i) = [] := update_self _ _ _
    rw [mine, nil_append, lists_update, lists_update] at final
    have same : Function.update (Function.update (Function.update m i []) other []) i (m other) =
        plain m (.move i other) := by
      funext j
      rw [plain]
      by_cases isFirst : j = i
      · rw [isFirst, update_self, update_self]
      · by_cases isSecond : j = other
        · rw [isSecond, update_of_ne (Ne.symm differs), update_self,
            update_of_ne (Ne.symm differs), update_self]
        · simp only [update_of_ne isFirst, update_of_ne isSecond]
    exact same ▸ final
  · intro j
    rw [plain]
    by_cases isFirst : j = i
    · rw [isFirst, update_self]
      have covered := moved.bucketed (Bucketed.initializeBuckets t i)
      exact covered.congr (initializeBuckets_of_ne u differs)
    rw [update_of_ne isFirst]
    by_cases isSecond : j = other
    · rw [isSecond, update_self]
      exact .initializeBuckets u other
    · rw [update_of_ne isSecond]
      apply (represents.bucketed j).congr
      rw [initializeBuckets_of_ne _ isSecond, moved.others j isFirst,
        initializeBuckets_of_ne _ isFirst, same]
  · intro j
    rw [length_initializeBuckets, moved.lengths, cleared.lengths]

theorem Represents.step (represents : Represents hash sizes s m) (some_ : ∀ i, 0 < sizes i)
    {call : Call ν} (allowed : Allowed m call) (meets : Meets hash s m call) :
    ∃ t, perform hash s call = some (t, ()) ∧ Represents hash sizes t (plain m call) := by
  have performed : ∀ {result : Option (Sets ν)} {m' : Nat → List ν},
      (∃ t, result = some t ∧ Represents hash sizes t m') →
        ∃ t, result.map (fun t => (t, ())) = some (t, ()) ∧ Represents hash sizes t m' :=
    fun ⟨t, result, next⟩ => ⟨t, by rw [result]; rfl, next⟩
  have someBuckets : ∀ i, 0 < (s.buckets i).length := fun i => represents.lengths i ▸ some_ i
  cases call with
  | insert i v =>
    apply performed
    have ⟨⟨border, second⟩, here, same⟩ := meets
    have isSame : border = second := same
    subst isSame
    have ⟨front, back, split, here', _⟩ := bucket_eq (someBuckets i) (represents.bucketed i) v
    have borders := Prod.mk.inj (Option.some.inj ((show _ = some _ from here).symm.trans here'))
    rw [borders.2] at here
    have new : ∀ o, v ∉ lists m o := by
      intro o
      cases o with
      | set j => exact allowed j
      | temporary => exact not_mem_nil
    have ⟨t, inserts, stored, inserted⟩ := insert_eq represents.stored new here
    exact ⟨t, inserts, represents.update stored
      ((represents.bucketed i).insert here inserted) inserted.length inserted.others⟩
  | erase i v =>
    apply performed
    rcases allowed with member | free
    · have ⟨front, back, split⟩ := append_of_mem member
      have ⟨t, erases, stored, bucketed, lengths, others⟩ := erase_eq (someBuckets i)
        represents.stored split (represents.bucketed i) meets
      have distinct : (front ++ v :: back).Nodup := split ▸ represents.stored.nodup (.set i)
      have notFront : v ∉ front := fun inFront =>
        (nodup_append.mp distinct).2.2 v inFront v mem_cons_self rfl
      have isErased : (m i).erase v = front ++ back := by
        rw [split, erase_append_right _ notFront, erase_cons_head]
      rw [plain, isErased]
      exact ⟨t, erases, represents.update stored bucketed lengths others⟩
    · have notIn : ∀ o, v ∉ lists m o := by
        intro o
        cases o with
        | set j => exact free j
        | temporary => exact not_mem_nil
      rw [plain, erase_of_not_mem (free i), update_eq_self]
      exact ⟨s, erase_free (someBuckets i) represents.stored (represents.bucketed i) notIn,
        represents⟩
  | assign i values =>
    apply performed
    have ⟨t, clears, same, cleared⟩ := represents.clear i
    have room := represents.room some_ same meets
    have new : ∀ v ∈ values, ∀ o, v ∉ lists (Function.update m i []) o := by
      intro v member o
      cases o with
      | temporary => exact not_mem_nil
      | set j =>
        by_cases here : j = i
        · rw [here, lists, update_self]
          exact not_mem_nil
        · rw [lists, update_of_ne here]
          exact allowed.2 v member j here
    have ⟨u, inserts, stored, bucketed, lengths, others⟩ :=
      insertAll_eq cleared.stored (cleared.bucketed i) allowed.1 new room
    have mine : Function.update m i [] i = [] := update_self _ _ _
    have assigns : s.assign hash i values = some u := by
      rw [Sets.assign, clears, Option.bind_some, inserts]
    refine ⟨u, assigns, ?_⟩
    rw [lists, mine, nil_append] at stored
    rw [mine, nil_append] at bucketed
    have assigned := cleared.update stored bucketed lengths others
    rwa [update_idem] at assigned
  | clear i =>
    apply performed
    have ⟨t, clears, _, cleared⟩ := represents.clear i
    exact ⟨_, clears, cleared⟩
  | swap i other => exact performed (represents.swap some_ allowed meets.1 meets.2.1 meets.2.2)
  | move i other => exact performed (represents.move some_ allowed meets)

/-- Sets find exactly their elements in every run in which each call meets the condition. -/
theorem finds_elements (compatible : ∀ v w, equal v w = true → hash v = hash w)
    (some_ : ∀ i, 0 < sizes i) (calls : List (Call ν))
    (allowed : AllAllowed (fun _ => []) calls)
    (meets : AllMeet hash (Sets.initial sizes) (fun _ => []) calls) :
    Refines hash equal (Sets.initial sizes) (fun _ => []) calls := by
  apply refines_of_throughout (R := Represents hash sizes) _ _ (Represents.initial sizes)
    allowed meets
  · exact fun represents => represents.shows compatible some_
  · exact fun represents allowed meets => represents.step some_ allowed meets

/-- With a value in a bucket of its own each, sets of one and of four buckets. -/
theorem finds_elements_apart :
    Refines id (fun v w : Nat => decide (v = w)) (Sets.initial fun i => if i = 0 then 4 else 1)
      (fun _ => []) [.insert 0 1, .insert 0 2, .erase 0 2, .erase 0 7, .insert 1 3, .swap 0 1,
        .move 0 1, .assign 1 [5], .clear 0] := by
  apply finds_elements (fun v w same => of_decide_eq_true same)
  · intro i
    split <;> decide
  · simp only [AllAllowed, Always, Allowed, plain, Function.update]
    grind
  · decide +kernel

/-- The second element of a bucket is not found; an erased element is the border of another bucket;
sets that were swapped refer to each other's end. -/
theorem misses_elements :
    ¬Refines id (fun v w : Nat => decide (v = w)) (Sets.initial fun _ => 1) (fun _ => [])
      [.insert 0 1, .insert 0 2] ∧
    ¬Refines id (fun v w : Nat => decide (v = w)) (Sets.initial fun _ => 4) (fun _ => [])
      [.insert 0 1, .insert 0 2, .erase 0 1, .erase 0 2] ∧
    ¬Refines id (fun v w : Nat => decide (v = w)) (Sets.initial fun _ => 1) (fun _ => [])
      [.insert 0 1, .swap 0 1] := by
  constructor
  · intro refines
    have ⟨t, runs, shows_⟩ := refines.run
    have found : ((run (perform id) (Sets.initial fun _ => 1) [.insert 0 1, .insert 0 2]).bind
        fun t : Sets Nat => t.hasElement id 0 2) = some false := by decide +kernel
    rw [runs, Option.bind_some, shows_.hasElement] at found
    exact absurd found (by decide)
  constructor
  · intro refines
    have ⟨t, runs, shows_⟩ := refines.run
    have border : ((run (perform id) (Sets.initial fun _ => 4)
        [.insert 0 1, .insert 0 2, .erase 0 1, .erase 0 2]).bind fun t : Sets Nat =>
          ((t.buckets 0)[1]?).bind Prod.fst) = some (.node 2) := by decide +kernel
    rw [runs, Option.bind_some] at border
    have ⟨borders, member, isFirst⟩ := Option.bind_eq_some_iff.mp border
    have inside := shows_.borders 0 borders (mem_of_getElem? member) 2 (.inl isFirst)
    exact absurd inside (by decide)
  · intro refines
    have ⟨t, runs, shows_⟩ := refines.run
    have found : ((run (perform id) (Sets.initial fun _ => 1) [.insert 0 1, .swap 0 1]).bind
        fun t : Sets Nat => t.hasElement id 1 2) = none := by decide +kernel
    rw [runs, Option.bind_some, shows_.hasElement] at found
    exact nomatch found

end IntrusiveSets
