import Mathlib.Algebra.Group.Nat.Defs
import Mathlib.Algebra.Group.Int.Defs

/-! `SparseVector`, the memory contents that the pack builder reads from its input: buckets of
consecutive elements. -/

namespace PackBuilder

open List

structure OverwriteException where
  position : Nat
  deriving DecidableEq

abbrev Bucket (α : Type) := Nat × List α

variable {α : Type}

/-- `bucket.first + bucket.second.size()` -/
def bucketEnd (bucket : Bucket α) : Nat := (bucket.1 + bucket.2.length) % 2 ^ 64

/-- A `std::size_t` as a `std::ptrdiff_t`. -/
def toPtrdiff (n : Nat) : Int := if n < 2 ^ 63 then n else n - 2 ^ 64

/-- `std::map::insert`; an element with the key stays. -/
def mapInsert (bucket : Bucket α) : List (Bucket α) → List (Bucket α)
  | [] => [bucket]
  | first :: rest =>
    if bucket.1 < first.1 then bucket :: first :: rest
    else if first.1 < bucket.1 then first :: mapInsert bucket rest
    else first :: rest

/-- The buckets of the map, in the order of their keys. -/
structure SparseVector (α : Type) where
  buckets : List (Bucket α)
  deriving DecidableEq

namespace SparseVector

def empty : SparseVector α where
  buckets := []

variable (vector : SparseVector α)

def size : Nat :=
  vector.buckets.foldl (fun result bucket => result + bucket.2.length) 0

/-- The loop of `InvariantHolds`. -/
def invariantLoop : Int → List (Bucket α) → Bool
  | _, [] => true
  | currentAddress, bucket :: rest =>
    if toPtrdiff bucket.1 ≤ currentAddress then false
    else invariantLoop (toPtrdiff (bucketEnd bucket)) rest

def invariantHolds : Bool := invariantLoop (-1) vector.buckets

/-- The loop of `Insert`, if it returns or throws. -/
def insertLoop (element : α) (position : Nat) :
    List (Bucket α) → Option (Except OverwriteException (List (Bucket α)))
  | [] => none
  | bucket :: rest =>
    if position = bucketEnd bucket then
      some (.ok ((bucket.1, bucket.2 ++ [element]) :: rest))
    else if bucket.1 ≤ position ∧ position < bucketEnd bucket then some (.error ⟨position⟩)
    else (insertLoop element position rest).map fun result => result.map (bucket :: ·)

def insert (element : α) (position : Nat) : Except OverwriteException (SparseVector α) :=
  match insertLoop element position vector.buckets with
  | some result => result.map SparseVector.mk
  | none => .ok ⟨mapInsert (position, [element]) vector.buckets⟩

/-- The loop of `ElementAtIndex`; it aborts beyond the last bucket. -/
def elementLoop : List (Bucket α) → Nat → Option (Nat × α)
  | [], _ => none
  | bucket :: rest, position =>
    match bucket.2[position]? with
    | some element => some ((bucket.1 + position) % 2 ^ 64, element)
    | none => elementLoop rest (position - bucket.2.length)

def elementAtIndex (position : Nat) : Option (Nat × α) :=
  elementLoop vector.buckets position

/-- What an `Iterator` yields from `begin()` to `end()`. -/
def iterate : List (Option (Nat × α)) :=
  (List.range vector.size).map vector.elementAtIndex

end SparseVector

def cells (bucket : Bucket α) : List (Nat × α) :=
  bucket.2.mapIdx fun index element => ((bucket.1 + index) % 2 ^ 64, element)

def pairs (buckets : List (Bucket α)) : List (Nat × α) := buckets.flatMap cells

@[simp] theorem length_cells (bucket : Bucket α) : (cells bucket).length = bucket.2.length := by
  simp [cells]

@[simp] theorem pairs_nil : pairs ([] : List (Bucket α)) = [] := rfl

@[simp] theorem pairs_cons (bucket : Bucket α) (rest : List (Bucket α)) :
    pairs (bucket :: rest) = cells bucket ++ pairs rest := by
  simp [pairs]

@[simp] theorem pairs_append (front back : List (Bucket α)) :
    pairs (front ++ back) = pairs front ++ pairs back := by
  simp [pairs]

theorem cells_push (start : Nat) (elements : List α) (element : α) :
    cells (start, elements ++ [element]) =
      cells (start, elements) ++ [((start + elements.length) % 2 ^ 64, element)] := by
  simp [cells, mapIdx_append]

namespace SparseVector

theorem size_eq (vector : SparseVector α) : vector.size = (pairs vector.buckets).length := by
  have loop : ∀ (buckets : List (Bucket α)) (result : Nat),
      buckets.foldl (fun result bucket => result + bucket.2.length) result =
        result + (pairs buckets).length := by
    intro buckets
    induction buckets with
    | nil => simp
    | cons bucket rest ih =>
      intro result
      simp [ih, Nat.add_assoc]
  simpa [size] using loop vector.buckets 0

theorem elementLoop_eq (buckets : List (Bucket α)) (position : Nat) :
    elementLoop buckets position = (pairs buckets)[position]? := by
  induction buckets generalizing position with
  | nil => rfl
  | cons bucket rest ih =>
    rw [elementLoop, pairs_cons]
    cases here : bucket.2[position]? with
    | some element =>
      have within := (List.getElem?_eq_some_iff.mp here).1
      rw [getElem?_append_left (by simpa using within)]
      simp [cells, here]
    | none =>
      rw [getElem?_append_right (by simpa using List.getElem?_eq_none_iff.mp here)]
      simp [ih]

theorem iterate_eq (vector : SparseVector α) :
    vector.iterate = (pairs vector.buckets).map some := by
  apply ext_getElem?
  intro index
  simp only [iterate, size_eq, getElem?_map]
  by_cases within : index < (pairs vector.buckets).length
  · simp [within, elementAtIndex, elementLoop_eq]
  · simp [within]

end SparseVector

/-- Buckets that have something in them, with a gap before the next. -/
structure Apart (buckets : List (Bucket α)) : Prop where
  gaps : buckets.Pairwise fun bucket next => bucket.1 + bucket.2.length < next.1
  filled : ∀ bucket ∈ buckets, bucket.2 ≠ []
  small : ∀ bucket ∈ buckets, bucket.1 + bucket.2.length ≤ 2 ^ 64

def Within (bucket : Bucket α) (position : Nat) : Prop :=
  bucket.1 ≤ position ∧ position < bucket.1 + bucket.2.length

variable {bucket : Bucket α} {position : Nat} {buckets : List (Bucket α)}

theorem mem_cells (small : bucket.1 + bucket.2.length ≤ 2 ^ 64) {element : α} :
    (position, element) ∈ cells bucket ↔
      bucket.1 ≤ position ∧ bucket.2[position - bucket.1]? = some element := by
  simp only [cells, mem_mapIdx, Prod.mk.injEq]
  constructor
  · rintro ⟨index, within, place, value⟩
    rw [Nat.mod_eq_of_lt (by omega)] at place
    subst place
    simp [within, value]
  · rintro ⟨le, found⟩
    obtain ⟨within, value⟩ := List.getElem?_eq_some_iff.mp found
    refine ⟨position - bucket.1, within, ?_, value⟩
    rw [Nat.mod_eq_of_lt (by omega)]
    omega

theorem occupied_cells (small : bucket.1 + bucket.2.length ≤ 2 ^ 64) :
    (∃ element, (position, element) ∈ cells bucket) ↔ Within bucket position := by
  simp only [mem_cells small, Within, exists_and_left]
  refine and_congr_right fun le => ?_
  rw [← Option.isSome_iff_exists, isSome_getElem?]
  omega

theorem occupied_pairs (small : ∀ bucket ∈ buckets, bucket.1 + bucket.2.length ≤ 2 ^ 64) :
    (∃ element, (position, element) ∈ pairs buckets) ↔
      ∃ bucket ∈ buckets, Within bucket position := by
  simp only [pairs, mem_flatMap]
  constructor
  · intro ⟨element, bucket, member, cell⟩
    exact ⟨bucket, member, (occupied_cells (small bucket member)).mp ⟨element, cell⟩⟩
  · intro ⟨bucket, member, within⟩
    have ⟨element, cell⟩ := (occupied_cells (small bucket member)).mpr within
    exact ⟨element, bucket, member, cell⟩

theorem Apart.tail {rest : List (Bucket α)} (apart : Apart (bucket :: rest)) :
    Apart rest where
  gaps := (pairwise_cons.mp apart.gaps).2
  filled := fun other member => apart.filled other (mem_cons_of_mem _ member)
  small := fun other member => apart.small other (mem_cons_of_mem _ member)

theorem cells_ascending (bucket : Bucket α) (small : bucket.1 + bucket.2.length ≤ 2 ^ 64) :
    (cells bucket).Pairwise (·.1 < ·.1) := by
  rw [pairwise_iff_getElem]
  intro left right leftWithin rightWithin less
  simp only [length_cells] at leftWithin rightWithin
  simp only [cells, getElem_mapIdx]
  rw [Nat.mod_eq_of_lt (by omega), Nat.mod_eq_of_lt (by omega)]
  omega

theorem Apart.ascending (apart : Apart buckets) : (pairs buckets).Pairwise (·.1 < ·.1) := by
  induction buckets with
  | nil => simp
  | cons bucket rest ih =>
    have ⟨after, _⟩ := pairwise_cons.mp apart.gaps
    have small := apart.small bucket mem_cons_self
    rw [pairs_cons, pairwise_append]
    refine ⟨cells_ascending bucket small, ih apart.tail, ?_⟩
    intro left inBucket right inRest
    have here := (occupied_cells small).mp ⟨left.2, inBucket⟩
    have ⟨other, member, there⟩ := (occupied_pairs apart.tail.small).mp ⟨right.2, inRest⟩
    have gap := after other member
    unfold Within at here there
    omega

/-- A position in a bucket, at the end of one, or between two. -/
inductive Place (buckets : List (Bucket α)) (position : Nat) : Prop
  | inside (front : List (Bucket α)) (bucket : Bucket α) (back : List (Bucket α))
      (split : buckets = front ++ bucket :: back) (within : Within bucket position)
      (before : ∀ other ∈ front, other.1 + other.2.length < position)
  | behind (front : List (Bucket α)) (bucket : Bucket α) (back : List (Bucket α))
      (split : buckets = front ++ bucket :: back) (ends : position = bucket.1 + bucket.2.length)
      (before : ∀ other ∈ front, other.1 + other.2.length < bucket.1)
      (after : ∀ other ∈ back, position < other.1)
  | between (front back : List (Bucket α)) (split : buckets = front ++ back)
      (before : ∀ other ∈ front, other.1 + other.2.length < position)
      (after : ∀ other ∈ back, position < other.1)

theorem Apart.place (apart : Apart buckets) (position : Nat) : Place buckets position := by
  induction buckets with
  | nil => exact .between [] [] rfl (by simp) (by simp)
  | cons bucket rest ih =>
    have ⟨next, _⟩ := pairwise_cons.mp apart.gaps
    rcases Nat.lt_or_ge position bucket.1 with less | notLess
    · refine .between [] (bucket :: rest) rfl (by simp) ?_
      intro other member
      cases member with
      | head => exact less
      | tail _ later => exact Nat.lt_of_lt_of_le less (by have := next other later; omega)
    rcases Nat.lt_trichotomy position (bucket.1 + bucket.2.length) with less | ends | beyond
    · exact .inside [] bucket rest rfl ⟨notLess, less⟩ (by simp)
    · refine .behind [] bucket rest rfl ends (by simp) ?_
      intro other member
      rw [ends]
      exact next other member
    · cases ih apart.tail with
      | inside front found back split within before =>
        refine .inside (bucket :: front) found back (by rw [split]; rfl) within ?_
        intro other member
        cases member with
        | head => exact beyond
        | tail _ later => exact before other later
      | behind front found back split ends before after =>
        refine .behind (bucket :: front) found back (by rw [split]; rfl) ends ?_ after
        intro other member
        cases member with
        | head => exact next found (by simp [split])
        | tail _ later => exact before other later
      | between front back split before after =>
        refine .between (bucket :: front) back (by rw [split]; rfl) ?_ after
        intro other member
        cases member with
        | head => exact beyond
        | tail _ later => exact before other later

/-- `Insert` goes on after the bucket. -/
def Passed (position : Nat) (bucket : Bucket α) : Prop :=
  position ≠ bucketEnd bucket ∧ ¬(bucket.1 ≤ position ∧ position < bucketEnd bucket)

theorem bucketEnd_eq (small : bucket.1 + bucket.2.length < 2 ^ 64) :
    bucketEnd bucket = bucket.1 + bucket.2.length := Nat.mod_eq_of_lt small

theorem Passed.before (fits : position < 2 ^ 64) (before : bucket.1 + bucket.2.length < position) :
    Passed position bucket := by
  rw [Passed, bucketEnd_eq (by omega)]
  omega

theorem Passed.after (after : position < bucket.1) (small : bucket.1 + bucket.2.length ≤ 2 ^ 64)
    (unwrapped : position = 0 → bucket.1 + bucket.2.length ≠ 2 ^ 64) : Passed position bucket := by
  rw [Passed]
  rcases Nat.lt_or_eq_of_le small with less | wraps
  · rw [bucketEnd_eq less]
    omega
  · have nonzero : position ≠ 0 := fun zero => unwrapped zero wraps
    rw [bucketEnd, wraps, Nat.mod_self]
    omega

theorem insertLoop_append (element : α) {front : List (Bucket α)}
    (passed : ∀ bucket ∈ front, Passed position bucket) (back : List (Bucket α)) :
    SparseVector.insertLoop element position (front ++ back) =
      (SparseVector.insertLoop element position back).map fun result =>
        result.map (front ++ ·) := by
  induction front with
  | nil =>
    rw [nil_append]
    cases SparseVector.insertLoop element position back with
    | none => rfl
    | some result => cases result <;> rfl
  | cons bucket rest ih =>
    have ⟨notEnd, notWithin⟩ := passed bucket mem_cons_self
    rw [cons_append, SparseVector.insertLoop, if_neg notEnd, if_neg notWithin,
      ih fun other member => passed other (mem_cons_of_mem _ member)]
    cases SparseVector.insertLoop element position back with
    | none => rfl
    | some result => cases result <;> rfl

theorem mapInsert_append (bucket : Bucket α) {front back : List (Bucket α)}
    (before : ∀ other ∈ front, other.1 < bucket.1) (after : ∀ other ∈ back, bucket.1 < other.1) :
    mapInsert bucket (front ++ back) = front ++ bucket :: back := by
  induction front with
  | nil =>
    cases back with
    | nil => rfl
    | cons first rest => exact if_pos (after first mem_cons_self)
  | cons first rest ih =>
    have less := before first mem_cons_self
    rw [cons_append, mapInsert, if_neg (by omega), if_pos less,
      ih fun other member => before other (mem_cons_of_mem _ member)]
    rfl

namespace SparseVector

variable {vector : SparseVector α} {position : Nat} {front back : List (Bucket α)}

theorem insert_inside {element : α} {bucket : Bucket α} (apart : Apart vector.buckets)
    (split : vector.buckets = front ++ bucket :: back) (within : Within bucket position)
    (before : ∀ other ∈ front, other.1 + other.2.length < position) :
    vector.insert element position = .error ⟨position⟩ ↔
      bucket.1 + bucket.2.length < 2 ^ 64 := by
  have small := apart.small bucket (by simp [split])
  have ⟨le, less⟩ := within
  have passed : ∀ other ∈ front, Passed position other := fun other member =>
    Passed.before (by omega) (before other member)
  rw [insert, split, insertLoop_append element passed, insertLoop]
  rcases Nat.lt_or_eq_of_le small with fits | wraps
  · rw [bucketEnd_eq fits, if_neg (by omega), if_pos ⟨le, less⟩]
    exact iff_of_true rfl fits
  · have last : back = [] := by
      cases back with
      | nil => rfl
      | cons next rest =>
        have gap := (pairwise_append.mp (split ▸ apart.gaps)).2.1
        have below := (pairwise_cons.mp gap).1 next mem_cons_self
        have nextSmall := apart.small next (by simp [split])
        omega
    rw [bucketEnd, wraps, Nat.mod_self, last]
    refine iff_of_false ?_ (Nat.lt_irrefl _)
    by_cases zero : position = 0
    · rw [if_pos zero]
      exact fun threw => nomatch threw
    · rw [if_neg zero, if_neg (by omega)]
      exact fun threw => nomatch threw

variable (element : α)

theorem insert_behind {bucket : Bucket α} (fits : position < 2 ^ 64)
    (split : vector.buckets = front ++ bucket :: back)
    (ends : position = bucket.1 + bucket.2.length)
    (before : ∀ other ∈ front, other.1 + other.2.length < bucket.1) :
    vector.insert element position =
      .ok ⟨front ++ (bucket.1, bucket.2 ++ [element]) :: back⟩ := by
  have passed : ∀ other ∈ front, Passed position other := fun other member =>
    Passed.before fits (by have := before other member; omega)
  have here : position = bucketEnd bucket := by rw [bucketEnd_eq (ends ▸ fits), ends]
  rw [insert, split, insertLoop_append element passed, insertLoop, if_pos here]
  rfl

theorem insert_between (apart : Apart vector.buckets) (fits : position < 2 ^ 64)
    (split : vector.buckets = front ++ back)
    (before : ∀ other ∈ front, other.1 + other.2.length < position)
    (after : ∀ other ∈ back, position < other.1)
    (unwrapped : position = 0 → ∀ other ∈ back, other.1 + other.2.length ≠ 2 ^ 64) :
    vector.insert element position = .ok ⟨front ++ (position, [element]) :: back⟩ := by
  have passed : ∀ other ∈ vector.buckets, Passed position other := by
    intro other member
    rcases mem_append.mp (split ▸ member) with inFront | inBack
    · exact Passed.before fits (before other inFront)
    · exact Passed.after (after other inBack) (apart.small other member)
        fun zero => unwrapped zero other inBack
  have loop := insertLoop_append element passed []
  rw [append_nil] at loop
  rw [insert, loop, split]
  change Except.ok _ = _
  rw [mapInsert_append _ (fun other member => ?_) after]
  have := before other member
  omega

theorem insert_wrapped {init : List (Bucket α)} {last : Bucket α} (apart : Apart vector.buckets)
    (split : vector.buckets = init ++ [last]) (free : ∀ bucket ∈ vector.buckets, ¬Within bucket 0)
    (wraps : last.1 + last.2.length = 2 ^ 64) :
    vector.insert element 0 = .ok ⟨init ++ [(last.1, last.2 ++ [element])]⟩ := by
  have passed : ∀ other ∈ init, Passed 0 other := by
    intro other member
    have inside : other ∈ vector.buckets := by simp [split, member]
    have gap := (pairwise_append.mp (split ▸ apart.gaps)).2.2 other member last (by simp)
    have full := length_pos_iff.mpr (apart.filled other inside)
    have above := free other inside
    have lastFull := length_pos_iff.mpr (apart.filled last (by simp [split]))
    unfold Within at above
    exact Passed.after (by omega) (apart.small other inside) (by omega)
  have here : 0 = bucketEnd last := by rw [bucketEnd, wraps, Nat.mod_self]
  rw [insert, split, insertLoop_append element passed, insertLoop, if_pos here]
  rfl

end SparseVector

end PackBuilder
