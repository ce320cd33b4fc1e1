import EmbeddedInfra.PackBuilder.SparseVector
import Mathlib.Data.List.Basic
import Mathlib.Data.Option.Basic

/-! When a `SparseVector` is a map that is written once. The buckets touch, and `InvariantHolds()`
no longer does, as soon as an element is inserted right before another; the ends of the signed and
of the unsigned addresses matter as well. -/

namespace PackBuilder

open List Function

variable {α : Type}

theorem toPtrdiff_small {n : Nat} (small : n < 2 ^ 63) : toPtrdiff n = n := if_pos small

theorem toPtrdiff_large {n : Nat} (large : 2 ^ 63 ≤ n) : toPtrdiff n = n - 2 ^ 64 :=
  if_neg (Nat.not_lt.mpr large)

namespace SparseVector

theorem invariantLoop_high {buckets : List (Bucket α)} (apart : Apart buckets) {address : Nat}
    (high : 2 ^ 63 ≤ address) (after : ∀ bucket ∈ buckets, address < bucket.1) :
    invariantLoop (toPtrdiff address) buckets = true := by
  induction buckets generalizing address with
  | nil => rfl
  | cons bucket rest ih =>
    have above := after bucket mem_cons_self
    have ⟨next, _⟩ := pairwise_cons.mp apart.gaps
    have small := apart.small bucket mem_cons_self
    have full := length_pos_iff.mpr (apart.filled bucket mem_cons_self)
    rw [invariantLoop, if_neg]
    · rcases Nat.lt_or_eq_of_le small with fits | wraps
      · rw [bucketEnd_eq fits]
        exact ih apart.tail (by omega) next
      · cases rest with
        | nil => rfl
        | cons other more =>
          have gap := next other mem_cons_self
          have otherSmall := apart.tail.small other mem_cons_self
          omega
    · rw [toPtrdiff_large high, toPtrdiff_large (by omega)]
      omega

/-- The loop accepts buckets with gaps, if they reach the upper half of the addresses only by
growing into it. -/
theorem invariantLoop_iff {buckets : List (Bucket α)} (apart : Apart buckets) {address : Int}
    (start : -1 ≤ address) (after : ∀ bucket ∈ buckets, address < bucket.1) :
    invariantLoop address buckets = true ↔
      ((∃ bucket ∈ buckets, ∃ position, 2 ^ 63 ≤ position ∧ Within bucket position) →
        ∃ bucket ∈ buckets, Within bucket (2 ^ 63 - 1)) := by
  induction buckets generalizing address with
  | nil => simp [invariantLoop]
  | cons bucket rest ih =>
    have above := after bucket mem_cons_self
    obtain ⟨next, _⟩ := pairwise_cons.mp apart.gaps
    have small := apart.small bucket mem_cons_self
    have full := length_pos_iff.mpr (apart.filled bucket mem_cons_self)
    rw [invariantLoop]
    rcases Nat.lt_or_ge bucket.1 (2 ^ 63) with low | high
    · rw [toPtrdiff_small low, if_neg (by omega)]
      rcases Nat.lt_or_ge (bucket.1 + bucket.2.length) (2 ^ 63) with endsLow | endsHigh
      · have fits : bucket.1 + bucket.2.length < 2 ^ 64 := by omega
        rw [bucketEnd_eq fits, toPtrdiff_small endsLow,
          ih apart.tail (by omega) fun other member => by have := next other member; omega]
        have noHigh : ¬∃ position, 2 ^ 63 ≤ position ∧ Within bucket position := by
          unfold Within
          omega
        have noBorder : ¬Within bucket (2 ^ 63 - 1) := by
          unfold Within
          omega
        simp only [exists_mem_cons_iff, noHigh, noBorder, false_or]
      · refine iff_of_true ?_ fun _ => ⟨bucket, mem_cons_self, by unfold Within; omega⟩
        rcases Nat.lt_or_eq_of_le small with fits | wraps
        · rw [bucketEnd_eq fits]
          exact invariantLoop_high apart.tail endsHigh next
        · cases rest with
          | nil => rfl
          | cons other more =>
            have gap := next other mem_cons_self
            have otherSmall := apart.tail.small other mem_cons_self
            omega
    · rw [toPtrdiff_large high, if_pos (by omega)]
      refine iff_of_false Bool.false_ne_true fun grown => ?_
      obtain ⟨other, member, le, _⟩ :=
        grown ⟨bucket, mem_cons_self, bucket.1, high, by unfold Within; omega⟩
      cases member with
      | head => omega
      | tail _ later =>
        have gap := next other later
        omega

theorem invariantLoop_touching {front back : List (Bucket α)} {bucket next : Bucket α}
    {address : Int} (holds : invariantLoop address (front ++ bucket :: next :: back) = true) :
    toPtrdiff (bucketEnd bucket) < toPtrdiff next.1 := by
  induction front generalizing address with
  | nil =>
    rw [nil_append, invariantLoop] at holds
    split at holds
    · exact absurd holds Bool.false_ne_true
    rw [invariantLoop] at holds
    split at holds
    · exact absurd holds Bool.false_ne_true
    case isFalse notLe => exact Int.not_le.mp notLe
  | cons first rest ih =>
    rw [cons_append, invariantLoop] at holds
    split at holds
    · exact absurd holds Bool.false_ne_true
    · exact ih holds

end SparseVector

structure Call (α : Type) where
  element : α
  position : Nat
  fits : position < 2 ^ 64

def noted (inserted : Nat → Option α) (call : Call α) : Nat → Option α :=
  match inserted call.position with
  | none => update inserted call.position (some call.element)
  | some _ => inserted

/-- The vector after a call, which leaves it as it was if it throws. -/
def SparseVector.after (vector : SparseVector α) (call : Call α) : SparseVector α :=
  match vector.insert call.element call.position with
  | .ok next => next
  | .error _ => vector

structure Written (inserted : Nat → Option α) (vector : SparseVector α) (call : Call α) :
    Prop where
  throws : vector.insert call.element call.position = .error ⟨call.position⟩ ↔
    (inserted call.position).isSome
  holds : (vector.after call).invariantHolds = true
  iterates : ∃ contents : List (Nat × α), (vector.after call).iterate = contents.map some ∧
    contents.Pairwise (·.1 < ·.1) ∧
    ∀ position element, (position, element) ∈ contents ↔
      noted inserted call position = some element

/-- Every call of a sequence behaves as one of a map that is written once. -/
def WriteOnce (inserted : Nat → Option α) (vector : SparseVector α) : List (Call α) → Prop
  | [] => True
  | call :: rest =>
    Written inserted vector call ∧ WriteOnce (noted inserted call) (vector.after call) rest

/-- A new position is not right before an inserted one, is in the upper half of the addresses only
if the last one below that was inserted, and is not 0 if the very last one was inserted. A position
is repeated only if one above it was not inserted. -/
def Meets (inserted : Nat → Option α) (call : Call α) : Prop :=
  if inserted call.position = none then
    inserted (call.position + 1) = none ∧
      (2 ^ 63 ≤ call.position → inserted (2 ^ 63 - 1) ≠ none) ∧
      (call.position = 0 → inserted (2 ^ 64 - 1) = none)
  else ∃ above, call.position < above ∧ above < 2 ^ 64 ∧ inserted above = none

def AllMeet (inserted : Nat → Option α) : List (Call α) → Prop
  | [] => True
  | call :: rest => Meets inserted call ∧ AllMeet (noted inserted call) rest

/-- The buckets hold what was inserted. -/
structure Contains (inserted : Nat → Option α) (vector : SparseVector α) : Prop where
  apart : Apart vector.buckets
  contents : ∀ position element,
    (position, element) ∈ pairs vector.buckets ↔ inserted position = some element

/-- The buckets hold what was inserted, and `InvariantHolds()`. -/
structure Holds (inserted : Nat → Option α) (vector : SparseVector α) : Prop
    extends Contains inserted vector where
  reached : ∀ position, 2 ^ 63 ≤ position → inserted position ≠ none → inserted (2 ^ 63 - 1) ≠ none

variable {inserted : Nat → Option α} {vector : SparseVector α} {call : Call α}

theorem Contains.occupied (contains : Contains inserted vector) (position : Nat) :
    inserted position ≠ none ↔ ∃ bucket ∈ vector.buckets, Within bucket position := by
  rw [← occupied_pairs contains.apart.small, Option.ne_none_iff_exists']
  simp only [contains.contents]

theorem Contains.invariantHolds_iff (contains : Contains inserted vector) :
    vector.invariantHolds = true ↔ ∀ position, 2 ^ 63 ≤ position → inserted position ≠ none →
      inserted (2 ^ 63 - 1) ≠ none := by
  rw [SparseVector.invariantHolds,
    SparseVector.invariantLoop_iff contains.apart (by omega) fun bucket _ => by omega,
    ← contains.occupied]
  constructor
  · intro reached position high here
    obtain ⟨bucket, member, within⟩ := (contains.occupied position).mp here
    exact reached ⟨bucket, member, position, high, within⟩
  · rintro reached ⟨bucket, member, position, high, within⟩
    exact reached position high ((contains.occupied position).mpr ⟨bucket, member, within⟩)

theorem Contains.iterates (contains : Contains inserted vector) :
    ∃ contents : List (Nat × α), vector.iterate = contents.map some ∧
      contents.Pairwise (·.1 < ·.1) ∧
      ∀ position element, (position, element) ∈ contents ↔ inserted position = some element :=
  ⟨pairs vector.buckets, vector.iterate_eq, contains.apart.ascending, contains.contents⟩

theorem Holds.empty : Holds (fun _ => none) (SparseVector.empty : SparseVector α) where
  apart := ⟨List.Pairwise.nil, (fun _ member => nomatch member), (fun _ member => nomatch member)⟩
  contents := by simp [SparseVector.empty]
  reached := fun _ _ occupied => absurd rfl occupied

theorem noted_known (known : inserted call.position ≠ none) : noted inserted call = inserted := by
  have ⟨element, here⟩ := Option.ne_none_iff_exists'.mp known
  rw [noted, here]

theorem Contains.throws (contains : Contains inserted vector)
    (known : inserted call.position ≠ none) :
    vector.insert call.element call.position = .error ⟨call.position⟩ ↔
      ∃ above, call.position < above ∧ above < 2 ^ 64 ∧ inserted above = none := by
  have occupied := (contains.occupied _).mp known
  cases contains.apart.place call.position with
  | inside front bucket back split within before =>
    rw [SparseVector.insert_inside contains.apart split within before]
    have gaps := (pairwise_append.mp (split ▸ contains.apart.gaps)).2.1
    obtain ⟨next, _⟩ := pairwise_cons.mp gaps
    constructor
    · intro fits
      refine ⟨bucket.1 + bucket.2.length, within.2, fits, ?_⟩
      by_contra there
      obtain ⟨other, member, le, less⟩ := (contains.occupied _).mp there
      rw [split] at member
      rcases mem_append.mp member with inFront | inRest
      · have := before other inFront
        have := within.2
        omega
      · cases inRest with
        | head => omega
        | tail _ inBack =>
          have := next other inBack
          omega
    · rintro ⟨above, beyond, fits, free⟩
      by_contra wraps
      refine (contains.occupied above).mpr ⟨bucket, by simp [split], ?_⟩ free
      have := within.1
      unfold Within
      omega
  | behind front bucket back split ends before after =>
    obtain ⟨other, member, le, less⟩ := occupied
    rw [split] at member
    rcases mem_append.mp member with inFront | inRest
    · have := before other inFront
      omega
    · cases inRest with
      | head => omega
      | tail _ inBack =>
        have := after other inBack
        omega
  | between front back split before after =>
    obtain ⟨other, member, le, less⟩ := occupied
    rw [split] at member
    rcases mem_append.mp member with inFront | inBack
    · have := before other inFront
      omega
    · have := after other inBack
      omega

theorem Holds.known (holds : Holds inserted vector) (known : inserted call.position ≠ none) :
    (Written inserted vector call ↔ Meets inserted call) ∧
      (Meets inserted call → Holds (noted inserted call) (vector.after call)) := by
  have isSome : (inserted call.position).isSome := Option.isSome_iff_ne_none.mpr known
  have meets : Meets inserted call ↔
      vector.insert call.element call.position = .error ⟨call.position⟩ := by
    rw [holds.throws known, Meets, if_neg known]
  have unchanged : Meets inserted call → vector.after call = vector := by
    intro meet
    rw [SparseVector.after, meets.mp meet]
  refine ⟨⟨?_, ?_⟩, ?_⟩
  · intro written
    exact meets.mpr (written.throws.mpr isSome)
  · intro meet
    constructor
    · exact iff_of_true (meets.mp meet) isSome
    · rw [unchanged meet]
      exact holds.invariantHolds_iff.mpr holds.reached
    · rw [unchanged meet, noted_known known]
      exact holds.iterates
  · intro meet
    rw [unchanged meet, noted_known known]
    exact holds

/-- What `Insert` of a new position leaves: one bucket more, or one longer bucket. -/
structure Grown (vector : SparseVector α) (call : Call α) where
  front : List (Bucket α)
  start : Nat
  elements : List α
  back : List (Bucket α)
  inserts : vector.insert call.element call.position =
    .ok ⟨front ++ (start, elements ++ [call.element]) :: back⟩
  split : pairs vector.buckets = pairs front ++ cells (start, elements) ++ pairs back
  ends : start + elements.length = call.position
  frontApart : Apart front
  backApart : Apart back
  before : ∀ other ∈ front, other.1 + other.2.length < start
  after : ∀ other ∈ back, call.position < other.1

theorem Apart.append {front back : List (Bucket α)} (apart : Apart (front ++ back)) :
    Apart front ∧ Apart back where
  left :=
    { gaps := (pairwise_append.mp apart.gaps).1
      filled := fun other member => apart.filled other (mem_append_left _ member)
      small := fun other member => apart.small other (mem_append_left _ member) }
  right :=
    { gaps := (pairwise_append.mp apart.gaps).2.1
      filled := fun other member => apart.filled other (mem_append_right _ member)
      small := fun other member => apart.small other (mem_append_right _ member) }

theorem Contains.grows (contains : Contains inserted vector) (free : inserted call.position = none)
    (unwrapped : call.position = 0 → inserted (2 ^ 64 - 1) = none) :
    Nonempty (Grown vector call) := by
  cases contains.apart.place call.position with
  | inside front bucket back split within before =>
    exact absurd free ((contains.occupied _).mpr ⟨bucket, by simp [split], within⟩)
  | behind front bucket back split ends before after =>
    have parts := (split ▸ contains.apart).append
    exact ⟨{ front := front, start := bucket.1, elements := bucket.2, back := back
             inserts := SparseVector.insert_behind call.element call.fits split ends before
             split := by simp [split]
             ends := ends.symm
             frontApart := parts.1
             backApart := parts.2.tail
             before := before
             after := after }⟩
  | between front back split before after =>
    have parts := (split ▸ contains.apart).append
    have inserts := SparseVector.insert_between call.element contains.apart call.fits split before
      after fun zero other member wraps => by
        have inside : other ∈ vector.buckets := by simp [split, member]
        have full := length_pos_iff.mpr (contains.apart.filled other inside)
        refine (contains.occupied (2 ^ 64 - 1)).mpr ⟨other, inside, ?_⟩ (unwrapped zero)
        unfold Within
        omega
    exact ⟨{ front := front, start := call.position, elements := [], back := back
             inserts := inserts
             split := by simp [split, cells]
             ends := rfl
             frontApart := parts.1
             backApart := parts.2
             before := before
             after := after }⟩

namespace Grown

variable {vector : SparseVector α} {call : Call α}

theorem after_eq (grown : Grown vector call) :
    vector.after call =
      ⟨grown.front ++ (grown.start, grown.elements ++ [call.element]) :: grown.back⟩ := by
  rw [SparseVector.after, grown.inserts]

theorem mem_after (grown : Grown vector call) (position : Nat) (element : α) :
    (position, element) ∈ pairs (vector.after call).buckets ↔
      (position = call.position ∧ element = call.element) ∨
        (position, element) ∈ pairs vector.buckets := by
  rw [grown.after_eq, grown.split, pairs_append, pairs_cons, cells_push, grown.ends,
    Nat.mod_eq_of_lt call.fits]
  simp only [mem_append, mem_singleton, Prod.mk.injEq]
  tauto

theorem contents (grown : Grown vector call) {inserted : Nat → Option α}
    (contains : Contains inserted vector) (free : inserted call.position = none)
    (position : Nat) (element : α) :
    (position, element) ∈ pairs (vector.after call).buckets ↔
      noted inserted call position = some element := by
  rw [grown.mem_after, contains.contents, noted, free]
  by_cases here : position = call.position
  · simp [here, free, eq_comm]
  · simp [here]

theorem apart (grown : Grown vector call)
    (gap : ∀ other ∈ grown.back, other.1 ≠ call.position + 1) :
    Apart (vector.after call).buckets := by
  have ends := grown.ends
  have fits := call.fits
  rw [grown.after_eq]
  constructor
  · rw [pairwise_append, pairwise_cons]
    refine ⟨grown.frontApart.gaps, ⟨?_, grown.backApart.gaps⟩, ?_⟩
    · intro other member
      have := grown.after other member
      have := gap other member
      simp only [length_append, length_singleton]
      omega
    · intro other inFront next member
      have := grown.before other inFront
      cases member with
      | head => exact this
      | tail _ inBack =>
        have := grown.after next inBack
        omega
  · intro bucket member
    rcases mem_append.mp member with inFront | inRest
    · exact grown.frontApart.filled bucket inFront
    · cases inRest with
      | head => simp
      | tail _ inBack => exact grown.backApart.filled bucket inBack
  · intro bucket member
    rcases mem_append.mp member with inFront | inRest
    · exact grown.frontApart.small bucket inFront
    · cases inRest with
      | head =>
        simp only [length_append, length_singleton]
        omega
      | tail _ inBack => exact grown.backApart.small bucket inBack

theorem touching (grown : Grown vector call) {other : Bucket α} (member : other ∈ grown.back)
    (touches : other.1 = call.position + 1) : (vector.after call).invariantHolds ≠ true := by
  intro holds
  have ends := grown.ends
  have filled := length_pos_iff.mpr (grown.backApart.filled other member)
  have small := grown.backApart.small other member
  cases back : grown.back with
  | nil => exact absurd (back ▸ member) not_mem_nil
  | cons next rest =>
    have first : next = other := by
      rw [back] at member
      cases member with
      | head => rfl
      | tail _ later =>
        have gaps := back ▸ grown.backApart.gaps
        have gap := (pairwise_cons.mp gaps).1 other later
        have after := grown.after next (by simp [back])
        omega
    rw [SparseVector.invariantHolds, grown.after_eq, back] at holds
    have less := SparseVector.invariantLoop_touching holds
    have same : bucketEnd (grown.start, grown.elements ++ [call.element]) = next.1 := by
      rw [bucketEnd_eq]
      · simp only [length_append, length_singleton, first, touches]
        omega
      · simp only [length_append, length_singleton]
        omega
    rw [same] at less
    exact absurd less (Int.lt_irrefl _)

end Grown

theorem Contains.wraps (contains : Contains inserted vector) (free : inserted call.position = none)
    (zero : call.position = 0) (last : inserted (2 ^ 64 - 1) ≠ none) :
    ¬Written inserted vector call := by
  intro written
  obtain ⟨bucket, member, within⟩ := (contains.occupied _).mp last
  have ends : bucket.1 + bucket.2.length = 2 ^ 64 := by
    have small := contains.apart.small bucket member
    unfold Within at within
    omega
  obtain ⟨init, rest, split⟩ := append_of_mem member
  have gaps := (pairwise_append.mp (split ▸ contains.apart.gaps)).2.1
  have nothing : rest = [] := by
    cases rest with
    | nil => rfl
    | cons next more =>
      have gap := (pairwise_cons.mp gaps).1 next mem_cons_self
      have small := contains.apart.small next (by simp [split])
      omega
  rw [nothing] at split
  have unoccupied : ∀ other ∈ vector.buckets, ¬Within other 0 := by
    intro other inside there
    exact (contains.occupied 0).mpr ⟨other, inside, there⟩ (zero ▸ free)
  have inserts := SparseVector.insert_wrapped call.element contains.apart split unoccupied ends
  obtain ⟨contents, iterates, ascending, _⟩ := written.iterates
  rw [SparseVector.after, zero, inserts, SparseVector.iterate_eq] at iterates
  have same := map_injective_iff.mpr (Option.some_injective _) iterates
  rw [← same, pairs_append, pairs_cons, cells_push, ends] at ascending
  have full := length_pos_iff.mpr (contains.apart.filled bucket member)
  obtain ⟨element, cell⟩ := (occupied_cells (contains.apart.small bucket member)).mpr within
  have sorted := (pairwise_append.mp ascending).2.1
  simp only [pairs_nil, append_nil] at sorted
  have less := (pairwise_append.mp sorted).2.2 _ cell _ (mem_singleton.mpr rfl)
  simp at less

theorem Grown.next (grown : Grown vector call) (contains : Contains inserted vector) :
    inserted (call.position + 1) = none ↔
      ∀ other ∈ grown.back, other.1 ≠ call.position + 1 := by
  have ends := grown.ends
  constructor
  · intro none other member touches
    have filled := length_pos_iff.mpr (grown.backApart.filled other member)
    have within : Within other (call.position + 1) := by
      unfold Within
      omega
    obtain ⟨element, cell⟩ :=
      (occupied_pairs grown.backApart.small).mpr ⟨other, member, within⟩
    have here := (contains.contents (call.position + 1) element).mp (by simp [grown.split, cell])
    rw [none] at here
    cases here
  · intro gap
    by_contra there
    obtain ⟨element, here⟩ := Option.ne_none_iff_exists'.mp there
    have cell := (contains.contents _ element).mpr here
    rw [grown.split, mem_append, mem_append] at cell
    rcases cell with (inFront | inElements) | inBack
    · obtain ⟨other, member, within⟩ :=
        (occupied_pairs grown.frontApart.small).mp ⟨element, inFront⟩
      have before := grown.before other member
      unfold Within at within
      omega
    · have small : grown.start + grown.elements.length ≤ 2 ^ 64 := ends ▸ Nat.le_of_lt call.fits
      have within := (occupied_cells small).mp ⟨element, inElements⟩
      simp only [Within] at within
      omega
    · obtain ⟨other, member, within⟩ :=
        (occupied_pairs grown.backApart.small).mp ⟨element, inBack⟩
      have after := grown.after other member
      have away := gap other member
      unfold Within at within
      omega

theorem noted_free (free : inserted call.position = none) :
    noted inserted call = update inserted call.position (some call.element) := by
  rw [noted, free]

theorem Holds.free (holds : Holds inserted vector) (free : inserted call.position = none) :
    (Written inserted vector call ↔ Meets inserted call) ∧
      (Meets inserted call → Holds (noted inserted call) (vector.after call)) := by
  by_cases wrapped : call.position = 0 ∧ inserted (2 ^ 64 - 1) ≠ none
  · have notMeets : ¬Meets inserted call := by
      rw [Meets, if_pos free]
      exact fun meet => wrapped.2 (meet.2.2 wrapped.1)
    have notWritten := holds.toContains.wraps free wrapped.1 wrapped.2
    exact ⟨iff_of_false notWritten notMeets, fun meet => absurd meet notMeets⟩
  have unwrapped : call.position = 0 → inserted (2 ^ 64 - 1) = none := by
    intro zero
    by_contra last
    exact wrapped ⟨zero, last⟩
  have ⟨grown⟩ := holds.toContains.grows free unwrapped
  have meets : Meets inserted call ↔ (∀ other ∈ grown.back, other.1 ≠ call.position + 1) ∧
      (2 ^ 63 ≤ call.position → inserted (2 ^ 63 - 1) ≠ none) := by
    rw [Meets, if_pos free, grown.next holds.toContains]
    tauto
  by_cases gap : ∀ other ∈ grown.back, other.1 ≠ call.position + 1
  · have next : Contains (noted inserted call) (vector.after call) :=
      { apart := grown.apart gap
        contents := grown.contents holds.toContains free }
    have reached : (2 ^ 63 ≤ call.position → inserted (2 ^ 63 - 1) ≠ none) ↔
        ∀ position, 2 ^ 63 ≤ position → noted inserted call position ≠ none →
          noted inserted call (2 ^ 63 - 1) ≠ none := by
      rw [noted_free free]
      constructor
      · intro border position high there
        by_cases atBorder : 2 ^ 63 - 1 = call.position
        · rw [atBorder, update_self]
          exact Option.some_ne_none _
        · rw [update_of_ne atBorder]
          by_cases here : position = call.position
          · exact border (here ▸ high)
          · rw [update_of_ne here] at there
            exact holds.reached position high there
      · intro border high
        have there := border call.position high (by simp)
        rw [update_of_ne (by omega)] at there
        exact there
    refine ⟨⟨fun written => ?_, fun meet => ?_⟩, fun meet => ?_⟩
    · exact meets.mpr ⟨gap, reached.mpr (next.invariantHolds_iff.mp written.holds)⟩
    · constructor
      · rw [grown.inserts, free]
        exact iff_of_false (fun threw => nomatch threw) Bool.false_ne_true
      · exact next.invariantHolds_iff.mpr (reached.mp (meets.mp meet).2)
      · exact next.iterates
    · exact { toContains := next, reached := reached.mp (meets.mp meet).2 }
  · have notMeets : ¬Meets inserted call := fun meet => gap (meets.mp meet).1
    refine ⟨iff_of_false (fun written => gap fun other member touches => ?_) notMeets,
      fun meet => absurd meet notMeets⟩
    exact grown.touching member touches written.holds

theorem Holds.step (holds : Holds inserted vector) (call : Call α) :
    (Written inserted vector call ↔ Meets inserted call) ∧
      (Meets inserted call → Holds (noted inserted call) (vector.after call)) := by
  by_cases free : inserted call.position = none
  · exact holds.free free
  · exact holds.known free

theorem Holds.run (holds : Holds inserted vector) (calls : List (Call α)) :
    WriteOnce inserted vector calls ↔ AllMeet inserted calls := by
  induction calls generalizing inserted vector with
  | nil => exact Iff.rfl
  | cons call rest ih =>
    have ⟨written, next⟩ := holds.step call
    rw [WriteOnce, AllMeet, written]
    exact and_congr_right fun meet => ih (next meet)

/-- A sequence of calls treats the vector as a map that is written once exactly when every call of
it meets the condition on its position. -/
theorem writeOnce_iff (calls : List (Call α)) :
    WriteOnce (fun _ => none) .empty calls ↔ AllMeet (fun _ => none) calls :=
  Holds.empty.run calls

/-- Position 5 after position 6: `InvariantHolds()` does not, and position 6 is taken again. -/
theorem downwards_not_writeOnce :
    ¬WriteOnce (fun _ => none) .empty
      [⟨'a', 6, by decide⟩, ⟨'b', 5, by decide⟩, ⟨'c', 6, by decide⟩] := by
  intro once
  have broken : SparseVector.invariantHolds ⟨[(5, ['b']), (6, ['a'])]⟩ = false := by decide
  exact Bool.false_ne_true (broken.symm.trans once.2.1.holds)

end PackBuilder
