import EmbeddedInfra.Lockstep
import EmbeddedInfra.Ranges
import Mathlib.Algebra.Group.Nat.Defs

/-! `BufferingStreamReader`: a reader of what is in a buffer and of the input behind it. A
`std::size_t` has `bits` bits. -/

namespace BufferedStreams

open Ranges List

abbrev Bytes := List UInt8

/-! ### The buffer and the input -/

/-- `BoundedDeque<uint8_t>`: a ring of storage. -/
structure BoundedDeque where
  maxSize : Nat
  start : Nat
  contents : Bytes
  fits : contents.length ≤ maxSize
  inside : contents ≠ [] → start < maxSize

namespace BoundedDeque

def index (deque : BoundedDeque) (elementIndex : Nat) : Nat :=
  if deque.start + elementIndex < deque.maxSize then deque.start + elementIndex
  else deque.start + elementIndex - deque.maxSize

/-- `contiguous_range`: up to the end of the contents or of the storage. -/
def contiguousRange (deque : BoundedDeque) (position : Nat) : Bytes :=
  if deque.contents = [] then []
  else (deque.contents.drop position).take (deque.maxSize - deque.index position)

end BoundedDeque

/-- A `StreamReaderWithRewinding` over bytes that are in several ranges. -/
structure Input where
  ranges : List Bytes
  position : Nat

def contiguous : List Bytes → Nat → Bytes
  | [], _ => []
  | range :: rest, position =>
    if position < range.length then range.drop position
    else contiguous rest (position - range.length)

namespace Input

variable (input : Input)

def extractContiguousRange (max : Nat) : Bytes × Input :=
  let range := (contiguous input.ranges input.position).take max
  (range, { input with position := input.position + range.length })

def peekContiguousRange (start : Nat) : Bytes :=
  contiguous input.ranges (input.position + start)

def available : Nat := input.ranges.flatten.length - input.position

def empty : Bool := input.available = 0

def constructSaveMarker : Nat := input.position

def rewind (marker : Nat) : Input := { input with position := marker }

end Input

/-! ### The reader -/

structure BufferingStreamReader where
  buffer : BoundedDeque
  input : Input
  index : Nat
  bufferIndex : Nat

namespace BufferingStreamReader

variable (reader : BufferingStreamReader)

def size : Nat := reader.buffer.contents.length

/-- `Read`: so many bytes of the destination are not filled yet, and `data` is in the others. -/
def read (range : Bytes) (left : Nat) (data : Bytes) : BufferingStreamReader × Nat × Bytes :=
  ({ reader with index := reader.index + range.length }, left - range.length, data ++ range)

/-- One of the two reads from the buffer. -/
def readBuffer (left : Nat) (data : Bytes) : BufferingStreamReader × Nat × Bytes :=
  let range := (reader.buffer.contiguousRange reader.index).take left
  let (reader, left, data) := reader.read range left data
  ({ reader with bufferIndex := reader.bufferIndex + range.length }, left, data)

/-- The bytes that were filled, and whether that is all of them. -/
def extract (range : Nat) : BufferingStreamReader × Bytes × Bool :=
  let (reader, left, data) :=
    if reader.index < reader.size then
      let (reader, left, data) := reader.readBuffer range []
      -- perhaps the deque just wrapped around
      reader.readBuffer left data
    else (reader, range, [])
  if left ≠ 0 then
    let (from_, input) := reader.input.extractContiguousRange left
    let (reader, left, data) := { reader with input := input }.read from_ left data
    (reader, data, left = 0)
  else (reader, data, true)

def peekContiguousRange (bits start : Nat) : Bytes :=
  let position := (reader.index + start) % 2 ^ bits
  if position < reader.size then reader.buffer.contiguousRange position
  else reader.input.peekContiguousRange (position - reader.size)

def peek (bits : Nat) : UInt8 × Bool :=
  match reader.peekContiguousRange bits 0 with
  | [] => (0, false)
  | first :: _ => (first, true)

def extractContiguousRange (max : Nat) : BufferingStreamReader × Bytes :=
  if reader.index < reader.size then
    let from_ := (reader.buffer.contiguousRange reader.index).take max
    ({ reader with
        index := reader.index + from_.length
        bufferIndex := reader.bufferIndex + from_.length }, from_)
  else
    let (result, input) := reader.input.extractContiguousRange max
    ({ reader with input := input, index := reader.index + result.length }, result)

def available : Nat := reader.size - reader.bufferIndex + reader.input.available

def empty : Bool := reader.available = 0

def constructSaveMarker : Nat := reader.index

def rewind (marker : Nat) : BufferingStreamReader :=
  let reader :=
    if reader.index > reader.size then
      let rewindAmount := min (reader.index - marker) (reader.index - reader.size)
      { reader with
        input := reader.input.rewind (reader.input.constructSaveMarker - rewindAmount)
        index := reader.index - rewindAmount }
    else reader
  if marker < reader.size then { reader with index := marker, bufferIndex := marker } else reader

end BufferingStreamReader

theorem contiguous_pos {ranges : List Bytes} {position : Nat}
    (some : position < ranges.flatten.length) : 0 < (contiguous ranges position).length := by
  induction ranges generalizing position with
  | nil => exact absurd some (Nat.not_lt_zero _)
  | cons range rest ih =>
    rw [flatten_cons, length_append] at some
    rw [contiguous]
    by_cases inside : position < range.length
    · rw [if_pos inside, length_drop]
      omega
    · rw [if_neg inside]
      exact ih (by omega)

/-- The loop of `StoreRemainder`; nothing where the buffer has no room. -/
def storeLoop (maxSize : Nat) (contents : Bytes) (input : Input) : Option Bytes :=
  if _done : input.available = 0 then some contents
  else
    -- the greatest `std::size_t` is no limit
    let range := contiguous input.ranges input.position
    if contents.length + range.length ≤ maxSize then
      storeLoop maxSize (contents ++ range) { input with position := input.position + range.length }
    else none
termination_by input.available
decreasing_by
  have some : input.position < input.ranges.flatten.length := by
    rw [Input.available] at _done
    omega
  have progress := contiguous_pos some
  simp only [Input.available]
  omega

/-- `StoreRemainder`: what the destructor leaves in the buffer. -/
def BufferingStreamReader.storeRemainder (reader : BufferingStreamReader) : Option Bytes :=
  let bufferDecrease := min reader.size reader.index
  storeLoop reader.buffer.maxSize (reader.buffer.contents.drop bufferDecrease) reader.input

/-! ### Calls -/

inductive Call where
  | extract (range : Nat)
  | peek
  | extractContiguousRange (max : Nat)
  | peekContiguousRange (start : Nat)
  | empty
  | available
  | constructSaveMarker
  | rewind (marker : Nat)

inductive Answer where
  | extracted (data : Bytes) (succeeded : Bool)
  | peeked (byte : UInt8) (succeeded : Bool)
  | range (bytes : Bytes)
  | flag (value : Bool)
  | number (value : Nat)
  | done

def call (bits : Nat) (reader : BufferingStreamReader) : Call → Option (BufferingStreamReader × Answer)
  | .extract range =>
    let (next, data, succeeded) := reader.extract range
    some (next, .extracted data succeeded)
  | .peek =>
    let (byte, succeeded) := reader.peek bits
    some (reader, .peeked byte succeeded)
  | .extractContiguousRange max =>
    let (next, bytes) := reader.extractContiguousRange max
    some (next, .range bytes)
  | .peekContiguousRange start => some (reader, .range (reader.peekContiguousRange bits start))
  | .empty => some (reader, .flag reader.empty)
  | .available => some (reader, .number reader.available)
  | .constructSaveMarker => some (reader, .number reader.constructSaveMarker)
  | .rewind marker => some (reader.rewind marker, .done)

/-! ### One reader over all bytes -/

structure Source where
  bytes : Bytes
  position : Nat

def Source.rest (source : Source) : Bytes := source.bytes.drop source.position

/-- The answers of one reader. The ranges that it shows may end anywhere. -/
def Allows (source : Source) : Call → Answer → Source → Prop
  | .extract range, answer, next =>
    answer = .extracted (source.rest.take range) (decide (range ≤ source.rest.length)) ∧
      next = { source with position := source.position + min range source.rest.length }
  | .peek, answer, next =>
    answer = .peeked (source.rest.headD 0) (decide (source.rest ≠ [])) ∧ next = source
  | .extractContiguousRange max, answer, next =>
    ∃ range, answer = .range range ∧ Contiguous (source.rest.take max) range ∧
      next = { source with position := source.position + range.length }
  | .peekContiguousRange start, answer, next =>
    ∃ range, answer = .range range ∧ Contiguous (source.rest.drop start) range ∧ next = source
  | .empty, answer, next => answer = .flag (decide (source.rest = [])) ∧ next = source
  | .available, answer, next => answer = .number source.rest.length ∧ next = source
  | .constructSaveMarker, answer, next => answer = .number source.position ∧ next = source
  | .rewind marker, answer, next => answer = .done ∧ next = { source with position := marker }

/-- The destructor leaves the bytes that were not read, if the buffer has room for them. -/
def Remains (reader : BufferingStreamReader) (source : Source) : Prop :=
  source.rest.length ≤ reader.buffer.maxSize → reader.storeRemainder = some source.rest

/-- A reader goes back only to a place where it was. -/
def Legal (_ : BufferingStreamReader) (source : Source) : Call → Prop
  | .rewind marker => marker ≤ source.position
  | _ => True

/-- What an `Extract` takes from the input is in one range, and nothing was read from the input
before a byte is peeked. -/
def Meets (bits : Nat) (reader : BufferingStreamReader) : Call → Prop
  | .extract range =>
    range - (reader.size - reader.index) ≤
        (contiguous reader.input.ranges reader.input.position).length ∨
      (contiguous reader.input.ranges reader.input.position).length = reader.input.available
  | .peek => reader.index ≤ reader.size ∨ reader.input.available = 0
  | .peekContiguousRange start =>
    reader.index + start < 2 ^ bits ∧
      (reader.index ≤ reader.size ∨ reader.input.available ≤ start)
  | _ => True

/-! ### Ranges -/

theorem contiguous_at_front (ranges : List Bytes) (position : Nat) :
    contiguous ranges position <+: ranges.flatten.drop position := by
  induction ranges generalizing position with
  | nil => simp [contiguous]
  | cons range rest ih =>
    rw [contiguous, flatten_cons, drop_append]
    by_cases inside : position < range.length
    · rw [if_pos inside]
      exact List.prefix_append _ _
    · rw [if_neg inside, drop_eq_nil_of_le (by omega), nil_append]
      exact ih (position - range.length)

namespace BoundedDeque

variable {deque : BoundedDeque} {position : Nat}

theorem contiguousRange_eq (deque : BoundedDeque) (position : Nat) :
    deque.contiguousRange position =
      (deque.contents.drop position).take (deque.maxSize - deque.index position) := by
  rw [contiguousRange]
  split
  · next nothing => simp [nothing]
  · rfl

theorem index_lt (present : position < deque.contents.length) :
    deque.index position < deque.maxSize := by
  have fits := deque.fits
  have start := deque.inside (ne_nil_of_length_pos (Nat.zero_lt_of_lt present))
  rw [index]
  split <;> omega

theorem contiguousRange_contiguous (deque : BoundedDeque) (position : Nat) :
    Contiguous (deque.contents.drop position) (deque.contiguousRange position) := by
  rw [contiguousRange_eq]
  refine ⟨List.take_prefix _ _, ?_⟩
  intro some
  have present : position < deque.contents.length := by
    rw [Ne, drop_eq_nil_iff] at some
    omega
  have inside := index_lt present
  rw [Ne, take_eq_nil_iff]
  simp only [some, or_false]
  omega

theorem two_ranges (present : position < deque.contents.length) (left : Nat) :
    (deque.contiguousRange position).take left ++
      (deque.contiguousRange (position + ((deque.contiguousRange position).take left).length)).take
        (left - ((deque.contiguousRange position).take left).length) =
      (deque.contents.drop position).take left := by
  have fits := deque.fits
  have start := deque.inside (ne_nil_of_length_pos (Nat.zero_lt_of_lt present))
  rw [contiguousRange_eq, contiguousRange_eq, take_take]
  by_cases all : left ≤ deque.maxSize - deque.index position ∨
      deque.contents.length - position ≤ deque.maxSize - deque.index position
  · have front : (deque.contents.drop position).take
        (min left (deque.maxSize - deque.index position)) = (deque.contents.drop position).take left := by
      cases all with
      | inl short => rw [Nat.min_eq_left short]
      | inr short =>
        rw [take_eq_take_iff, length_drop]
        omega
    rw [front, length_take, length_drop]
    by_cases exhausted : deque.contents.length - position ≤ left
    · have gone : deque.contents.drop (position + (deque.contents.length - position)) = [] :=
        drop_eq_nil_of_le (by omega)
      rw [Nat.min_eq_right exhausted, gone]
      simp
    · rw [Nat.min_eq_left (by omega), Nat.sub_self]
      simp
  · have whole : ((deque.contents.drop position).take
        (deque.maxSize - deque.index position)).length = deque.maxSize - deque.index position := by
      rw [length_take, length_drop]
      omega
    have wraps : deque.index (position + (deque.maxSize - deque.index position)) = 0 := by
      by_cases before : deque.start + position < deque.maxSize
      · have here : deque.index position = deque.start + position := if_pos before
        rw [here, index, if_neg (by omega)]
        omega
      · have here : deque.index position = deque.start + position - deque.maxSize := if_neg before
        rw [here] at all
        omega
    rw [Nat.min_eq_right (by omega), whole, wraps, Nat.sub_zero,
      take_of_length_le (i := deque.maxSize) (by rw [length_drop]; omega), ← drop_drop,
      ← take_add]
    congr 1
    omega

end BoundedDeque

theorem contiguous_contiguous (ranges : List Bytes) (position : Nat) :
    Contiguous (ranges.flatten.drop position) (contiguous ranges position) := by
  refine ⟨contiguous_at_front ranges position, ?_⟩
  intro some
  rw [Ne, drop_eq_nil_iff] at some
  exact ne_nil_of_length_pos (contiguous_pos (by omega))

/-! ### The reader reads the source -/

namespace BufferingStreamReader

variable {reader : BufferingStreamReader}

theorem readBuffer_eq (reader : BufferingStreamReader) (left : Nat) (data : Bytes) :
    reader.readBuffer left data =
      let range := (reader.buffer.contiguousRange reader.index).take left
      ({ reader with
          index := reader.index + range.length
          bufferIndex := reader.bufferIndex + range.length }, left - range.length, data ++ range) := rfl

theorem fromBuffer (reader : BufferingStreamReader) (range : Nat) :
    (if reader.index < reader.size then
        let (reader, left, data) := reader.readBuffer range []
        reader.readBuffer left data
      else (reader, range, [])) =
      ({ reader with
          index := reader.index + min range (reader.size - reader.index)
          bufferIndex := reader.bufferIndex + min range (reader.size - reader.index) },
        range - min range (reader.size - reader.index),
        (reader.buffer.contents.drop reader.index).take range) := by
  by_cases present : reader.index < reader.size
  · have both := BoundedDeque.two_ranges present range
    have length := congrArg List.length both
    rw [length_append, length_take (l := reader.buffer.contents.drop _), length_drop]
      at length
    rw [if_pos present]
    simp only [readBuffer_eq, nil_append]
    rw [both]
    simp only [size]
    refine Prod.ext ?_ (Prod.ext ?_ rfl)
    · simp only [BufferingStreamReader.mk.injEq, true_and]
      constructor <;> omega
    · dsimp only
      omega
  · have gone : reader.buffer.contents.drop reader.index = [] :=
      drop_eq_nil_of_le (Nat.le_of_not_lt present)
    have nothing : reader.size - reader.index = 0 := by omega
    simp [present, gone, nothing]

theorem extract_eq (reader : BufferingStreamReader) (range : Nat) :
    reader.extract range =
      let fromBuffer := min range (reader.size - reader.index)
      let taken := (contiguous reader.input.ranges reader.input.position).take (range - fromBuffer)
      ({ reader with
          index := reader.index + fromBuffer + taken.length
          bufferIndex := reader.bufferIndex + fromBuffer
          input := { reader.input with position := reader.input.position + taken.length } },
        (reader.buffer.contents.drop reader.index).take range ++ taken,
        decide (range - fromBuffer - taken.length = 0)) := by
  rw [extract, fromBuffer]
  dsimp only
  by_cases all : range - min range (reader.size - reader.index) = 0
  · simp [all]
  · rw [if_pos all]
    rfl

end BufferingStreamReader

theorem storeLoop_eq {maxSize : Nat} {contents : Bytes} {input : Input}
    (room : contents.length + input.available ≤ maxSize) :
    storeLoop maxSize contents input = some (contents ++ input.ranges.flatten.drop input.position) := by
  fun_induction storeLoop maxSize contents input with
  | case1 contents input none =>
    have gone : input.ranges.flatten.drop input.position = [] := by
      rw [drop_eq_nil_iff]
      rw [Input.available] at none
      omega
    rw [gone, append_nil]
  | case2 contents input some range fits ih =>
    have front := contiguous_at_front input.ranges input.position
    have bound := front.length_le
    rw [length_drop] at bound
    have split : range ++ input.ranges.flatten.drop (input.position + range.length) =
        input.ranges.flatten.drop input.position := by
      have whole := take_append_drop range.length (input.ranges.flatten.drop input.position)
      rwa [← List.prefix_iff_eq_take.mp front, drop_drop] at whole
    rw [ih (by
      rw [length_append]
      simp only [Input.available] at room ⊢
      have part : range.length ≤ input.ranges.flatten.length - input.position := bound
      omega), append_assoc, split]
  | case3 contents input some range full =>
    have front := contiguous_at_front input.ranges input.position
    have bound := front.length_le
    rw [length_drop] at bound
    have part : range.length ≤ input.available := bound
    omega

/-- The reader is at its place in the bytes of the buffer and of the input from `base` on. -/
structure Reads (bits base : Nat) (reader : BufferingStreamReader) (source : Source) : Prop where
  bytes : source.bytes = reader.buffer.contents ++ reader.input.ranges.flatten.drop base
  started : base ≤ reader.input.ranges.flatten.length
  index : reader.index = source.position
  within : source.position ≤ source.bytes.length
  bufferIndex : reader.bufferIndex = min reader.index reader.size
  position : reader.input.position = base + (reader.index - reader.size)
  addressable : source.bytes.length < 2 ^ bits

namespace Reads

variable {bits base : Nat} {reader : BufferingStreamReader} {source : Source}

theorem rest_eq (reads : Reads bits base reader source) :
    source.rest = reader.buffer.contents.drop reader.index ++
      reader.input.ranges.flatten.drop reader.input.position := by
  rw [Source.rest, reads.bytes, ← reads.index, drop_append, drop_drop, reads.position]
  rfl

theorem length_bytes (reads : Reads bits base reader source) :
    source.bytes.length = reader.size + (reader.input.ranges.flatten.length - base) := by
  rw [reads.bytes, length_append, length_drop]
  rfl

theorem length_rest (reads : Reads bits base reader source) :
    source.rest.length = reader.size - reader.index + reader.input.available := by
  rw [reads.rest_eq, length_append, length_drop, length_drop]
  rfl

theorem available_eq (reads : Reads bits base reader source) :
    reader.available = source.rest.length := by
  rw [BufferingStreamReader.available, reads.length_rest, reads.bufferIndex]
  omega

theorem remains (reads : Reads bits base reader source) : Remains reader source := by
  intro room
  have left : reader.buffer.contents.drop (min reader.size reader.index) =
      reader.buffer.contents.drop reader.index := by
    rw [drop_eq_drop_iff, BufferingStreamReader.size]
    omega
  rw [reads.length_rest] at room
  rw [BufferingStreamReader.storeRemainder, left, storeLoop_eq, reads.rest_eq]
  rw [length_drop]
  exact room

theorem advance (reads : Reads bits base reader source) (fromBuffer taken : Nat)
    (buffered : fromBuffer ≤ reader.size - reader.index)
    (before : taken ≠ 0 → fromBuffer = reader.size - reader.index)
    (input : taken ≤ reader.input.available) {next : BufferingStreamReader}
    (moved : next = { reader with
      index := reader.index + fromBuffer + taken
      bufferIndex := reader.bufferIndex + fromBuffer
      input := { reader.input with position := reader.input.position + taken } }) :
    Reads bits base next { source with position := source.position + (fromBuffer + taken) } := by
  have length := reads.length_bytes
  have index := reads.index
  have within := reads.within
  have position := reads.position
  have bufferIndex := reads.bufferIndex
  have started := reads.started
  rw [Input.available] at input
  subst moved
  refine ⟨reads.bytes, reads.started, ?_, ?_, ?_, ?_, reads.addressable⟩
  · dsimp only
    omega
  · dsimp only
    omega
  · change reader.bufferIndex + fromBuffer = min (reader.index + fromBuffer + taken) reader.size
    by_cases none : taken = 0
    · omega
    · have all := before none
      omega
  · change reader.input.position + taken = base + (reader.index + fromBuffer + taken - reader.size)
    by_cases none : taken = 0
    · omega
    · have all := before none
      omega

theorem extract (reads : Reads bits base reader source) {range : Nat}
    (meets : Meets bits reader (.extract range)) :
    reader.extract range = ((reader.extract range).1, source.rest.take range,
        decide (range ≤ source.rest.length)) ∧
      Reads bits base (reader.extract range).1
        { source with position := source.position + min range source.rest.length } := by
  have length := reads.length_rest
  have front := contiguous_at_front reader.input.ranges reader.input.position
  have bound := front.length_le
  rw [length_drop] at bound
  have avail : reader.input.available =
    reader.input.ranges.flatten.length - reader.input.position := rfl
  have taken : ((contiguous reader.input.ranges reader.input.position).take
      (range - min range (reader.size - reader.index))).length =
        min range source.rest.length - min range (reader.size - reader.index) := by
    rw [length_take]
    cases meets with
    | inl short => omega
    | inr all => omega
  have sum : min range (reader.size - reader.index) +
      (min range source.rest.length - min range (reader.size - reader.index)) =
        min range source.rest.length := by omega
  rw [BufferingStreamReader.extract_eq]
  dsimp only
  refine ⟨?_, ?_⟩
  · have inputTaken : (contiguous reader.input.ranges reader.input.position).take
        (range - min range (reader.size - reader.index)) =
          (reader.input.ranges.flatten.drop reader.input.position).take
            (range - (reader.size - reader.index)) := by
      rw [List.prefix_iff_eq_take.mp front, take_take, take_eq_take_iff, length_drop]
      cases meets with
      | inl short => omega
      | inr all => omega
    have data : (reader.buffer.contents.drop reader.index).take range ++
        (contiguous reader.input.ranges reader.input.position).take
          (range - min range (reader.size - reader.index)) = source.rest.take range := by
      rw [inputTaken, reads.rest_eq, take_append, length_drop]
      rfl
    rw [data, taken]
    refine Prod.ext rfl (Prod.ext rfl ?_)
    rw [decide_eq_decide]
    omega
  · have next := reads.advance (min range (reader.size - reader.index))
      (min range source.rest.length - min range (reader.size - reader.index)) (by omega) (by omega) (by omega) rfl
    rw [sum] at next
    rw [taken]
    exact next

theorem extractContiguousRange (reads : Reads bits base reader source) (max : Nat) :
    Contiguous (source.rest.take max) (reader.extractContiguousRange max).2 ∧
      Reads bits base (reader.extractContiguousRange max).1
        { source with
          position := source.position + (reader.extractContiguousRange max).2.length } := by
  rw [BufferingStreamReader.extractContiguousRange]
  by_cases buffered : reader.index < reader.size
  · have range := BoundedDeque.contiguousRange_contiguous reader.buffer reader.index
    have present : reader.buffer.contents.drop reader.index ≠ [] := by
      rw [Ne, drop_eq_nil_iff]
      exact Nat.not_le_of_lt buffered
    have bound := Nat.le_trans (range.take max).1.length_le (length_take_le' _ _)
    rw [length_drop] at bound
    rw [if_pos buffered, reads.rest_eq]
    exact ⟨(range.append present _).take max,
      reads.advance _ 0 bound (fun some => absurd rfl some) (Nat.zero_le _) rfl⟩
  · have range := contiguous_contiguous reader.input.ranges reader.input.position
    have gone : reader.buffer.contents.drop reader.index = [] :=
      drop_eq_nil_of_le (Nat.le_of_not_lt buffered)
    have bound := Nat.le_trans (range.take max).1.length_le (length_take_le' _ _)
    rw [length_drop] at bound
    rw [if_neg buffered, reads.rest_eq, gone, nil_append]
    refine ⟨range.take max, ?_⟩
    have next := reads.advance 0 _ (Nat.zero_le _) (fun _ => by omega) bound rfl
    rw [Nat.zero_add] at next
    exact next

theorem peekContiguousRange (reads : Reads bits base reader source) {start : Nat}
    (meets : Meets bits reader (.peekContiguousRange start)) :
    Contiguous (source.rest.drop start) (reader.peekContiguousRange bits start) := by
  obtain ⟨addressable, still⟩ := meets
  have position := reads.position
  rw [BufferingStreamReader.peekContiguousRange, Nat.mod_eq_of_lt addressable]
  by_cases buffered : reader.index + start < reader.size
  · have range := BoundedDeque.contiguousRange_contiguous reader.buffer (reader.index + start)
    have present : reader.buffer.contents.drop (reader.index + start) ≠ [] := by
      rw [Ne, drop_eq_nil_iff]
      exact Nat.not_le_of_lt buffered
    rw [if_pos buffered, reads.rest_eq, drop_append, drop_drop]
    exact range.append present _
  · rw [if_neg buffered, Input.peekContiguousRange]
    cases Nat.lt_or_ge reader.size reader.index with
    | inr unread =>
      have range := contiguous_contiguous reader.input.ranges
        (reader.input.position + (reader.index + start - reader.size))
      have gone : reader.buffer.contents.drop (reader.index + start) = [] :=
        drop_eq_nil_of_le (Nat.le_of_not_lt buffered)
      have place : reader.input.position + (start - (reader.size - reader.index)) =
          reader.input.position + (reader.index + start - reader.size) := by omega
      rw [reads.rest_eq, drop_append, drop_drop, gone, nil_append, drop_drop,
        length_drop]
      have size : reader.buffer.contents.length = reader.size := rfl
      rwa [size, place]
    | inl beyond =>
      have behind := still.resolve_left (Nat.not_le_of_lt beyond)
      have left := reads.length_rest
      rw [Input.available] at behind left
      have gone : source.rest.drop start = [] := drop_eq_nil_of_le (by omega)
      have range := contiguous_at_front reader.input.ranges
        (reader.input.position + (reader.index + start - reader.size))
      have nothing : reader.input.ranges.flatten.drop
          (reader.input.position + (reader.index + start - reader.size)) = [] :=
        drop_eq_nil_of_le (by omega)
      rw [nothing, List.prefix_nil] at range
      rw [gone, range]
      exact Contiguous.nil

theorem peek (reads : Reads bits base reader source) (meets : Meets bits reader .peek) :
    reader.peek bits = (source.rest.headD 0, decide (source.rest ≠ [])) := by
  have small : reader.index + 0 < 2 ^ bits := by
    have within := reads.within
    have index := reads.index
    have addressable := reads.addressable
    omega
  have first : Meets bits reader (.peekContiguousRange 0) :=
    ⟨small, meets.imp_right fun none => Nat.le_of_eq none⟩
  have range := reads.peekContiguousRange first
  rw [drop_zero] at range
  rw [BufferingStreamReader.peek]
  match shown : reader.peekContiguousRange bits 0, range with
  | [], range =>
    have gone : source.rest = [] := by_contra fun some => range.2 some rfl
    simp [gone]
  | first :: _, range =>
    have ⟨more, whole⟩ := range.1
    simp [← whole]

theorem rewind (reads : Reads bits base reader source) {marker : Nat}
    (before : marker ≤ reader.index) :
    Reads bits base (reader.rewind marker) { source with position := marker } := by
  have index := reads.index
  have within := reads.within
  have position := reads.position
  have bufferIndex := reads.bufferIndex
  have length := reads.length_bytes
  rw [BufferingStreamReader.rewind]
  by_cases beyond : reader.index > reader.size
  · have amount : reader.index - min (reader.index - marker) (reader.index - reader.size) =
        max marker reader.size := by omega
    have place : reader.input.position - min (reader.index - marker) (reader.index - reader.size) =
        base + (marker - reader.size) := by omega
    simp only [if_pos beyond, Input.constructSaveMarker, Input.rewind, amount, place]
    split
    · next buffered =>
        have buffered : marker < reader.size := buffered
        refine ⟨reads.bytes, reads.started, rfl, ?_, ?_, ?_, reads.addressable⟩
        · dsimp only
          omega
        · exact (Nat.min_eq_left (Nat.le_of_lt buffered)).symm
        · rfl
    · next unbuffered =>
        have unbuffered : ¬marker < reader.size := unbuffered
        refine ⟨reads.bytes, reads.started, ?_, ?_, ?_, ?_, reads.addressable⟩
        · dsimp only
          omega
        · dsimp only
          omega
        · change reader.bufferIndex = min (max marker reader.size) reader.size
          omega
        · change base + (marker - reader.size) = base + (max marker reader.size - reader.size)
          omega
  · rw [if_neg beyond]
    by_cases buffered : marker < reader.size
    · rw [if_pos buffered]
      refine ⟨reads.bytes, reads.started, rfl, ?_, ?_, ?_, reads.addressable⟩
      · dsimp only
        omega
      · exact (Nat.min_eq_left (Nat.le_of_lt buffered)).symm
      · change reader.input.position = base + (marker - reader.size)
        omega
    · have same : source.position = marker := by omega
      rw [if_neg buffered]
      exact same ▸ reads

end Reads

theorem step {bits : Nat} {reader : BufferingStreamReader} {source : Source} {action : Call}
    (reads : ∃ base, Reads bits base reader source)
    (fine : Legal reader source action ∧ Meets bits reader action) :
    ∃ next answer source', call bits reader action = some (next, answer) ∧
      Allows source action answer source' ∧ ∃ base, Reads bits base next source' := by
  have ⟨base, reads⟩ := reads
  have ⟨legal, meets⟩ := fine
  cases action with
  | extract range =>
    have ⟨same, next⟩ := reads.extract meets
    have result : call bits reader (.extract range) = some ((reader.extract range).1,
        .extracted (source.rest.take range) (decide (range ≤ source.rest.length))) := by
      rw [call, same]
    exact ⟨_, _, _, result, ⟨rfl, rfl⟩, base, next⟩
  | peek =>
    have result : call bits reader .peek = some (reader,
        .peeked (source.rest.headD 0) (decide (source.rest ≠ []))) := by
      rw [call, reads.peek meets]
    exact ⟨_, _, _, result, ⟨rfl, rfl⟩, base, reads⟩
  | extractContiguousRange max =>
    have ⟨range, next⟩ := reads.extractContiguousRange max
    exact ⟨_, _, _, rfl, ⟨_, rfl, range, rfl⟩, base, next⟩
  | peekContiguousRange start =>
    exact ⟨_, _, _, rfl, ⟨_, rfl, reads.peekContiguousRange meets, rfl⟩, base, reads⟩
  | empty =>
    have result : call bits reader .empty = some (reader, .flag (decide (source.rest = []))) := by
      rw [call, BufferingStreamReader.empty, reads.available_eq]
      simp only [length_eq_zero_iff]
    exact ⟨_, _, _, result, ⟨rfl, rfl⟩, base, reads⟩
  | available =>
    have result : call bits reader .available = some (reader, .number source.rest.length) := by
      rw [call, reads.available_eq]
    exact ⟨_, _, _, result, ⟨rfl, rfl⟩, base, reads⟩
  | constructSaveMarker =>
    have result : call bits reader .constructSaveMarker = some (reader, .number source.position) := by
      rw [call, BufferingStreamReader.constructSaveMarker, reads.index]
    exact ⟨_, _, _, result, ⟨rfl, rfl⟩, base, reads⟩
  | rewind marker => exact ⟨_, _, _, rfl, ⟨rfl, rfl⟩, base, reads.rewind (reads.index.symm ▸ legal)⟩

def construct (buffer : BoundedDeque) (input : Input) : BufferingStreamReader := ⟨buffer, input, 0, 0⟩

/-- All bytes that a new reader has. -/
def sourceOf (buffer : BoundedDeque) (input : Input) : Source :=
  ⟨buffer.contents ++ input.ranges.flatten.drop input.position, 0⟩

/-- While the calls meet the condition, the answers are those of one reader over the bytes of the
buffer and of the input, and what is not read is left in the buffer. -/
theorem reads_one_source (bits : Nat) (buffer : BoundedDeque) (input : Input)
    (started : input.position ≤ input.ranges.flatten.length)
    (addressable : (sourceOf buffer input).bytes.length < 2 ^ bits) (calls : List Call) :
    Lockstep.Follows (call bits)
      (fun reader source action => Legal reader source action ∧ Meets bits reader action)
      Allows Remains (construct buffer input) (sourceOf buffer input) calls := by
  have reads : Reads bits input.position (construct buffer input) (sourceOf buffer input) :=
    ⟨rfl, started, rfl, Nat.zero_le _, (Nat.zero_min _).symm, by simp [construct], addressable⟩
  apply Lockstep.follows_of_step (R := fun reader source => ∃ base, Reads bits base reader source)
    ?shows ?step ⟨_, reads⟩ calls
  case shows => exact fun ⟨_, reads⟩ => reads.remains
  case step => exact step

/-- A ring whose contents go on at its start. -/
def wrapped : BoundedDeque := ⟨2, 1, [1, 2], by decide, by decide⟩

theorem reads_one_source_wrapped :
    Lockstep.Follows (call 64)
      (fun reader source action => Legal reader source action ∧ Meets 64 reader action)
      Allows Remains (construct wrapped ⟨[[3, 4], [5]], 0⟩) (sourceOf wrapped ⟨[[3, 4], [5]], 0⟩)
      [.peek, .extract 3, .rewind 1, .peekContiguousRange 2] :=
  reads_one_source 64 wrapped ⟨[[3, 4], [5]], 0⟩ (by decide) (by decide) _

def nothing : BoundedDeque := ⟨2, 0, [], by decide, fun some => absurd rfl some⟩

/-- Two bytes in two ranges are not extracted, and behind a byte of the input that was read the
next but one is peeked. -/
theorem not_reads_one_source :
    (¬Lockstep.Follows (call 64) Legal Allows Remains (construct nothing ⟨[[1], [2]], 0⟩)
        (sourceOf nothing ⟨[[1], [2]], 0⟩) [.extract 2]) ∧
      ¬Lockstep.Follows (call 64) Legal Allows Remains (construct nothing ⟨[[1, 2, 3]], 0⟩)
        (sourceOf nothing ⟨[[1, 2, 3]], 0⟩) [.extract 1, .peek] := by
  constructor
  · intro ⟨_, follows⟩
    have ⟨next, answer, source, called, allowed, _⟩ := follows trivial
    have given : answer = .extracted [1] false := (congrArg Prod.snd (Option.some.inj called)).symm
    have expected : answer = .extracted [1, 2] true := allowed.1
    rw [given] at expected
    exact absurd expected (by simp)
  · intro ⟨_, follows⟩
    have ⟨next, answer, source, called, allowed, _, followsNext⟩ := follows trivial
    have ⟨last, peeked, final, calledNext, allowedNext, _⟩ := followsNext trivial
    have moved := (Prod.mk.inj (Option.some.inj called)).1
    have left := allowed.2
    subst moved left
    have given : peeked = .peeked 3 true := (congrArg Prod.snd (Option.some.inj calledNext)).symm
    have expected : peeked = .peeked 2 true := allowedNext.1
    rw [given] at expected
    exact absurd expected (by simp)

end BufferedStreams
