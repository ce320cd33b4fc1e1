import EmbeddedInfra.Event.QueueForOneReaderOneIrqWriter

/-! `AtomicByteQueue`: bytes in a storage with one free place, with readers and a writer. -/

namespace AtomicByteQueues

open Ranges List

/-- The pointers are offsets from `storage.begin()`. -/
structure AtomicByteQueue where
  size : Nat
  storage : Nat → UInt8
  b : Nat
  e : Nat

namespace AtomicByteQueue

variable (queue : AtomicByteQueue)

def count : Nat := if queue.b ≤ queue.e then queue.e - queue.b else queue.size + queue.e - queue.b

def maxSize : Nat := queue.size - 1

def empty : Bool := queue.b = queue.e

/-- One round of the loop in `Push`. -/
def pushPart (range : List UInt8) : AtomicByteQueue :=
  let size := min range.length (queue.size - queue.e)
  { queue with
    storage := IrqQueues.copyTo queue.storage queue.e (range.take size)
    e := if queue.e + size = queue.size then 0 else queue.e + size }

def pushLoop : Nat → AtomicByteQueue → List UInt8 → Option AtomicByteQueue
  | _, queue, [] => some queue
  | 0, _, _ :: _ => none
  | rounds + 1, queue, byte :: bytes =>
    pushLoop rounds (queue.pushPart (byte :: bytes))
      ((byte :: bytes).drop (min (byte :: bytes).length (queue.size - queue.e)))

/-- A round per byte is enough, as each one takes some. -/
def push (range : List UInt8) : Option AtomicByteQueue :=
  if range.length ≤ queue.maxSize - queue.count then
    (pushLoop range.length queue range).filter fun next => next.e < next.size ∧ next.b ≤ next.size
  else none

def pop (size : Nat) : Option AtomicByteQueue :=
  let takenFromEnd := min size (queue.size - queue.b)
  let b := queue.b + takenFromEnd
  if b ≤ queue.size ∧ queue.e ≤ queue.size then
    let b := if b = queue.size then size - takenFromEnd else b
    if b < queue.size ∧ queue.e ≤ queue.size then some { queue with b := b } else none
  else none

def slice (first last : Nat) : List UInt8 :=
  (List.range (last - first)).map fun i => queue.storage (first + i)

def peekContiguousRange (start : Nat) : List UInt8 :=
  let takenFromEnd := min start (queue.size - queue.b)
  let begin_ := queue.b + takenFromEnd
  let begin_ := if begin_ = queue.size then start - takenFromEnd else begin_
  if begin_ ≤ queue.e then queue.slice begin_ queue.e else queue.slice begin_ queue.size

end AtomicByteQueue

/-- The loop in `Extract`: how far the reader has come, what was copied, and whether no failure was
reported. -/
def extract (queue : AtomicByteQueue) (offset : Nat) (size : Nat) : Nat × List UInt8 × Bool :=
  if _all : size = 0 then (offset, [], true)
  else
    let range := (queue.peekContiguousRange offset).take size
    if _stuck : range = [] then (offset, [], false)
    else
      let (reached, copied, succeeded) := extract queue (offset + range.length) (size - range.length)
      (reached, range ++ copied, succeeded)
termination_by size
decreasing_by
  exact Nat.sub_lt (Nat.pos_of_ne_zero _all) (length_pos_iff.mpr _stuck)

/-- The queue, and the offset of each reader. -/
structure State where
  queue : AtomicByteQueue
  offset : Nat → Nat

inductive Call
  | push (range : List UInt8)
  | pop (size : Nat)
  | size
  | empty
  | peekQueue (start : Nat)
  | insert (range : List UInt8)
  | writerAvailable
  | construct (reader : Nat)
  | commit (reader : Nat)
  | extract (reader : Nat) (size : Nat)
  | peek (reader : Nat)
  | extractContiguousRange (reader : Nat) (max : Nat)
  | peekContiguousRange (reader : Nat) (start : Nat)
  | readerEmpty (reader : Nat)
  | readerAvailable (reader : Nat)
  | constructSaveMarker (reader : Nat)
  | rewind (reader : Nat) (marker : Nat)

inductive Answer
  | done
  | reported (succeeded : Bool)
  | extracted (data : List UInt8) (succeeded : Bool)
  | peeked (value : Option UInt8)
  | range (data : List UInt8)
  | number (value : Nat)
  | flag (value : Bool)

variable (state : State) (fifo : Fifo)

def State.moved (reader offset : Nat) : State :=
  { state with offset := Function.update state.offset reader offset }

def perform : Call → Option (State × Answer)
  | .push range => (state.queue.push range).map fun queue => ({ state with queue := queue }, .done)
  | .pop size => (state.queue.pop size).map fun queue => ({ state with queue := queue }, .done)
  | .size => some (state, .number state.queue.count)
  | .empty => some (state, .flag state.queue.empty)
  | .peekQueue start => some (state, .range (state.queue.peekContiguousRange start))
  | .insert range =>
    let available := state.queue.maxSize - state.queue.count
    (state.queue.push (range.take available)).map fun queue =>
      ({ state with queue := queue }, .reported (range.length ≤ available))
  | .writerAvailable => some (state, .number (state.queue.maxSize - state.queue.count))
  | .construct reader => some (state.moved reader 0, .done)
  | .commit reader => (state.queue.pop (state.offset reader)).map fun queue =>
    (State.moved { state with queue := queue } reader 0, .done)
  | .extract reader size =>
    let (offset, data, succeeded) := extract state.queue (state.offset reader) size
    some (state.moved reader offset, .extracted data succeeded)
  | .peek reader =>
    some (state, .peeked (state.queue.peekContiguousRange (state.offset reader)).head?)
  | .extractContiguousRange reader max =>
    let range := (state.queue.peekContiguousRange (state.offset reader)).take max
    some (state.moved reader (state.offset reader + range.length), .range range)
  | .peekContiguousRange reader start =>
    some (state, .range (state.queue.peekContiguousRange (start + state.offset reader)))
  | .readerEmpty reader => some (state, .flag (state.queue.count = state.offset reader))
  | .readerAvailable reader => some (state, .number (state.queue.count - state.offset reader))
  | .constructSaveMarker reader => some (state, .number (state.offset reader))
  | .rewind reader marker => some (state.moved reader marker, .done)

/-- At most `capacity` bytes, and where the readers are in them. -/
structure Fifo where
  capacity : Nat
  bytes : List UInt8
  offset : Nat → Nat

def Fifo.ahead (reader : Nat) : List UInt8 := fifo.bytes.drop (fifo.offset reader)

def Fifo.room : Nat := fifo.capacity - fifo.bytes.length

def Fifo.moved (reader offset : Nat) : Fifo :=
  { fifo with offset := Function.update fifo.offset reader offset }

/-- The answers about a list. A range may be shown as far as it lies in one piece. -/
def Allows : Call → Answer → Fifo → Prop
  | .push range, answer, next =>
    answer = .done ∧ next = { fifo with bytes := fifo.bytes ++ range }
  | .pop size, answer, next => answer = .done ∧ next = { fifo with bytes := fifo.bytes.drop size }
  | .size, answer, next => answer = .number fifo.bytes.length ∧ next = fifo
  | .empty, answer, next => answer = .flag (decide (fifo.bytes.length = 0)) ∧ next = fifo
  | .peekQueue start, answer, next =>
    ∃ range, answer = .range range ∧ Contiguous (fifo.bytes.drop start) range ∧ next = fifo
  | .insert range, answer, next =>
    answer = .reported (decide (range.length ≤ fifo.room)) ∧
      next = { fifo with bytes := fifo.bytes ++ range.take fifo.room }
  | .writerAvailable, answer, next => answer = .number fifo.room ∧ next = fifo
  | .construct reader, answer, next => answer = .done ∧ next = fifo.moved reader 0
  | .commit reader, answer, next =>
    answer = .done ∧ next = Fifo.moved { fifo with bytes := fifo.ahead reader } reader 0
  | .extract reader size, answer, next =>
    answer = .extracted ((fifo.ahead reader).take size)
        (decide (size ≤ (fifo.ahead reader).length)) ∧
      next = fifo.moved reader (fifo.offset reader + min size (fifo.ahead reader).length)
  | .peek reader, answer, next => answer = .peeked (fifo.ahead reader).head? ∧ next = fifo
  | .extractContiguousRange reader max, answer, next =>
    ∃ range, answer = .range range ∧ Contiguous ((fifo.ahead reader).take max) range ∧
      next = fifo.moved reader (fifo.offset reader + range.length)
  | .peekContiguousRange reader start, answer, next =>
    ∃ range, answer = .range range ∧ Contiguous ((fifo.ahead reader).drop start) range ∧
      next = fifo
  | .readerEmpty reader, answer, next =>
    answer = .flag (decide ((fifo.ahead reader).length = 0)) ∧ next = fifo
  | .readerAvailable reader, answer, next =>
    answer = .number (fifo.ahead reader).length ∧ next = fifo
  | .constructSaveMarker reader, answer, next => answer = .number (fifo.offset reader) ∧ next = fifo
  | .rewind reader marker, answer, next => answer = .done ∧ next = fifo.moved reader marker

/-- No more is pushed than there is room for, and no more is taken than there is. A reader whose
bytes were taken beside it is rewound or constructed first. -/
def Legal (_state : State) (fifo : Fifo) : Call → Prop
  | .push range => range.length ≤ fifo.room
  | .pop size | .peekQueue size => size ≤ fifo.bytes.length
  | .peekContiguousRange reader start => start + fifo.offset reader ≤ fifo.bytes.length
  | .commit reader | .extract reader _ | .peek reader | .extractContiguousRange reader _
  | .readerEmpty reader | .readerAvailable reader => fifo.offset reader ≤ fifo.bytes.length
  | .size | .empty | .insert _ | .writerAvailable | .construct _ | .constructSaveMarker _
  | .rewind _ _ => True

/-- The pointers are in the storage, and the list has its size. -/
def Shows (fifo : Fifo) : Prop :=
  state.queue.b < state.queue.size ∧ state.queue.e < state.queue.size ∧
    fifo.capacity = state.queue.size - 1 ∧ fifo.bytes.length ≤ fifo.capacity ∧
    state.queue.count = fifo.bytes.length ∧
    (state.queue.empty = true ↔ fifo.bytes = []) ∧
    ∀ start ≤ fifo.bytes.length,
      Contiguous (fifo.bytes.drop start) (state.queue.peekContiguousRange start)

namespace AtomicByteQueue

variable {queue : AtomicByteQueue}

def ring (queue : AtomicByteQueue) : IrqQueues.Queue UInt8 :=
  ⟨queue.size, queue.storage, queue.b, queue.e, false, 0⟩

def bytes (queue : AtomicByteQueue) : List UInt8 := queue.ring.elements

def Inside (queue : AtomicByteQueue) : Prop := queue.ring.Inside

theorem count_cases (queue : AtomicByteQueue) :
    queue.b ≤ queue.e ∧ queue.bytes.length = queue.e - queue.b ∨
      queue.e < queue.b ∧ queue.bytes.length = queue.size - queue.b + queue.e :=
  queue.ring.count_cases

theorem place_cases (inside : queue.Inside) (offset : Nat) :
    queue.b + offset < queue.size ∧ queue.ring.place offset = queue.b + offset ∨
      queue.size ≤ queue.b + offset ∧ queue.ring.place offset + queue.size = queue.b + offset :=
  IrqQueues.Queue.place_cases inside offset

theorem count_eq (inside : queue.Inside) : queue.count = queue.bytes.length := by
  have begin_ : queue.b < queue.size := inside.begin_
  have count := queue.count_cases
  rw [AtomicByteQueue.count]
  split <;> omega

theorem count_lt (inside : queue.Inside) : queue.bytes.length < queue.size := by
  rw [bytes, IrqQueues.Queue.length_elements]
  exact IrqQueues.Queue.count_lt inside

theorem empty_iff (inside : queue.Inside) : queue.empty = decide (queue.bytes.length = 0) :=
  IrqQueues.Queue.empty_eq inside

theorem pushPart_bytes (inside : queue.Inside) {range : List UInt8}
    (room : queue.bytes.length + range.length < queue.size) :
    (queue.pushPart range).bytes =
        queue.bytes ++ range.take (min range.length (queue.size - queue.e)) ∧
      (queue.pushPart range).Inside := by
  have begin_ : queue.b < queue.size := inside.begin_
  have end_ : queue.e < queue.size := inside.end_
  have count := queue.count_cases
  have data : (range.take (min range.length (queue.size - queue.e))).length =
      min range.length (queue.size - queue.e) := by
    rw [length_take]
    omega
  apply @IrqQueues.Queue.elements_append _ queue.ring inside (queue.pushPart range).ring _ rfl rfl
  · rw [data]
    change queue.bytes.length + _ < queue.size
    omega
  · have next := place_cases inside (queue.bytes.length + min range.length (queue.size - queue.e))
    rw [data]
    change (if queue.e + min range.length (queue.size - queue.e) = queue.size then 0
      else queue.e + min range.length (queue.size - queue.e)) = queue.ring.place (queue.bytes.length + _)
    split <;> omega
  · intro i before
    have before : i < queue.bytes.length := before
    have here := place_cases inside i
    apply IrqQueues.copyTo_outside
    rw [data]
    omega
  · intro i within
    have here := place_cases inside (queue.bytes.length + i)
    rw [data] at within
    have same : queue.ring.place (queue.ring.elements.length + i) = queue.e + i := by
      change queue.ring.place (queue.bytes.length + i) = _
      omega
    rw [same]
    exact IrqQueues.copyTo_inside _ (by rw [data]; exact within)

theorem pushLoop_bytes {rounds : Nat} {range : List UInt8} (inside : queue.Inside)
    (enough : range.length ≤ rounds) (room : queue.bytes.length + range.length < queue.size) :
    ∃ next, pushLoop rounds queue range = some next ∧ next.bytes = queue.bytes ++ range ∧
      next.Inside ∧ next.size = queue.size := by
  induction rounds generalizing queue range with
  | zero =>
    obtain rfl : range = [] := eq_nil_of_length_eq_zero (Nat.le_zero.mp enough)
    exact ⟨queue, by rw [pushLoop], (append_nil _).symm, inside, rfl⟩
  | succ rounds ih =>
    match range with
    | [] => exact ⟨queue, by rw [pushLoop], (append_nil _).symm, inside, rfl⟩
    | byte :: bytes =>
      have end_ : queue.e < queue.size := inside.end_
      obtain ⟨part, partInside⟩ := pushPart_bytes inside room
      have taken : 0 < min (byte :: bytes).length (queue.size - queue.e) := by
        rw [length_cons]
        omega
      have left : ((byte :: bytes).drop (min (byte :: bytes).length (queue.size - queue.e))).length =
          (byte :: bytes).length - min (byte :: bytes).length (queue.size - queue.e) :=
        length_drop
      have roomLeft : (queue.pushPart (byte :: bytes)).bytes.length +
          ((byte :: bytes).drop (min (byte :: bytes).length (queue.size - queue.e))).length <
            queue.size := by
        rw [part, left, length_append, length_take]
        omega
      obtain ⟨next, loop, all, nextInside, size⟩ := ih partInside (by omega) roomLeft
      refine ⟨next, by rw [pushLoop]; exact loop, ?_, nextInside, size⟩
      rw [all, part, append_assoc, take_append_drop]

theorem push_bytes {range : List UInt8} (inside : queue.Inside)
    (room : range.length ≤ queue.maxSize - queue.bytes.length) :
    ∃ next, queue.push range = some next ∧ next.bytes = queue.bytes ++ range ∧
      next.Inside ∧ next.size = queue.size := by
  have begin_ : queue.b < queue.size := inside.begin_
  have less := count_lt inside
  rw [maxSize] at room
  obtain ⟨next, loop, all, nextInside, size⟩ :=
    @pushLoop_bytes queue range.length range inside (Nat.le_refl _) (by omega)
  refine ⟨next, ?_, all, nextInside, size⟩
  rw [push, maxSize, count_eq inside, if_pos room, loop]
  have first : next.b < next.size := nextInside.begin_
  have last : next.e < next.size := nextInside.end_
  simp [Option.filter, last, Nat.le_of_lt first]

theorem wrapped (inside : queue.Inside) (offset : Nat) :
    (if queue.b + min offset (queue.size - queue.b) = queue.size then
        offset - min offset (queue.size - queue.b)
      else queue.b + min offset (queue.size - queue.b)) = queue.ring.place offset := by
  have begin_ : queue.b < queue.size := inside.begin_
  have place := place_cases inside offset
  split <;> omega

theorem pop_bytes {size : Nat} (inside : queue.Inside) (within : size ≤ queue.bytes.length) :
    ∃ next, queue.pop size = some next ∧ next.bytes = queue.bytes.drop size ∧ next.Inside ∧
      next.size = queue.size := by
  have begin_ : queue.b < queue.size := inside.begin_
  have end_ : queue.e < queue.size := inside.end_
  have less := count_lt inside
  have place := place_cases inside size
  obtain ⟨all, nextInside⟩ := IrqQueues.Queue.elements_drop inside within
  refine ⟨{ queue with b := queue.ring.place size }, ?_, all, nextInside, rfl⟩
  have there : queue.ring.place size < queue.size := by omega
  rw [pop]
  dsimp only
  rw [if_pos (by omega), wrapped inside, if_pos ⟨there, Nat.le_of_lt end_⟩]

theorem peekContiguousRange_contiguous {start : Nat} (inside : queue.Inside)
    (within : start ≤ queue.bytes.length) :
    Contiguous (queue.bytes.drop start) (queue.peekContiguousRange start) := by
  have begin_ : queue.b < queue.size := inside.begin_
  have end_ : queue.e < queue.size := inside.end_
  have count := queue.count_cases
  have place := place_cases inside start
  rw [peekContiguousRange, wrapped inside]
  split
  · apply @IrqQueues.Queue.slice_contiguous _ queue.ring start
    · change start + (queue.e - _) ≤ queue.bytes.length
      omega
    · intro i less
      have next := place_cases inside (start + i)
      omega
    · intro more
      have more : start < queue.bytes.length := more
      omega
  · apply @IrqQueues.Queue.slice_contiguous _ queue.ring start
    · change start + (queue.size - _) ≤ queue.bytes.length
      omega
    · intro i less
      have next := place_cases inside (start + i)
      omega
    · intro more
      omega

end AtomicByteQueue

theorem extract_eq {queue : AtomicByteQueue} (inside : queue.Inside) {offset : Nat} (size : Nat)
    (within : offset ≤ queue.bytes.length) :
    extract queue offset size = (offset + min size (queue.bytes.drop offset).length,
      (queue.bytes.drop offset).take size, decide (size ≤ (queue.bytes.drop offset).length)) := by
  induction size using Nat.strongRecOn generalizing offset with
  | ind size ih =>
    have contiguous := (AtomicByteQueue.peekContiguousRange_contiguous inside within).take size
    rw [extract]
    by_cases all : size = 0
    · simp [all]
    rw [dif_neg all]
    dsimp only
    generalize (queue.peekContiguousRange offset).take size = range at *
    by_cases stuck : range = []
    · have nothing : queue.bytes.drop offset = [] := by
        by_contra some
        refine contiguous.2 ?_ stuck
        rw [Ne, take_eq_nil_iff]
        exact fun gone => gone.elim all some
      rw [dif_pos stuck]
      simp [nothing, all]
    · have some : 0 < range.length := length_pos_iff.mpr stuck
      have bound := contiguous.1.length_le
      rw [length_take, length_drop] at bound
      have part : range = (queue.bytes.drop offset).take range.length := by
        have front := List.prefix_iff_eq_take.mp contiguous.1
        rwa [take_take, Nat.min_eq_left (by omega)] at front
      have next := ih (size - range.length) (by omega) (show offset + range.length ≤ _ by omega)
      rw [dif_neg stuck, next]
      refine Prod.ext ?_ (Prod.ext ?_ ?_)
      · simp only [length_drop]
        omega
      · have whole : range.length + (size - range.length) = size := by omega
        calc
          range ++ (queue.bytes.drop (offset + range.length)).take (size - range.length) =
              (queue.bytes.drop offset).take range.length ++
                ((queue.bytes.drop offset).drop range.length).take (size - range.length) := by
            rw [← part, drop_drop]
          _ = (queue.bytes.drop offset).take size := by rw [← take_add, whole]
      · simp only [length_drop, decide_eq_decide]
        omega

structure Holds (state : State) (fifo : Fifo) : Prop where
  inside : state.queue.Inside
  capacity : fifo.capacity = state.queue.maxSize
  bytes : state.queue.bytes = fifo.bytes
  offset : state.offset = fifo.offset

namespace Holds

variable {state : State} {fifo : Fifo}

section

variable (holds : Holds state fifo)

include holds

theorem moved (reader offset : Nat) :
    Holds (state.moved reader offset) (fifo.moved reader offset) where
  inside := holds.inside
  capacity := holds.capacity
  bytes := holds.bytes
  offset := by
    rw [State.moved, Fifo.moved, holds.offset]

theorem withQueue {queue : AtomicByteQueue} {bytes : List UInt8} (inside : queue.Inside)
    (size : queue.size = state.queue.size) (same : queue.bytes = bytes) :
    Holds { state with queue := queue } { fifo with bytes := bytes } where
  inside := inside
  capacity := by
    rw [holds.capacity, AtomicByteQueue.maxSize, AtomicByteQueue.maxSize, ← size]
  bytes := same
  offset := holds.offset

theorem room : state.queue.maxSize - state.queue.count = fifo.room := by
  rw [AtomicByteQueue.count_eq holds.inside, Fifo.room, holds.capacity, holds.bytes]

theorem push {range : List UInt8} (fits : range.length ≤ fifo.room) :
    ∃ queue, state.queue.push range = some queue ∧
      Holds { state with queue := queue } { fifo with bytes := fifo.bytes ++ range } := by
  rw [Fifo.room, holds.capacity, ← holds.bytes] at fits
  obtain ⟨queue, pushes, bytes, inside, size⟩ := AtomicByteQueue.push_bytes holds.inside fits
  exact ⟨queue, pushes, holds.withQueue inside size (by rw [bytes, holds.bytes])⟩

theorem pop {size : Nat} (within : size ≤ fifo.bytes.length) :
    ∃ queue, state.queue.pop size = some queue ∧
      Holds { state with queue := queue } { fifo with bytes := fifo.bytes.drop size } := by
  obtain ⟨queue, pops, bytes, inside, same⟩ :=
    AtomicByteQueue.pop_bytes holds.inside (holds.bytes ▸ within)
  exact ⟨queue, pops, holds.withQueue inside same (by rw [bytes, holds.bytes])⟩

theorem peek {start : Nat} (within : start ≤ fifo.bytes.length) :
    Contiguous (fifo.bytes.drop start) (state.queue.peekContiguousRange start) := by
  rw [← holds.bytes] at within ⊢
  exact AtomicByteQueue.peekContiguousRange_contiguous holds.inside within

theorem shows_ : Shows state fifo := by
  have less := AtomicByteQueue.count_lt holds.inside
  have capacity := holds.capacity
  rw [holds.bytes] at less
  rw [AtomicByteQueue.maxSize] at capacity
  refine ⟨holds.inside.begin_, holds.inside.end_, capacity, by omega, ?_, ?_, fun _ => holds.peek⟩
  · rw [AtomicByteQueue.count_eq holds.inside, holds.bytes]
  · rw [AtomicByteQueue.empty_iff holds.inside, holds.bytes, decide_eq_true_iff,
      length_eq_zero_iff]

end

end Holds

theorem step {state : State} {fifo : Fifo} {call : Call} (holds : Holds state fifo)
    (legal : Legal state fifo call) :
    ∃ next answer fifo', perform state call = some (next, answer) ∧ Allows fifo call answer fifo' ∧
      Holds next fifo' := by
  have count : state.queue.count = fifo.bytes.length := by
    rw [AtomicByteQueue.count_eq holds.inside, holds.bytes]
  have length (reader : Nat) : (fifo.ahead reader).length = fifo.bytes.length - fifo.offset reader :=
    length_drop
  cases call with
  | push range =>
    obtain ⟨queue, pushes, next⟩ := holds.push legal
    exact ⟨_, _, _, by rw [perform, pushes, Option.map_some], ⟨rfl, rfl⟩, next⟩
  | pop size =>
    obtain ⟨queue, pops, next⟩ := holds.pop legal
    exact ⟨_, _, _, by rw [perform, pops, Option.map_some], ⟨rfl, rfl⟩, next⟩
  | size => exact ⟨_, _, _, rfl, ⟨by rw [count], rfl⟩, holds⟩
  | empty =>
    refine ⟨_, _, _, rfl, ⟨?_, rfl⟩, holds⟩
    rw [AtomicByteQueue.empty_iff holds.inside, holds.bytes]
  | peekQueue start => exact ⟨_, _, _, rfl, ⟨_, rfl, holds.peek legal, rfl⟩, holds⟩
  | insert range =>
    have fits : (range.take fifo.room).length ≤ fifo.room := length_take_le ..
    obtain ⟨queue, pushes, next⟩ := holds.push fits
    refine ⟨_, _, _, ?_, ⟨rfl, rfl⟩, next⟩
    rw [perform, holds.room, pushes, Option.map_some]
  | writerAvailable => exact ⟨_, _, _, rfl, ⟨by rw [holds.room], rfl⟩, holds⟩
  | construct reader => exact ⟨_, _, _, rfl, ⟨rfl, rfl⟩, holds.moved reader 0⟩
  | commit reader =>
    obtain ⟨queue, pops, next⟩ := holds.pop legal
    refine ⟨_, _, _, ?_, ⟨rfl, rfl⟩, next.moved reader 0⟩
    rw [perform, holds.offset, pops, Option.map_some]
  | extract reader size =>
    have within : state.offset reader ≤ state.queue.bytes.length := by
      rw [holds.offset, holds.bytes]
      exact legal
    have extracts := extract_eq holds.inside size within
    rw [holds.bytes, holds.offset] at extracts
    refine ⟨_, _, _, ?_, ⟨rfl, rfl⟩, holds.moved reader _⟩
    rw [perform, holds.offset, extracts]
    rfl
  | peek reader =>
    have range := holds.peek legal
    refine ⟨_, _, _, rfl, ⟨?_, rfl⟩, holds⟩
    rw [holds.offset, range.head?]
    rfl
  | extractContiguousRange reader max =>
    have range := (holds.peek legal).take max
    refine ⟨_, _, _, rfl, ⟨_, rfl, holds.offset ▸ range, rfl⟩, ?_⟩
    rw [holds.offset]
    exact holds.moved reader _
  | peekContiguousRange reader start =>
    have range := holds.peek legal
    rw [Nat.add_comm, ← drop_drop] at range
    refine ⟨_, _, _, rfl, ⟨_, rfl, ?_, rfl⟩, holds⟩
    rw [holds.offset, Nat.add_comm]
    exact range
  | readerEmpty reader =>
    refine ⟨_, _, _, rfl, ⟨?_, rfl⟩, holds⟩
    have within : fifo.offset reader ≤ fifo.bytes.length := legal
    rw [count, holds.offset, length, Answer.flag.injEq, decide_eq_decide]
    omega
  | readerAvailable reader =>
    refine ⟨_, _, _, rfl, ⟨?_, rfl⟩, holds⟩
    rw [count, holds.offset, length]
  | constructSaveMarker reader =>
    exact ⟨_, _, _, rfl, ⟨by rw [holds.offset], rfl⟩, holds⟩
  | rewind reader marker => exact ⟨_, _, _, rfl, ⟨rfl, rfl⟩, holds.moved reader marker⟩

/-- The queue is a list of the bytes that were pushed and not popped yet. -/
theorem is_byte_list {size : Nat} (some : 2 ≤ size) (storage : Nat → UInt8) (calls : List Call) :
    Lockstep.Follows perform Legal Allows Shows ⟨⟨size, storage, 0, 0⟩, fun _ => 0⟩
      ⟨size - 1, [], fun _ => 0⟩ calls := by
  have holds : Holds ⟨⟨size, storage, 0, 0⟩, fun _ => 0⟩ ⟨size - 1, [], fun _ => 0⟩ :=
    ⟨⟨Nat.zero_lt_of_lt some, Nat.zero_lt_of_lt some⟩, rfl, rfl, rfl⟩
  apply Lockstep.follows_of_step (R := Holds) ?_ ?_ holds calls
  · exact Holds.shows_
  · exact step

theorem is_byte_list_three : Lockstep.Follows perform Legal Allows Shows
    ⟨⟨3, fun _ => 0, 0, 0⟩, fun _ => 0⟩ ⟨3 - 1, [], fun _ => 0⟩
    [.push [1, 2], .extract 0 1, .commit 0, .insert [3], .peekQueue 1, .pop 2] :=
  is_byte_list (by decide) (fun _ => 0) _

end AtomicByteQueues
