import EmbeddedInfra.Lockstep
import EmbeddedInfra.Ranges
import Mathlib.Data.List.GetD
import Mathlib.Algebra.Group.Nat.Defs

/-! `QueueForOneReaderOneIrqWriter`: elements are added in interrupts, and taken outside of them. -/

namespace IrqQueues

open Ranges List
open Option (map_some)

variable {α : Type}

/-! ### The queue -/

/-- Pointers into the buffer are the indices of its elements; `scheduled` counts the actions that
wait in the event dispatcher. -/
structure Queue (α : Type) where
  size : Nat
  memory : Nat → α
  contentsBegin : Nat
  contentsEnd : Nat
  notificationScheduled : Bool
  scheduled : Nat

def construct (size : Nat) (memory : Nat → α) : Queue α := ⟨size, memory, 0, 0, false, 0⟩

/-- `std::copy` to a place in the buffer. -/
def copyTo (memory : Nat → α) (place : Nat) (data : List α) : Nat → α :=
  fun i => if place ≤ i then data.getD (i - place) (memory i) else memory i

namespace Queue

variable (queue : Queue α)

def empty : Bool := queue.contentsBegin = queue.contentsEnd

def full : Bool :=
  (queue.contentsEnd = queue.size - 1 ∨ queue.contentsBegin = queue.contentsEnd + 1) ∧
    (queue.contentsEnd ≠ queue.size - 1 ∨ queue.contentsBegin = 0)

def notifyDataAvailable : Queue α :=
  if ¬queue.empty ∧ ¬queue.notificationScheduled then
    { queue with notificationScheduled := true, scheduled := queue.scheduled + 1 }
  else queue

def dataAvailable : Queue α :=
  { queue with notificationScheduled := false, scheduled := queue.scheduled - 1 }

def addFromInterruptUnchecked (element : α) : Queue α :=
  { queue with
    memory := copyTo queue.memory queue.contentsEnd [element]
    contentsEnd := if queue.contentsEnd = queue.size - 1 then 0 else queue.contentsEnd + 1
    }.notifyDataAvailable

def addFromInterrupt (element : α) : Option (Queue α) :=
  if queue.full then none else some (queue.addFromInterruptUnchecked element)

/-- Nothing where the assertion fails, or the range is copied over the end of the buffer. -/
def addRangeFromInterruptUnchecked (data : List α) : Option (Queue α) :=
  let copySize := min data.length (queue.size - queue.contentsEnd)
  let begin_ := queue.contentsBegin
  if ¬(begin_ ≤ queue.contentsEnd ∨ begin_ > queue.contentsEnd + copySize) then some queue
  else
    let memory := copyTo queue.memory queue.contentsEnd (data.take copySize)
    let contentsEnd :=
      if queue.contentsEnd = queue.size - copySize then 0 else queue.contentsEnd + copySize
    let data := data.drop copySize
    if (begin_ ≤ contentsEnd ∨ begin_ > contentsEnd + data.length) ∧
        contentsEnd + data.length ≤ queue.size then
      some { queue with
        memory := copyTo memory contentsEnd data
        contentsEnd := contentsEnd + data.length
        }.notifyDataAvailable
    else none

def addRangeFromInterrupt (data : List α) : Option (Queue α) :=
  if queue.full then none else queue.addRangeFromInterruptUnchecked data

def get : Option (Queue α × α) :=
  if queue.empty then none
  else
    let result := queue.memory queue.contentsBegin
    some ({ queue with
      contentsBegin :=
        if queue.contentsBegin = queue.size - 1 then 0 else queue.contentsBegin + 1 }, result)

def emptySize : Nat := queue.size - 1

def length : Nat :=
  if queue.full then queue.emptySize
  else if queue.contentsEnd ≥ queue.contentsBegin then queue.contentsEnd - queue.contentsBegin
  else queue.size - queue.contentsBegin + queue.contentsEnd

/-- `operator[]` -/
def at_ (position : Nat) : Option α :=
  if queue.length > 0 ∧ position < queue.length then
    if queue.contentsBegin + position ≥ queue.size then
      some (queue.memory (position - (queue.size - queue.contentsBegin)))
    else some (queue.memory (queue.contentsBegin + position))
  else none

def slice (first last : Nat) : List α := (List.range (last - first)).map fun i => queue.memory (first + i)

/-- The place so many elements behind the first one. -/
def place (offset : Nat) : Nat :=
  if queue.contentsBegin + offset ≥ queue.size then offset - (queue.size - queue.contentsBegin)
  else queue.contentsBegin + offset

def contiguousRange (offset : Nat) : List α :=
  let begin_ := queue.place (offset % 2 ^ 32)
  if queue.contentsEnd < begin_ then queue.slice begin_ queue.size
  else queue.slice begin_ queue.contentsEnd

def consume (amount : Nat) : Queue α := { queue with contentsBegin := queue.place (amount % 2 ^ 32) }

end Queue

/-! ### The stream reader -/

structure StreamReader where
  available : Nat
  offset : Nat

namespace StreamReader

variable (queue : Queue α) (reader : StreamReader)

def construct (queue : Queue α) : StreamReader := ⟨queue.length, 0⟩

def left : Nat := reader.available - reader.offset

/-- `Extract`: what was copied, and whether no failure was reported. -/
def extract (queue : Queue α) (reader : StreamReader) (range : Nat) : StreamReader × List α × Bool :=
  if _none : range = 0 then (reader, [], true)
  else
    let from_ := (queue.contiguousRange reader.offset).take (min range reader.left)
    if _stuck : from_ = [] then (reader, [], false)
    else
      let (next, data, succeeded) :=
        extract queue { reader with offset := reader.offset + from_.length } (range - from_.length)
      (next, from_ ++ data, succeeded)
termination_by range
decreasing_by
  exact Nat.sub_lt (Nat.pos_of_ne_zero _none) (length_pos_iff.mpr _stuck)

def peek : Option α := ((queue.contiguousRange reader.offset).take reader.left).head?

def extractContiguousRange (max : Nat) : StreamReader × List α :=
  let result := (queue.contiguousRange reader.offset).take (min max reader.left)
  ({ reader with offset := reader.offset + result.length }, result)

def peekContiguousRange (start : Nat) : List α :=
  (queue.contiguousRange (reader.offset + start)).take reader.left

def commit : StreamReader := { reader with offset := 0 }

def rewind (marker : Nat) : StreamReader := { reader with offset := marker }

end StreamReader

/-! ### Calls -/

structure State (α : Type) where
  queue : Queue α
  reader : Option StreamReader

inductive Call (α : Type) where
  | add (element : α)
  | addRange (data : List α)
  | get
  | at_ (position : Nat)
  | contiguousRange (offset : Nat)
  | consume (amount : Nat)
  | length
  | empty
  | full
  | emptySize
  | dataAvailable
  | openReader
  | commit
  | extract (range : Nat)
  | peek
  | extractContiguousRange (max : Nat)
  | peekContiguousRange (start : Nat)
  | readerEmpty
  | available
  | constructSaveMarker
  | rewind (marker : Nat)

inductive Answer (α : Type) where
  | done
  | element (value : α)
  | extracted (data : List α) (succeeded : Bool)
  | peeked (value : Option α)
  | range (data : List α)
  | number (value : Nat)
  | flag (value : Bool)

def call (state : State α) : Call α → Option (State α × Answer α)
  | .add element =>
    (state.queue.addFromInterrupt element).map fun queue => ({ state with queue := queue }, .done)
  | .addRange data =>
    (state.queue.addRangeFromInterrupt data).map fun queue => ({ state with queue := queue }, .done)
  | .get => state.queue.get.map fun (queue, result) => ({ state with queue := queue }, .element result)
  | .at_ position => (state.queue.at_ position).map fun result => (state, .element result)
  | .contiguousRange offset => some (state, .range (state.queue.contiguousRange offset))
  | .consume amount => some ({ state with queue := state.queue.consume amount }, .done)
  | .length => some (state, .number state.queue.length)
  | .empty => some (state, .flag state.queue.empty)
  | .full => some (state, .flag state.queue.full)
  | .emptySize => some (state, .number state.queue.emptySize)
  | .dataAvailable => some ({ state with queue := state.queue.dataAvailable }, .done)
  | .openReader => some ({ state with reader := some (.construct state.queue) }, .done)
  | .commit => state.reader.map fun reader =>
    (⟨state.queue.consume reader.offset, some reader.commit⟩, .done)
  | .extract range => state.reader.map fun reader =>
    let (reader, data, succeeded) := reader.extract state.queue range
    ({ state with reader := some reader }, .extracted data succeeded)
  | .peek => state.reader.map fun reader => (state, .peeked (reader.peek state.queue))
  | .extractContiguousRange max => state.reader.map fun reader =>
    let (reader, data) := reader.extractContiguousRange state.queue max
    ({ state with reader := some reader }, .range data)
  | .peekContiguousRange start => state.reader.map fun reader =>
    (state, .range (reader.peekContiguousRange state.queue start))
  | .readerEmpty => state.reader.map fun reader => (state, .flag (reader.left = 0))
  | .available => state.reader.map fun reader => (state, .number reader.left)
  | .constructSaveMarker => state.reader.map fun reader => (state, .number reader.offset)
  | .rewind marker => state.reader.map fun reader =>
    ({ state with reader := some (reader.rewind marker) }, .done)

/-! ### A list -/

/-- A stream reader sees so many elements from the front, and is at an offset in them. -/
structure Window where
  visible : Nat
  offset : Nat

/-- A list of at most `capacity` elements, and the window of the stream reader unless elements
were taken beside it. -/
structure Fifo (α : Type) where
  capacity : Nat
  elements : List α
  window : Option Window

def Fifo.seen (fifo : Fifo α) (window : Window) : List α :=
  (fifo.elements.take window.visible).drop window.offset

def Fifo.move (fifo : Fifo α) (window : Window) (amount : Nat) : Fifo α :=
  { fifo with window := some { window with offset := window.offset + amount } }

/-- The answers about a list. A range may be shown as far as it lies in one piece. -/
def Allows (fifo : Fifo α) : Call α → Answer α → Fifo α → Prop
  | .add element, answer, next =>
    answer = .done ∧ next = { fifo with elements := fifo.elements ++ [element] }
  | .addRange data, answer, next =>
    answer = .done ∧
      next = if fifo.elements.length + data.length ≤ fifo.capacity then
        { fifo with elements := fifo.elements ++ data } else fifo
  | .get, answer, next =>
    ∃ first rest, fifo.elements = first :: rest ∧ answer = .element first ∧
      next = { fifo with elements := rest, window := none }
  | .at_ position, answer, next =>
    ∃ value, fifo.elements[position]? = some value ∧ answer = .element value ∧ next = fifo
  | .contiguousRange offset, answer, next =>
    ∃ range, answer = .range range ∧ Contiguous (fifo.elements.drop offset) range ∧ next = fifo
  | .consume amount, answer, next =>
    answer = .done ∧ next = { fifo with
      elements := fifo.elements.drop amount
      window := if amount = 0 then fifo.window else none }
  | .length, answer, next => answer = .number fifo.elements.length ∧ next = fifo
  | .empty, answer, next => answer = .flag (decide (fifo.elements.length = 0)) ∧ next = fifo
  | .full, answer, next =>
    answer = .flag (decide (fifo.elements.length = fifo.capacity)) ∧ next = fifo
  | .emptySize, answer, next => answer = .number fifo.capacity ∧ next = fifo
  | .dataAvailable, answer, next => answer = .done ∧ next = fifo
  | .openReader, answer, next =>
    answer = .done ∧ next = { fifo with window := some ⟨fifo.elements.length, 0⟩ }
  | .commit, answer, next => ∃ window, fifo.window = some window ∧ answer = .done ∧
      next = { fifo with
        elements := fifo.elements.drop window.offset
        window := some ⟨window.visible - window.offset, 0⟩ }
  | .extract range, answer, next => ∃ window, fifo.window = some window ∧
      answer = .extracted ((fifo.seen window).take range)
        (decide (range ≤ (fifo.seen window).length)) ∧
      next = fifo.move window (min range (fifo.seen window).length)
  | .peek, answer, next => ∃ window, fifo.window = some window ∧
      answer = .peeked (fifo.seen window).head? ∧ next = fifo
  | .extractContiguousRange max, answer, next => ∃ window range, fifo.window = some window ∧
      answer = .range range ∧ Contiguous ((fifo.seen window).take max) range ∧
      next = fifo.move window range.length
  | .peekContiguousRange start, answer, next => ∃ window range, fifo.window = some window ∧
      answer = .range range ∧ Contiguous ((fifo.seen window).drop start) range ∧ next = fifo
  | .readerEmpty, answer, next => ∃ window, fifo.window = some window ∧
      answer = .flag (decide ((fifo.seen window).length = 0)) ∧ next = fifo
  | .available, answer, next => ∃ window, fifo.window = some window ∧
      answer = .number (fifo.seen window).length ∧ next = fifo
  | .constructSaveMarker, answer, next => ∃ window, fifo.window = some window ∧
      answer = .number window.offset ∧ next = fifo
  | .rewind marker, answer, next => ∃ window, fifo.window = some window ∧ answer = .done ∧
      next = { fifo with window := some { window with offset := marker } }

/-- The queue is asked for what it has only, and elements are added while it is not full. -/
def Legal (state : State α) (fifo : Fifo α) : Call α → Prop
  | .add _ | .addRange _ => fifo.elements.length < fifo.capacity
  | .get => fifo.elements ≠ []
  | .at_ position => position < fifo.elements.length
  | .contiguousRange offset => offset ≤ fifo.elements.length ∧ offset < 2 ^ 32
  | .consume amount => amount ≤ fifo.elements.length ∧ amount < 2 ^ 32
  | .length | .empty | .full | .emptySize | .openReader => True
  | .dataAvailable => 0 < state.queue.scheduled
  | .rewind marker => ∃ window, fifo.window = some window ∧ marker ≤ window.offset
  | _ => state.reader ≠ none

/-- What is read there is seen, or the stream reader does not take anything else for seen. -/
def Known (reader : StreamReader) (fifo : Fifo α) (window : Window) (amount : Nat) : Prop :=
  reader.available = window.visible ∨ fifo.elements.length = window.visible ∨
    window.offset + amount ≤ window.visible

def MeetsReader (state : State α) (fifo : Fifo α) (P : StreamReader → Window → Prop) : Prop :=
  state.queue.size ≤ 2 ^ 32 ∧ ∃ window, fifo.window = some window ∧
    ∀ reader, state.reader = some reader → P reader window

/-- A range fits where the contents do not go on at the start of the buffer, and the stream reader
is asked for no more than it has. -/
def Meets (state : State α) (fifo : Fifo α) : Call α → Prop
  | .addRange data => state.queue.contentsBegin ≤ state.queue.contentsEnd →
      fifo.elements.length + data.length ≤ fifo.capacity ∨
        (fifo.elements = [] ∧ state.queue.contentsBegin = 0 ∧ data.length = state.queue.size)
  | .commit | .constructSaveMarker | .rewind _ => MeetsReader state fifo fun _ _ => True
  | .extract amount | .extractContiguousRange amount =>
    MeetsReader state fifo fun reader window => Known reader fifo window amount
  | .peek => MeetsReader state fifo fun reader window => Known reader fifo window 1
  | .peekContiguousRange start => MeetsReader state fifo fun reader window =>
    window.offset + start ≤ window.visible ∧
      (fifo.elements.length = window.visible ∨ start = 0 ∧ reader.available = window.visible)
  | .readerEmpty | .available =>
    MeetsReader state fifo fun reader window => reader.available = window.visible
  | _ => True

/-! ### The elements of the queue -/

theorem copyTo_outside (memory : Nat → α) {place i : Nat} {data : List α}
    (outside : i < place ∨ place + data.length ≤ i) : copyTo memory place data i = memory i := by
  rw [copyTo]
  split
  · rw [getD_eq_default _ _ (by omega)]
  · rfl

theorem copyTo_inside (memory : Nat → α) {place i : Nat} {data : List α}
    (within : i < data.length) : copyTo memory place data (place + i) = data[i] := by
  rw [copyTo, if_pos (Nat.le_add_right _ _), Nat.add_sub_cancel_left, getD_eq_getElem _ _ within]

namespace Queue

variable {queue : Queue α}

/-- The pointers are in the buffer. -/
structure Inside (queue : Queue α) : Prop where
  begin_ : queue.contentsBegin < queue.size
  end_ : queue.contentsEnd < queue.size

/-- How many elements are between the pointers. -/
def count (queue : Queue α) : Nat :=
  if queue.contentsBegin ≤ queue.contentsEnd then queue.contentsEnd - queue.contentsBegin
  else queue.size - queue.contentsBegin + queue.contentsEnd

def elements (queue : Queue α) : List α :=
  (List.range queue.count).map fun i => queue.memory (queue.place i)

@[simp]
theorem length_elements (queue : Queue α) : queue.elements.length = queue.count := by
  simp [elements]

theorem getElem_elements (queue : Queue α) {i : Nat} (within : i < queue.elements.length) :
    queue.elements[i] = queue.memory (queue.place i) := by
  simp [elements]

theorem count_cases (queue : Queue α) :
    queue.contentsBegin ≤ queue.contentsEnd ∧
        queue.elements.length = queue.contentsEnd - queue.contentsBegin ∨
      queue.contentsEnd < queue.contentsBegin ∧
        queue.elements.length = queue.size - queue.contentsBegin + queue.contentsEnd := by
  rw [length_elements, count]
  split <;> omega

section

variable (inside : queue.Inside)

include inside

theorem place_cases (offset : Nat) :
    queue.contentsBegin + offset < queue.size ∧ queue.place offset = queue.contentsBegin + offset ∨
      queue.size ≤ queue.contentsBegin + offset ∧
        queue.place offset + queue.size = queue.contentsBegin + offset := by
  have begin_ := inside.begin_
  rw [place]
  split <;> omega

theorem count_lt : queue.count < queue.size := by
  have begin_ := inside.begin_
  have end_ := inside.end_
  rw [count]
  split <;> omega

theorem empty_eq : queue.empty = decide (queue.elements.length = 0) := by
  have begin_ := inside.begin_
  rw [empty, length_elements, count, decide_eq_decide]
  split <;> omega

theorem full_eq : queue.full = decide (queue.elements.length = queue.size - 1) := by
  have begin_ := inside.begin_
  have end_ := inside.end_
  rw [full, length_elements, count, decide_eq_decide]
  split <;> omega

theorem length_eq : queue.length = queue.elements.length := by
  have begin_ := inside.begin_
  have end_ := inside.end_
  rw [length, full_eq inside, length_elements, emptySize]
  by_cases full : queue.count = queue.size - 1
  · simp [full]
  · rw [if_neg (by simpa using full), count]

theorem place_zero : queue.place 0 = queue.contentsBegin := by
  have begin_ := inside.begin_
  rw [place, if_neg (by omega), Nat.add_zero]

theorem at_eq {position : Nat} (within : position < queue.elements.length) :
    queue.at_ position = queue.elements[position]? := by
  rw [at_, length_eq inside, if_pos ⟨by omega, within⟩, getElem?_eq_getElem within,
    getElem_elements, place]
  split <;> rfl

end

theorem length_slice (queue : Queue α) (first last : Nat) :
    (queue.slice first last).length = last - first := by
  simp [slice]

theorem slice_contiguous {offset first last : Nat}
    (within : offset + (last - first) ≤ queue.elements.length)
    (follows : ∀ i < last - first, queue.place (offset + i) = first + i)
    (some : offset < queue.elements.length → first < last) :
    Contiguous (queue.elements.drop offset) (queue.slice first last) := by
  have part : queue.slice first last = (queue.elements.drop offset).take (last - first) := by
    apply ext_getElem
    · rw [length_slice, length_take, length_drop]
      omega
    · intro i inSlice inElements
      rw [length_slice] at inSlice
      rw [getElem_take, getElem_drop, getElem_elements, follows i inSlice]
      simp [slice]
  rw [part]
  refine ⟨List.take_prefix _ _, ?_⟩
  intro more
  rw [Ne, drop_eq_nil_iff] at more
  have less := some (by omega)
  rw [Ne, take_eq_nil_iff, drop_eq_nil_iff]
  omega

theorem contiguousRange_contiguous (inside : queue.Inside) {offset : Nat}
    (within : offset ≤ queue.elements.length) (small : offset < 2 ^ 32) :
    Contiguous (queue.elements.drop offset) (queue.contiguousRange offset) := by
  have begin_ := inside.begin_
  have end_ := inside.end_
  have count := queue.count_cases
  have start := place_cases inside offset
  rw [contiguousRange, Nat.mod_eq_of_lt small]
  by_cases behind : queue.contentsEnd < queue.place offset
  · rw [if_pos behind]
    refine slice_contiguous (by omega) ?_ (by omega)
    intro i less
    have next := place_cases inside (offset + i)
    omega
  · rw [if_neg behind]
    refine slice_contiguous (by omega) ?_ (by omega)
    intro i less
    have next := place_cases inside (offset + i)
    omega

theorem elements_drop (inside : queue.Inside) {amount : Nat} (within : amount ≤ queue.elements.length) :
    ({ queue with contentsBegin := queue.place amount } : Queue α).elements =
        queue.elements.drop amount ∧
      ({ queue with contentsBegin := queue.place amount } : Queue α).Inside := by
  have begin_ := inside.begin_
  have end_ := inside.end_
  have count := queue.count_cases
  have start := place_cases inside amount
  have inside' : ({ queue with contentsBegin := queue.place amount } : Queue α).Inside :=
    ⟨show queue.place amount < queue.size by omega, end_⟩
  have countLeft := count_cases ({ queue with contentsBegin := queue.place amount } : Queue α)
  dsimp only at countLeft
  refine ⟨?_, inside'⟩
  apply ext_getElem
  · rw [length_drop]
    omega
  · intro i inLeft inRight
    have there := place_cases inside' i
    have here := place_cases inside (amount + i)
    rw [length_drop] at inRight
    rw [getElem_drop, getElem_elements, getElem_elements]
    dsimp only at there ⊢
    congr 1
    omega

theorem elements_append (inside : queue.Inside) (next : Queue α) (data : List α)
    (size : next.size = queue.size) (begin_ : next.contentsBegin = queue.contentsBegin)
    (room : queue.elements.length + data.length < queue.size)
    (end_ : next.contentsEnd = queue.place (queue.elements.length + data.length))
    (kept : ∀ i < queue.elements.length, next.memory (queue.place i) = queue.memory (queue.place i))
    (written : ∀ i (within : i < data.length),
      next.memory (queue.place (queue.elements.length + i)) = data[i]) :
    next.elements = queue.elements ++ data ∧ next.Inside := by
  have first := inside.begin_
  have last := inside.end_
  have count := queue.count_cases
  have samePlace (i : Nat) : next.place i = queue.place i := by rw [place, place, size, begin_]
  have ending := place_cases inside (queue.elements.length + data.length)
  have countNext := count_cases next
  rw [size, begin_, end_] at countNext
  have bound : next.contentsEnd < next.size := by omega
  have length : next.elements.length = queue.elements.length + data.length := by omega
  refine ⟨?_, begin_ ▸ size ▸ first, bound⟩
  apply ext_getElem
  · rw [length, length_append]
  · intro i inLeft inRight
    rw [getElem_elements, samePlace, getElem_append]
    split
    · next old => rw [kept i old, getElem_elements]
    · next new =>
        have place : queue.elements.length + (i - queue.elements.length) = i := by omega
        have value := written (i - queue.elements.length) (by omega)
        rwa [place] at value

@[simp]
theorem elements_notify (queue : Queue α) : queue.notifyDataAvailable.elements = queue.elements := by
  rw [notifyDataAvailable]
  split <;> rfl

@[simp]
theorem size_notify (queue : Queue α) : queue.notifyDataAvailable.size = queue.size := by
  rw [notifyDataAvailable]
  split <;> rfl

theorem inside_notify (inside : queue.Inside) : queue.notifyDataAvailable.Inside := by
  rw [notifyDataAvailable]
  split
  · exact ⟨inside.begin_, inside.end_⟩
  · exact inside

theorem place_count (inside : queue.Inside) :
    queue.place queue.elements.length = queue.contentsEnd := by
  have begin_ := inside.begin_
  have end_ := inside.end_
  have count := queue.count_cases
  have place := place_cases inside queue.elements.length
  omega

section

variable (inside : queue.Inside) (room : queue.elements.length < queue.size - 1)

include inside room

theorem add_elements (element : α) :
    (queue.addFromInterruptUnchecked element).elements = queue.elements ++ [element] ∧
      (queue.addFromInterruptUnchecked element).Inside := by
  have begin_ := inside.begin_
  have end_ := inside.end_
  have count := queue.count_cases
  have last := place_count inside
  have appended := elements_append inside { queue with
      memory := copyTo queue.memory queue.contentsEnd [element]
      contentsEnd := if queue.contentsEnd = queue.size - 1 then 0 else queue.contentsEnd + 1 }
    [element] rfl rfl (by rw [length_singleton]; omega) ?_ ?_ ?_
  · rw [addFromInterruptUnchecked, elements_notify]
    exact ⟨appended.1, inside_notify appended.2⟩
  · have place := place_cases inside (queue.elements.length + [element].length)
    rw [length_singleton] at place ⊢
    dsimp only
    split <;> omega
  · intro i within
    have place := place_cases inside i
    exact copyTo_outside _ (by rw [length_singleton]; omega)
  · intro i within
    have zero : i = 0 := by
      rw [length_singleton] at within
      omega
    subst zero
    have there : queue.place (queue.elements.length + 0) = queue.contentsEnd := last
    rw [there]
    exact copyTo_inside queue.memory within

theorem addFromInterrupt_eq (element : α) :
    queue.addFromInterrupt element = some (queue.addFromInterruptUnchecked element) := by
  rw [addFromInterrupt, full_eq inside, if_neg (by simpa using Nat.ne_of_lt room)]

/-- A range behind the elements, in one or in two parts; or nothing where it does not fit. -/
theorem addRange_elements (data : List α)
    (meets : queue.contentsBegin ≤ queue.contentsEnd →
      queue.elements.length + data.length ≤ queue.size - 1 ∨
      (queue.elements = [] ∧ queue.contentsBegin = 0 ∧ data.length = queue.size)) :
    ∃ next, queue.addRangeFromInterrupt data = some next ∧
      next.elements = (if queue.elements.length + data.length ≤ queue.size - 1
        then queue.elements ++ data else queue.elements) ∧
      next.Inside ∧ next.size = queue.size := by
  have begin_ := inside.begin_
  have end_ := inside.end_
  have count := queue.count_cases
  have last := place_count inside
  rw [addRangeFromInterrupt, full_eq inside, if_neg (by simpa using Nat.ne_of_lt room),
    addRangeFromInterruptUnchecked]
  dsimp only
  by_cases full : queue.elements.length + data.length ≤ queue.size - 1
  · have passes : queue.contentsBegin ≤ queue.contentsEnd ∨ queue.contentsBegin >
        queue.contentsEnd + min data.length (queue.size - queue.contentsEnd) := by omega
    rw [if_pos full, if_neg (not_not_intro passes)]
    generalize taken : min data.length (queue.size - queue.contentsEnd) = copySize at passes ⊢
    obtain ⟨small, fits, most⟩ : copySize ≤ data.length ∧ queue.contentsEnd + copySize ≤ queue.size ∧
        (copySize = data.length ∨ queue.contentsEnd + copySize = queue.size) := by omega
    clear taken meets
    generalize middle : (if queue.contentsEnd = queue.size - copySize then 0
      else queue.contentsEnd + copySize) = contentsEnd
    have middle_cases : queue.contentsEnd + copySize = queue.size ∧ contentsEnd = 0 ∨
        queue.contentsEnd + copySize < queue.size ∧ contentsEnd = queue.contentsEnd + copySize := by
      rw [← middle]
      split <;> omega
    have front : (data.take copySize).length = copySize := by
      rw [length_take]
      omega
    have back : (data.drop copySize).length = data.length - copySize := length_drop
    rw [if_pos (by omega)]
    have appended := elements_append inside { queue with
        memory := copyTo (copyTo queue.memory queue.contentsEnd (data.take copySize)) contentsEnd
          (data.drop copySize)
        contentsEnd := contentsEnd + (data.drop copySize).length }
      data rfl rfl (by omega) ?_ ?_ ?_
    · exact ⟨_, rfl, by rw [elements_notify, appended.1], inside_notify appended.2, size_notify _⟩
    · have place := place_cases inside (queue.elements.length + data.length)
      dsimp only
      omega
    · intro i within
      have place := place_cases inside i
      dsimp only
      rw [copyTo_outside _ (by omega), copyTo_outside _ (by omega)]
    · intro i within
      have place := place_cases inside (queue.elements.length + i)
      dsimp only
      by_cases first : i < copySize
      · have there : queue.place (queue.elements.length + i) = queue.contentsEnd + i := by omega
        rw [copyTo_outside _ (by omega), there, copyTo_inside _ (by omega), getElem_take]
      · have there : queue.place (queue.elements.length + i) = contentsEnd + (i - copySize) := by omega
        have offset : copySize + (i - copySize) = i := by omega
        rw [there, copyTo_inside _ (by omega), getElem_drop]
        simp only [offset]
  · rw [if_neg full]
    by_cases unwrapped : queue.contentsBegin ≤ queue.contentsEnd
    · have ⟨nothing, first, whole⟩ := (meets unwrapped).resolve_left full
      have none : queue.elements.length = 0 := by rw [nothing, length_nil]
      have all : min data.length (queue.size - queue.contentsEnd) = queue.size := by omega
      have rest : data.drop queue.size = [] := drop_eq_nil_of_le (by omega)
      have restart : queue.contentsEnd = queue.size - queue.size := by omega
      rw [if_neg (not_not_intro (Or.inl unwrapped)), all, rest, if_pos restart, length_nil,
        if_pos ⟨by omega, by omega⟩]
      refine ⟨_, rfl, ?_, inside_notify ⟨begin_, show 0 + 0 < queue.size by omega⟩, size_notify _⟩
      rw [elements_notify, nothing]
      apply length_eq_zero_iff.mp
      rw [length_elements, Queue.count]
      dsimp only
      split <;> omega
    · have crosses : ¬(queue.contentsBegin ≤ queue.contentsEnd ∨ queue.contentsBegin >
          queue.contentsEnd + min data.length (queue.size - queue.contentsEnd)) := by omega
      rw [if_pos crosses]
      exact ⟨queue, rfl, rfl, inside, rfl⟩

end

theorem get_eq (inside : queue.Inside) {first : α} {rest : List α}
    (elements : queue.elements = first :: rest) :
    ∃ next, queue.get = some (next, first) ∧ next.elements = rest ∧ next.Inside ∧
      next.size = queue.size := by
  have begin_ := inside.begin_
  have some : 0 < queue.elements.length := by rw [elements]; exact Nat.succ_pos _
  have one : 1 ≤ queue.elements.length := some
  have dropped := elements_drop inside one
  have second := place_cases inside 1
  have next : (if queue.contentsBegin = queue.size - 1 then 0 else queue.contentsBegin + 1) =
      queue.place 1 := by
    split <;> omega
  have value : queue.memory queue.contentsBegin = first := by
    have head := getElem_elements queue some
    rw [place_zero inside] at head
    rw [← head]
    simp [elements]
  rw [get, empty_eq inside, if_neg (by simpa using Nat.ne_of_gt some), next, value]
  refine ⟨_, rfl, ?_, dropped.2, rfl⟩
  rw [dropped.1, elements, drop_succ_cons, drop_zero]

end Queue

/-! ### The stream reader sees the elements -/

namespace StreamReader

variable {queue : Queue α} {reader : StreamReader}

def ahead (queue : Queue α) (reader : StreamReader) : List α :=
  (queue.elements.drop reader.offset).take reader.left

theorem range_contiguous (inside : queue.Inside) (small : queue.size ≤ 2 ^ 32)
    (within : reader.offset ≤ queue.elements.length) :
    Contiguous (queue.elements.drop reader.offset) (queue.contiguousRange reader.offset) := by
  have less := Queue.count_lt inside
  rw [← Queue.length_elements] at less
  exact Queue.contiguousRange_contiguous inside within (by omega)

theorem extract_eq (inside : queue.Inside) (small : queue.size ≤ 2 ^ 32) (range : Nat)
    (within : reader.offset ≤ queue.elements.length) :
    reader.extract queue range =
      ({ reader with offset := reader.offset + min range (reader.ahead queue).length },
        (reader.ahead queue).take range, decide (range ≤ (reader.ahead queue).length)) := by
  induction range using Nat.strongRecOn generalizing reader with
  | ind range ih =>
    have contiguous := (range_contiguous inside small within).take (min range reader.left)
    have ahead : (queue.elements.drop reader.offset).take (min range reader.left) =
        (reader.ahead queue).take range := by
      rw [StreamReader.ahead, take_take]
    rw [ahead] at contiguous
    rw [extract]
    by_cases none : range = 0
    · simp [none]
    · rw [dif_neg none]
      generalize taken : (queue.contiguousRange reader.offset).take (min range reader.left) = from_ at *
      dsimp only
      by_cases stuck : from_ = []
      · have nothing : reader.ahead queue = [] := by
          by_contra some
          refine contiguous.2 ?_ stuck
          rw [Ne, take_eq_nil_iff]
          exact fun gone => gone.elim none some
        rw [dif_pos stuck]
        simp [nothing, none]
      · have some : 0 < from_.length := length_pos_iff.mpr stuck
        have bound := contiguous.1.length_le
        rw [length_take] at bound
        have part : from_ = (reader.ahead queue).take from_.length := by
          have front := List.prefix_iff_eq_take.mp contiguous.1
          rw [take_take, Nat.min_eq_left (by omega)] at front
          exact front
        have length : (reader.ahead queue).length ≤ queue.elements.length - reader.offset := by
          rw [StreamReader.ahead, length_take, length_drop]
          omega
        have rest : StreamReader.ahead queue ({ reader with offset := reader.offset + from_.length }) =
            (reader.ahead queue).drop from_.length := by
          rw [StreamReader.ahead, StreamReader.ahead, left, left, drop_take, drop_drop]
          dsimp only
          congr 1
          omega
        have advanced : ({ reader with offset := reader.offset + from_.length } : StreamReader).offset ≤
            queue.elements.length := by
          dsimp only
          omega
        have next := ih (range - from_.length) (by omega) advanced
        rw [dif_neg stuck, next, rest, length_drop]
        refine Prod.ext ?_ (Prod.ext ?_ ?_)
        · simp only [StreamReader.mk.injEq, true_and]
          omega
        · have whole : from_.length + (range - from_.length) = range := by omega
          calc
            from_ ++ ((reader.ahead queue).drop from_.length).take (range - from_.length) =
                (reader.ahead queue).take from_.length ++
                  ((reader.ahead queue).drop from_.length).take (range - from_.length) := by rw [← part]
            _ = (reader.ahead queue).take range := by rw [← take_add, whole]
        · dsimp only
          rw [decide_eq_decide]
          omega

end StreamReader

/-! ### The queue is a list -/

/-- The stream reader is at its place in its window. -/
structure Sees (fifo : Fifo α) (window : Window) (reader : StreamReader) : Prop where
  offset : reader.offset = window.offset
  within : window.offset ≤ window.visible
  present : window.visible ≤ fifo.elements.length
  available : window.visible ≤ reader.available

structure Holds (state : State α) (fifo : Fifo α) : Prop where
  inside : state.queue.Inside
  capacity : fifo.capacity = state.queue.size - 1
  elements : state.queue.elements = fifo.elements
  window : ∀ window, fifo.window = some window →
    ∃ reader, state.reader = some reader ∧ Sees fifo window reader

theorem Fifo.seen_eq (fifo : Fifo α) (window : Window) :
    fifo.seen window = (fifo.elements.drop window.offset).take (window.visible - window.offset) :=
  drop_take

theorem Sees.length_seen {fifo : Fifo α} {window : Window} {reader : StreamReader}
    (sees : Sees fifo window reader) : (fifo.seen window).length = window.visible - window.offset := by
  have present := sees.present
  rw [Fifo.seen, length_drop, length_take]
  omega

namespace Holds

variable {state : State α} {fifo : Fifo α}

variable {window : Window} {reader : StreamReader} {amount : Nat}

theorem ahead_eq (holds : Holds state fifo) (sees : Sees fifo window reader) :
    reader.ahead state.queue =
      (fifo.elements.drop window.offset).take (reader.available - window.offset) := by
  rw [StreamReader.ahead, StreamReader.left, holds.elements, sees.offset]

theorem known (holds : Holds state fifo) (sees : Sees fifo window reader)
    (known : Known reader fifo window amount) :
    (reader.ahead state.queue).take amount = (fifo.seen window).take amount ∧
      min amount (reader.ahead state.queue).length = min amount (fifo.seen window).length ∧
      (amount ≤ (reader.ahead state.queue).length ↔ amount ≤ (fifo.seen window).length) := by
  have within := sees.within
  have present := sees.present
  have available := sees.available
  have length : (reader.ahead state.queue).length =
      min (reader.available - window.offset) (fifo.elements.length - window.offset) := by
    rw [holds.ahead_eq sees, length_take, length_drop]
  rw [length, sees.length_seen]
  refine ⟨?_, ?_, ?_⟩
  · rw [holds.ahead_eq sees, Fifo.seen_eq, take_take, take_take, take_eq_take_iff,
      length_drop]
    rcases known with same | same | less <;> omega
  · rcases known with same | same | less <;> omega
  · rcases known with same | same | less <;> omega

section

variable (holds : Holds state fifo)

include holds

theorem withQueue {queue : Queue α} {elements : List α} (inside : queue.Inside)
    (size : queue.size = state.queue.size) (same : queue.elements = elements)
    (longer : fifo.elements.length ≤ elements.length) :
    Holds { state with queue := queue } { fifo with elements := elements } where
  inside := inside
  capacity := by
    dsimp only
    rw [size, holds.capacity]
  elements := same
  window := by
    intro window open_
    have ⟨reader, given, sees⟩ := holds.window window open_
    exact ⟨reader, given, sees.offset, sees.within, Nat.le_trans sees.present longer, sees.available⟩

theorem withReader (sees : Sees fifo window reader) :
    Holds { state with reader := some reader } { fifo with window := some window } where
  inside := holds.inside
  capacity := holds.capacity
  elements := holds.elements
  window := by
    intro other open_
    rw [← Option.some.inj open_]
    exact ⟨reader, rfl, sees.offset, sees.within, sees.present, sees.available⟩

theorem move (sees : Sees fifo window reader) (less : amount ≤ (fifo.seen window).length) :
    Holds { state with reader := some { reader with offset := reader.offset + amount } }
      (fifo.move window amount) := by
  have within := sees.within
  rw [sees.length_seen] at less
  refine holds.withReader ⟨?_, ?_, sees.present, sees.available⟩
  · dsimp only
    rw [sees.offset]
  · dsimp only
    omega

theorem ofReader {P : StreamReader → Window → Prop} (meets : MeetsReader state fifo P) :
    ∃ window reader, fifo.window = some window ∧ state.reader = some reader ∧
      Sees fifo window reader ∧ P reader window ∧ reader.offset ≤ state.queue.elements.length ∧
      state.queue.elements.length < 2 ^ 32 := by
  obtain ⟨small, window, open_, condition⟩ := meets
  obtain ⟨reader, given, sees⟩ := holds.window window open_
  have less := Queue.count_lt holds.inside
  have within := sees.within
  have present := sees.present
  have elements := congrArg List.length holds.elements
  rw [← Queue.length_elements] at less
  refine ⟨window, reader, open_, given, sees, condition reader given, ?_, by omega⟩
  rw [sees.offset]
  omega

theorem length_lt : fifo.elements.length ≤ fifo.capacity := by
  have less := Queue.count_lt holds.inside
  rw [← Queue.length_elements, holds.elements] at less
  rw [holds.capacity]
  omega

theorem consume (within : amount ≤ fifo.elements.length) (small : amount < 2 ^ 32) :
    (state.queue.consume amount).Inside ∧
      (state.queue.consume amount).elements = fifo.elements.drop amount := by
  have dropped := Queue.elements_drop holds.inside (holds.elements ▸ within)
  rw [Queue.consume, Nat.mod_eq_of_lt small]
  exact ⟨dropped.2, by rw [dropped.1, holds.elements]⟩

theorem closed {queue : Queue α} {elements : List α} (inside : queue.Inside)
    (size : queue.size = state.queue.size) (same : queue.elements = elements) :
    Holds { state with queue := queue } { fifo with elements := elements, window := none } where
  inside := inside
  capacity := by
    dsimp only
    rw [size, holds.capacity]
  elements := same
  window := fun _ open_ => Bool.noConfusion (congrArg Option.isSome open_)

end

end Holds

variable {state : State α} {fifo : Fifo α} {action : Call α}

theorem step (holds : Holds state fifo) (fine : Legal state fifo action ∧ Meets state fifo action) :
    ∃ next answer fifo', call state action = some (next, answer) ∧ Allows fifo action answer fifo' ∧
      Holds next fifo' := by
  have ⟨legal, meets⟩ := fine
  have length : state.queue.elements.length = fifo.elements.length := by rw [holds.elements]
  cases action with
  | add element =>
    have room : state.queue.elements.length < state.queue.size - 1 := by
      rw [length, ← holds.capacity]
      exact legal
    have ⟨elements, inside⟩ := Queue.add_elements holds.inside room element
    have added : call state (.add element) =
        some ({ state with queue := state.queue.addFromInterruptUnchecked element }, .done) := by
      rw [call, Queue.addFromInterrupt_eq holds.inside room, map_some]
    refine ⟨_, _, _, added, ⟨rfl, rfl⟩, holds.withQueue inside ?_ ?_ ?_⟩
    · rw [Queue.addFromInterruptUnchecked, Queue.size_notify]
    · rw [elements, holds.elements]
    · rw [length_append]
      omega
  | addRange data =>
    have room : state.queue.elements.length < state.queue.size - 1 := by
      rw [length, ← holds.capacity]
      exact legal
    have ⟨next, done, elements, inside, size⟩ := Queue.addRange_elements holds.inside room
      data (by rw [length, holds.elements, ← holds.capacity]; exact meets)
    have added : call state (.addRange data) = some ({ state with queue := next }, .done) := by
      rw [call, done, map_some]
    rw [length, holds.elements, ← holds.capacity] at elements
    refine ⟨_, _, _, added, ⟨rfl, rfl⟩, ?_⟩
    split
    · next fits =>
        rw [if_pos fits] at elements
        exact holds.withQueue inside size elements (by rw [length_append]; omega)
    · next full =>
        rw [if_neg full] at elements
        exact holds.withQueue inside size elements (Nat.le_refl _)
  | get =>
    match elements : fifo.elements with
    | [] => exact absurd elements legal
    | first :: rest =>
      have ⟨next, done, left, inside, size⟩ := Queue.get_eq holds.inside
        (holds.elements.trans elements)
      have taken : call state .get = some ({ state with queue := next }, .element first) := by
        rw [call, done, map_some]
      exact ⟨_, _, _, taken, ⟨first, rest, elements, rfl, rfl⟩, holds.closed inside size left⟩
  | at_ position =>
    have within : position < fifo.elements.length := legal
    have found : call state (.at_ position) = some (state, .element fifo.elements[position]) := by
      rw [call, Queue.at_eq holds.inside (by omega), holds.elements,
        getElem?_eq_getElem within, map_some]
    exact ⟨_, _, _, found, ⟨_, getElem?_eq_getElem within, rfl, rfl⟩, holds⟩
  | contiguousRange offset =>
    have range := Queue.contiguousRange_contiguous holds.inside (length ▸ legal.1) legal.2
    rw [holds.elements] at range
    exact ⟨_, _, _, rfl, ⟨_, rfl, range, rfl⟩, holds⟩
  | consume amount =>
    have ⟨inside, elements⟩ := holds.consume legal.1 legal.2
    refine ⟨_, _, _, rfl, ⟨rfl, rfl⟩, ?_⟩
    split
    · next nothing =>
        refine holds.withQueue inside rfl elements ?_
        rw [nothing, drop_zero]
    · exact holds.closed inside rfl elements
  | length =>
    have number : call state .length = some (state, .number fifo.elements.length) := by
      rw [call, Queue.length_eq holds.inside, length]
    exact ⟨_, _, _, number, ⟨rfl, rfl⟩, holds⟩
  | empty =>
    have flag : call state .empty = some (state, .flag (decide (fifo.elements.length = 0))) := by
      rw [call, Queue.empty_eq holds.inside, length]
    exact ⟨_, _, _, flag, ⟨rfl, rfl⟩, holds⟩
  | full =>
    have flag : call state .full =
        some (state, .flag (decide (fifo.elements.length = fifo.capacity))) := by
      rw [call, Queue.full_eq holds.inside, length, holds.capacity]
    exact ⟨_, _, _, flag, ⟨rfl, rfl⟩, holds⟩
  | emptySize =>
    have number : call state .emptySize = some (state, .number fifo.capacity) := by
      rw [call, Queue.emptySize, holds.capacity]
    exact ⟨_, _, _, number, ⟨rfl, rfl⟩, holds⟩
  | dataAvailable =>
    have inside : state.queue.dataAvailable.Inside := ⟨holds.inside.begin_, holds.inside.end_⟩
    exact ⟨_, _, _, rfl, ⟨rfl, rfl⟩, holds.withQueue inside rfl holds.elements (Nat.le_refl _)⟩
  | openReader =>
    have sees : Sees fifo ⟨fifo.elements.length, 0⟩ (.construct state.queue) := by
      refine ⟨rfl, Nat.zero_le _, Nat.le_refl _, ?_⟩
      rw [StreamReader.construct, Queue.length_eq holds.inside, length]
    exact ⟨_, _, _, rfl, ⟨rfl, rfl⟩, holds.withReader sees⟩
  | commit =>
    have ⟨window, reader, open_, given, sees, _, within, small⟩ := holds.ofReader meets
    have ⟨inside, elements⟩ := holds.consume (length ▸ within) (by omega)
    have committed : call state .commit =
        some (⟨state.queue.consume reader.offset, some reader.commit⟩, .done) := by
      rw [call, given, map_some]
    refine ⟨_, _, _, committed, ⟨window, open_, rfl, rfl⟩, inside, ?_, ?_, ?_⟩
    · exact holds.capacity
    · rw [elements, sees.offset]
    · intro next same
      rw [← Option.some.inj same]
      refine ⟨_, rfl, rfl, Nat.zero_le _, ?_, ?_⟩
      · dsimp only
        rw [length_drop]
        exact Nat.sub_le_sub_right sees.present _
      · exact Nat.le_trans (Nat.sub_le _ _) sees.available
  | extract range =>
    have ⟨window, reader, open_, given, sees, known, within, small⟩ := holds.ofReader meets
    have ⟨data, moved, enough⟩ := holds.known sees known
    have extracted := reader.extract_eq holds.inside meets.1 range within
    have result : call state (.extract range) = some (
        { state with reader := some { reader with
            offset := reader.offset + min range (fifo.seen window).length } },
        .extracted ((fifo.seen window).take range) (decide (range ≤ (fifo.seen window).length))) := by
      rw [call, given, map_some, extracted, data, moved]
      simp only [enough]
    exact ⟨_, _, _, result, ⟨window, open_, rfl, rfl⟩, holds.move sees (Nat.min_le_right _ _)⟩
  | peek =>
    have ⟨window, reader, open_, given, sees, known, within, small⟩ := holds.ofReader meets
    have ⟨data, _, _⟩ := holds.known sees known
    have range := (StreamReader.range_contiguous holds.inside meets.1 within).take reader.left
    have first : reader.peek state.queue = (fifo.seen window).head? := by
      have heads := congrArg List.head? data
      rw [head?_take, head?_take, if_neg Nat.one_ne_zero, if_neg Nat.one_ne_zero] at heads
      rw [StreamReader.peek, range.head?, ← heads]
      rfl
    have result : call state .peek = some (state, .peeked (fifo.seen window).head?) := by
      rw [call, given, map_some, first]
    exact ⟨_, _, _, result, ⟨window, open_, rfl, rfl⟩, holds⟩
  | extractContiguousRange max =>
    have ⟨window, reader, open_, given, sees, known, within, small⟩ := holds.ofReader meets
    have ⟨data, _, _⟩ := holds.known sees known
    have range := (StreamReader.range_contiguous holds.inside meets.1 within).take
      (min max reader.left)
    have ahead : (state.queue.elements.drop reader.offset).take (min max reader.left) =
        (fifo.seen window).take max := by
      rw [← data, StreamReader.ahead, take_take]
    rw [ahead] at range
    have result : call state (.extractContiguousRange max) = some (
        { state with reader := some (reader.extractContiguousRange state.queue max).1 },
        .range ((state.queue.contiguousRange reader.offset).take (min max reader.left))) := by
      rw [call, given, map_some]
      rfl
    exact ⟨_, _, _, result, ⟨window, _, open_, rfl, range, rfl⟩,
      holds.move sees (Nat.le_trans range.1.length_le (length_take_le' _ _))⟩
  | peekContiguousRange start =>
    have ⟨window, reader, open_, given, sees, known, within, small⟩ := holds.ofReader meets
    have ⟨inWindow, only⟩ := known
    have offset := sees.offset
    have present := sees.present
    have available := sees.available
    have place : reader.offset + start ≤ state.queue.elements.length := by omega
    have range := (Queue.contiguousRange_contiguous holds.inside place (by omega)).take reader.left
    have seen : (state.queue.elements.drop (reader.offset + start)).take reader.left =
        (fifo.seen window).drop start := by
      rw [holds.elements, Fifo.seen_eq, StreamReader.left, offset, drop_take, drop_drop,
        take_eq_take_iff, length_drop]
      rcases only with same | ⟨none, same⟩ <;> omega
    rw [seen] at range
    have result : call state (.peekContiguousRange start) =
        some (state, .range (reader.peekContiguousRange state.queue start)) := by
      rw [call, given, map_some]
    exact ⟨_, _, _, result, ⟨window, _, open_, rfl, range, rfl⟩, holds⟩
  | readerEmpty =>
    have ⟨window, reader, open_, given, sees, known, _, _⟩ := holds.ofReader meets
    have left : reader.left = (fifo.seen window).length := by
      rw [sees.length_seen, StreamReader.left, known, sees.offset]
    have result : call state .readerEmpty =
        some (state, .flag (decide ((fifo.seen window).length = 0))) := by
      rw [call, given, map_some, left]
    exact ⟨_, _, _, result, ⟨window, open_, rfl, rfl⟩, holds⟩
  | available =>
    have ⟨window, reader, open_, given, sees, known, _, _⟩ := holds.ofReader meets
    have left : reader.left = (fifo.seen window).length := by
      rw [sees.length_seen, StreamReader.left, known, sees.offset]
    have result : call state .available = some (state, .number (fifo.seen window).length) := by
      rw [call, given, map_some, left]
    exact ⟨_, _, _, result, ⟨window, open_, rfl, rfl⟩, holds⟩
  | constructSaveMarker =>
    have ⟨window, reader, open_, given, sees, _, _, _⟩ := holds.ofReader meets
    have result : call state .constructSaveMarker = some (state, .number window.offset) := by
      rw [call, given, map_some, sees.offset]
    exact ⟨_, _, _, result, ⟨window, open_, rfl, rfl⟩, holds⟩
  | rewind marker =>
    have ⟨window, reader, open_, given, sees, _, _, _⟩ := holds.ofReader meets
    have ⟨other, same, before⟩ := legal
    rw [open_, Option.some.injEq] at same
    have back : Sees fifo { window with offset := marker } (reader.rewind marker) := by
      refine ⟨rfl, ?_, sees.present, sees.available⟩
      exact Nat.le_trans (same ▸ before) sees.within
    have result : call state (.rewind marker) =
        some ({ state with reader := some (reader.rewind marker) }, .done) := by
      rw [call, given, map_some]
    exact ⟨_, _, _, result, ⟨window, open_, rfl, rfl⟩, holds.withReader back⟩

/-- The list has room for one element less than the buffer, and the queue knows its length. -/
def Shows (state : State α) (fifo : Fifo α) : Prop :=
  fifo.capacity = state.queue.size - 1 ∧ fifo.elements.length ≤ fifo.capacity ∧
    state.queue.length = fifo.elements.length

/-- While the calls meet the condition, the queue is a list of the elements that were added and not
taken yet. -/
theorem is_fifo {size : Nat} (some : 0 < size) (memory : Nat → α) (calls : List (Call α)) :
    Lockstep.Follows call (fun state fifo action => Legal state fifo action ∧ Meets state fifo action)
      Allows Shows ⟨construct size memory, none⟩ ⟨size - 1, [], none⟩ calls := by
  have holds : Holds ⟨construct size memory, none⟩ ⟨size - 1, [], none⟩ :=
    ⟨⟨some, some⟩, rfl, rfl, fun _ open_ => Bool.noConfusion (congrArg Option.isSome open_)⟩
  apply Lockstep.follows_of_step (R := Holds) ?shows ?step holds calls
  case shows =>
    intro state fifo holds
    refine ⟨holds.capacity, holds.length_lt, ?_⟩
    rw [Queue.length_eq holds.inside, holds.elements]
  case step => exact step

theorem is_fifo_three :
    Lockstep.Follows call (fun state fifo action => Legal state fifo action ∧ Meets state fifo action)
      Allows Shows ⟨construct 3 fun _ => 0, none⟩ ⟨3 - 1, [], none⟩
      [.add 1, .get, .addRange [2, 3], .openReader, .extract 2, .commit] :=
  is_fifo (by decide) (fun _ => 0) _

/-- A range that fills the buffer up makes the queue empty, and what was committed is still
available to the stream reader. -/
theorem not_is_fifo :
    (¬Lockstep.Follows call Legal Allows Shows ⟨construct 3 fun _ => 0, none⟩ ⟨3 - 1, [], none⟩
        [.add 1, .addRange [2, 3]]) ∧
      ¬Lockstep.Follows call Legal Allows Shows ⟨construct 3 fun _ => 0, none⟩ ⟨3 - 1, [], none⟩
        [.add 1, .openReader, .extractContiguousRange 1, .commit, .available] := by
  constructor
  · intro ⟨_, follows⟩
    have ⟨next, answer, fifo, called, allowed, _, followsRange⟩ := follows (show 0 < 2 by decide)
    have moved := (Prod.mk.inj (Option.some.inj called)).1
    have added := allowed.2
    subst moved added
    have ⟨last, done, left, calledRange, allowedRange, shows_⟩ := followsRange (show 1 < 2 by decide)
    have moved := (Prod.mk.inj (Option.some.inj calledRange)).1
    have kept := allowedRange.2
    subst moved kept
    exact absurd shows_.2.2 (by decide)
  · intro ⟨_, follows⟩
    have ⟨next, answer, fifo, called, allowed, _, followsOpen⟩ := follows (show 0 < 2 by decide)
    have moved := (Prod.mk.inj (Option.some.inj called)).1
    have added := allowed.2
    subst moved added
    have ⟨opened, _, seen, calledOpen, allowedOpen, _, followsExtract⟩ := followsOpen trivial
    have moved := (Prod.mk.inj (Option.some.inj calledOpen)).1
    have window := allowedOpen.2
    subst moved window
    have ⟨extracted, given, moving, calledExtract, allowedExtract, _, followsCommit⟩ :=
      followsExtract (fun none => Bool.noConfusion (congrArg Option.isSome none))
    have ⟨moved, shown⟩ := Prod.mk.inj (Option.some.inj calledExtract)
    have ⟨view, range, same, told, _, advanced⟩ := allowedExtract
    have sameView := Option.some.inj same
    have sameRange := Answer.range.inj (shown.trans told)
    subst moved sameView sameRange advanced
    have ⟨committed, _, left, calledCommit, allowedCommit, _, followsAvailable⟩ :=
      followsCommit (fun none => Bool.noConfusion (congrArg Option.isSome none))
    have moved := (Prod.mk.inj (Option.some.inj calledCommit)).1
    have ⟨view, same, _, dropped⟩ := allowedCommit
    have sameView := Option.some.inj same
    subst moved sameView dropped
    have ⟨_, number, _, calledAvailable, allowedAvailable, _⟩ :=
      followsAvailable (fun none => Bool.noConfusion (congrArg Option.isSome none))
    have answered := (Prod.mk.inj (Option.some.inj calledAvailable)).2
    have ⟨view, same, told, _⟩ := allowedAvailable
    have sameView := Option.some.inj same
    subst sameView
    exact absurd (Answer.number.inj (answered.trans told)) (by decide)

end IrqQueues
