import Mathlib.Order.MinMax
import Mathlib.Algebra.Group.Nat.Defs

/-! The streams that `ProtoFormatter` writes to and that `ProtoParser` reads from: a block of
memory, and limits to what may be read of a stream. -/

namespace Proto

open List

abbrev Bytes := List UInt8

/-- A writer at `offset` in a range of memory; `failed` says whether a failure has been
reported to the error policy of the stream. -/
structure ByteOutputStreamWriter where
  streamRange : Bytes
  offset : Nat := 0
  failed : Bool := false

namespace ByteOutputStreamWriter

variable (writer : ByteOutputStreamWriter)

def Processed : Bytes := writer.streamRange.take writer.offset

def Available : Nat := writer.streamRange.length - writer.offset

/-- `std::copy` of this data to a position in the range. -/
def copy (position : Nat) (data : Bytes) : Bytes :=
  writer.streamRange.take position ++ data ++ writer.streamRange.drop (position + data.length)

def Insert (dataRange : Bytes) : ByteOutputStreamWriter :=
  let data := dataRange.take writer.Available
  { streamRange := writer.copy writer.offset data
    offset := writer.offset + data.length
    failed := writer.failed || writer.Available < dataRange.length }

def ConstructSaveMarker : Nat := writer.offset

def GetProcessedBytesSince (marker : Nat) : Nat := writer.offset - marker

/-- The bytes since the marker are copied to the end of the range; what is before them is
for the writer of the saved stream. -/
def SaveState (marker : Nat) : ByteOutputStreamWriter × ByteOutputStreamWriter :=
  let moved := (writer.streamRange.drop marker).take (writer.GetProcessedBytesSince marker)
  let rangeEnd := writer.streamRange.length - moved.length
  let streamRange := writer.copy rangeEnd moved
  ({ writer with streamRange },
    { streamRange := (streamRange.take rangeEnd).drop marker })

/-- The bytes at the end of the range are copied back to after what the saved stream has
written; a failure of the saved stream fails the assertion of its own error policy. -/
def RestoreState (marker : Nat) (saved : ByteOutputStreamWriter) : ByteOutputStreamWriter :=
  let written := { writer with streamRange := writer.copy marker saved.streamRange }
  let rangeBegin := marker + saved.offset
  let moved := written.streamRange.drop (marker + saved.streamRange.length)
  { streamRange := written.copy rangeBegin moved
    offset := rangeBegin + moved.length
    failed := writer.failed || saved.failed }

end ByteOutputStreamWriter

/-- A stream of bytes behind any number of `LimitedStreamReader`s, the innermost first. -/
structure StreamReader where
  input : Bytes
  limits : List Nat := []
  failed : Bool := false

namespace StreamReader

variable (reader : StreamReader)

def Empty : Bool := reader.limits.any (· == 0) || reader.input.isEmpty

/-- `LimitedStreamReader::Available` takes a minimum of 32 bits of what its input has. -/
def availableOf : List Nat → Nat → Nat
  | [], input => input
  | length :: limits, input => min length (availableOf limits input % 2 ^ 32)

def Available : Nat := availableOf reader.limits reader.input.length

def shrunk : List Nat → Nat → Nat
  | [], size => size
  | length :: limits, size => shrunk limits (min size length)

def countDown : List Nat → Nat → List Nat
  | [], _ => []
  | length :: limits, size => (length - min size length) :: countDown limits (min size length)

/-- `Extract` of a range of this size: the bytes that are copied to its begin. -/
def Extract (size : Nat) : Bytes × StreamReader :=
  let fits := reader.limits.all (size ≤ ·) && size ≤ reader.input.length
  let data := reader.input.take (shrunk reader.limits size)
  (data, { input := reader.input.drop data.length
           limits := countDown reader.limits size
           failed := reader.failed || !fits })

def ReportResult (ok : Bool) : StreamReader := { reader with failed := reader.failed || !ok }

/-- A `LimitedStreamReader` on this stream; its length has 32 bits. -/
def limited (length : Nat) : StreamReader := { reader with limits := length % 2 ^ 32 :: reader.limits }

def leave : StreamReader := { reader with limits := reader.limits.tail }

end StreamReader

namespace ByteOutputStreamWriter

/-- From one writer to the next these bytes were written, in the same range. -/
structure Wrote (writer : ByteOutputStreamWriter) (data : Bytes) (next : ByteOutputStreamWriter) : Prop where
  processed : next.Processed = writer.Processed ++ data
  offset : next.offset = writer.offset + data.length
  length : next.streamRange.length = writer.streamRange.length
  failed : next.failed = writer.failed

/-- This many bytes fit behind the writer, in a range that an address of 64 bits reaches. -/
structure Room (writer : ByteOutputStreamWriter) (size : Nat) : Prop where
  inside : writer.offset + size ≤ writer.streamRange.length
  memory : writer.streamRange.length < 2 ^ 64

variable {writer next last : ByteOutputStreamWriter} {data more : Bytes}

theorem Wrote.nil (writer : ByteOutputStreamWriter) : writer.Wrote [] writer :=
  ⟨by simp, by simp, rfl, rfl⟩

theorem Wrote.trans (first : writer.Wrote data next) (second : next.Wrote more last) :
    writer.Wrote (data ++ more) last where
  processed := by rw [second.processed, first.processed, append_assoc]
  offset := by rw [second.offset, first.offset, length_append, Nat.add_assoc]
  length := second.length.trans first.length
  failed := second.failed.trans first.failed

variable {size : Nat} {contents : Bytes}

theorem Wrote.room (wrote : writer.Wrote data next) (room : writer.Room (data.length + size)) :
    next.Room size := by
  have inside := room.inside
  refine ⟨?_, wrote.length ▸ room.memory⟩
  rw [wrote.offset, wrote.length]
  omega

theorem Room.left {rest : Nat} (room : writer.Room (size + rest)) : writer.Room size :=
  ⟨by have := room.inside; omega, room.memory⟩

theorem copy_append {front replaced rest : Bytes} {position : Nat} (before : front.length = position)
    (same : replaced.length = data.length)
    (range : writer.streamRange = front ++ (replaced ++ rest)) :
    writer.copy position data = front ++ (data ++ rest) := by
  rw [copy, range, ← before, take_left, append_assoc, ← same, ← drop_drop, drop_left,
    drop_left]

theorem range_split (room : writer.Room data.length) : ∃ replaced rest,
    writer.streamRange = writer.Processed ++ (replaced ++ rest) ∧ replaced.length = data.length ∧
      writer.Processed.length = writer.offset := by
  have inside := room.inside
  refine ⟨(writer.streamRange.drop writer.offset).take data.length,
    (writer.streamRange.drop writer.offset).drop data.length, ?_, ?_, ?_⟩
  · rw [take_append_drop, Processed, take_append_drop]
  · rw [length_take, length_drop]
    omega
  · rw [Processed, length_take]
    omega

theorem insert_wrote (room : writer.Room data.length) : writer.Wrote data (writer.Insert data) := by
  have inside := room.inside
  obtain ⟨replaced, rest, range, same, before⟩ := range_split room
  have whole : data.take writer.Available = data :=
    take_of_length_le (by simp only [Available]; omega)
  have inserted : writer.Insert data =
      { streamRange := writer.Processed ++ (data ++ rest), offset := writer.offset + data.length
        failed := writer.failed } := by
    have fits : decide (writer.Available < data.length) = false :=
      decide_eq_false (by simp only [Available]; omega)
    simp only [Insert, whole, fits, Bool.or_false, copy_append before same range]
  rw [inserted]
  refine ⟨?_, rfl, ?_, rfl⟩
  · rw [← before, ← length_append, Processed, ← append_assoc, take_left]
  · simp only [range, length_append, same]

theorem saveState_split (wrote : writer.Wrote contents next)
    (room : writer.Room (size + contents.length)) : ∃ free,
      (next.SaveState writer.offset).1 =
        { next with streamRange := writer.Processed ++ (free ++ contents) } ∧
      (next.SaveState writer.offset).2 = { streamRange := free } ∧
      free.length = writer.streamRange.length - writer.offset - contents.length ∧
      writer.Processed.length = writer.offset := by
  have inside := room.inside
  have before : writer.Processed.length = writer.offset := by
    rw [Processed, length_take]
    omega
  have range : next.streamRange =
      writer.Processed ++ (contents ++ next.streamRange.drop next.offset) := by
    rw [← append_assoc, ← wrote.processed, Processed, take_append_drop]
  generalize next.streamRange.drop next.offset = rest at range
  have total : writer.streamRange.length = writer.offset + (contents.length + rest.length) := by
    rw [← wrote.length, range, length_append, length_append, before]
  have since : next.GetProcessedBytesSince writer.offset = contents.length := by
    rw [GetProcessedBytesSince, wrote.offset, Nat.add_sub_cancel_left]
  have moved : (next.streamRange.drop writer.offset).take contents.length = contents := by
    rw [range, ← before, drop_left, take_left]
  -- the part that stays where it is, and the part that the contents are copied to
  have ends : next.streamRange =
      (writer.Processed ++ (contents ++ rest).take rest.length) ++
        ((contents ++ rest).drop rest.length ++ []) := by
    rw [append_nil, append_assoc, take_append_drop, range]
  have rangeEnd : (writer.Processed ++ (contents ++ rest).take rest.length).length =
      next.streamRange.length - contents.length := by
    rw [wrote.length, length_append, length_take, length_append, before]
    omega
  have copied : next.copy (next.streamRange.length - contents.length) contents =
      writer.Processed ++ ((contents ++ rest).take rest.length ++ contents) := by
    rw [copy_append rangeEnd (by simp) ends, append_nil, append_assoc]
  refine ⟨(contents ++ rest).take rest.length, ?_, ?_, ?_, before⟩
  · simp only [SaveState, since, moved, copied]
  · simp only [SaveState, since, moved, copied]
    rw [← rangeEnd, ← append_assoc, take_left, ← before, drop_left]
  · rw [length_take, length_append]
    omega

theorem saved_room (wrote : writer.Wrote contents next)
    (room : writer.Room (size + contents.length)) : (next.SaveState writer.offset).2.Room size := by
  have inside := room.inside
  obtain ⟨free, -, saved, length, -⟩ := saveState_split wrote room
  have memory := room.memory
  rw [saved]
  constructor <;> dsimp only <;> omega

theorem saved_wrote {front : Bytes} {saved : ByteOutputStreamWriter}
    (wrote : writer.Wrote contents next) (room : writer.Room (front.length + contents.length))
    (inserted : (next.SaveState writer.offset).2.Wrote front saved) :
    writer.Wrote (front ++ contents)
      ((next.SaveState writer.offset).1.RestoreState writer.offset saved) := by
  obtain ⟨free, first, second, length, before⟩ := saveState_split wrote room
  rw [second] at inserted
  have savedOffset : saved.offset = front.length := by simpa using inserted.offset
  have savedRange : saved.streamRange = front ++ saved.streamRange.drop saved.offset := by
    have processed : saved.streamRange.take saved.offset = front := by
      simpa [Processed] using inserted.processed
    rw [← processed, take_append_drop]
  have sameLength : free.length = saved.streamRange.length := inserted.length.symm
  generalize saved.streamRange.drop saved.offset = left at savedRange
  have written : (next.SaveState writer.offset).1.copy writer.offset saved.streamRange =
      writer.Processed ++ (saved.streamRange ++ contents) :=
    copy_append before sameLength (by rw [first])
  have moved : (writer.Processed ++ (saved.streamRange ++ contents)).drop
      (writer.offset + saved.streamRange.length) = contents := by
    rw [← before, ← drop_drop, drop_left, drop_left]
  have ends : writer.Processed ++ (saved.streamRange ++ contents) = (writer.Processed ++ front) ++
      ((left ++ contents).take contents.length ++ (left ++ contents).drop contents.length) := by
    rw [take_append_drop, savedRange]
    simp only [append_assoc]
  have rangeBegin : (writer.Processed ++ front).length = writer.offset + saved.offset := by
    rw [length_append, before, savedOffset]
  have restored : (next.SaveState writer.offset).1.RestoreState writer.offset saved =
      { streamRange := (writer.Processed ++ front) ++
          (contents ++ (left ++ contents).drop contents.length)
        offset := writer.offset + front.length + contents.length
        failed := writer.failed } := by
    have unfailed : (next.SaveState writer.offset).1.failed = writer.failed := by
      rw [first]
      exact wrote.failed
    have savedUnfailed : saved.failed = false := inserted.failed
    simp only [RestoreState, written, moved, unfailed, savedUnfailed, Bool.or_false]
    rw [copy_append rangeBegin (by simp) ends, savedOffset]
  have total : (left ++ contents).length + (writer.Processed ++ front).length =
      writer.streamRange.length := by
    have inside := room.inside
    have parts := congrArg List.length savedRange
    rw [length_append] at parts ⊢
    omega
  rw [restored]
  refine ⟨?_, ?_, ?_, rfl⟩
  · have here : (writer.Processed ++ front ++ contents).length =
        writer.offset + front.length + contents.length := by
      rw [length_append, length_append, before]
    rw [Processed, ← append_assoc, ← here, take_left, append_assoc]
  · simp only [length_append]
    omega
  · simp only [length_append, length_drop] at total ⊢
    omega

end ByteOutputStreamWriter

namespace StreamReader

def advance (reader : StreamReader) (count : Nat) : StreamReader :=
  { reader with input := reader.input.drop count, limits := reader.limits.map (· - count) }

theorem availableOf_le (limits : List Nat) (input : Nat) :
    availableOf limits input ≤ input ∧ ∀ length ∈ limits, availableOf limits input ≤ length := by
  induction limits with
  | nil => simp [availableOf]
  | cons length limits ih =>
    have least := Nat.mod_le (availableOf limits input) (2 ^ 32)
    have minimum := min_le_left length (availableOf limits input % 2 ^ 32)
    have rest := (min_le_right length (availableOf limits input % 2 ^ 32)).trans least
    simp only [availableOf, forall_mem_cons]
    exact ⟨rest.trans ih.1, minimum, fun other member => rest.trans (ih.2 other member)⟩

theorem availableOf_sub (limits : List Nat) (input count : Nat)
    (fits : count ≤ availableOf limits input) :
    availableOf (limits.map (· - count)) (input - count) = availableOf limits input - count := by
  induction limits with
  | nil => rfl
  | cons length limits ih =>
    simp only [availableOf] at fits ⊢
    have below := (le_min_iff.mp fits).2.trans (Nat.mod_le _ _)
    rw [map_cons, availableOf, ih below]
    have same : (availableOf limits input - count) % 2 ^ 32 =
        availableOf limits input % 2 ^ 32 - count := by omega
    rw [same]
    omega

variable {reader : StreamReader} {count : Nat}

theorem available_advance (fits : count ≤ reader.Available) :
    (reader.advance count).Available = reader.Available - count := by
  simp only [Available, advance, length_drop]
  exact availableOf_sub _ _ _ fits

theorem available_le (reader : StreamReader) :
    reader.Available ≤ reader.input.length ∧ ∀ length ∈ reader.limits, reader.Available ≤ length :=
  availableOf_le _ _

variable {size : Nat}

theorem shrunk_of_le (limits : List Nat) (fits : ∀ length ∈ limits, size ≤ length) :
    shrunk limits size = size ∧ countDown limits size = limits.map (· - size) := by
  induction limits with
  | nil => exact ⟨rfl, rfl⟩
  | cons length limits ih =>
    rw [forall_mem_cons] at fits
    obtain ⟨same, counted⟩ := ih fits.2
    simp only [shrunk, countDown, min_eq_left fits.1, same, counted, map_cons, and_self]

theorem extract_available (fits : size ≤ reader.Available) :
    reader.Extract size = (reader.input.take size, reader.advance size) := by
  obtain ⟨inside, below⟩ := available_le reader
  obtain ⟨same, counted⟩ := shrunk_of_le reader.limits fun length member => fits.trans (below length member)
  have whole : (reader.input.take size).length = size := length_take_of_le (fits.trans inside)
  have all : reader.limits.all (size ≤ ·) = true := by
    simpa using fun length member => fits.trans (below length member)
  simp only [Extract, same, counted, whole, all, advance]
  simp [fits.trans inside]

theorem extract_short {length : Nat} {limits : List Nat}
    (limited : reader.limits = length :: limits) (short : length < size) :
    (reader.Extract size).2.failed = true := by
  simp [Extract, limited, short]

theorem extract_failed (failed : reader.failed = true) : (reader.Extract size).2.failed = true := by
  simp [Extract, failed]

theorem not_empty (left : 0 < reader.Available) : reader.Empty = false := by
  obtain ⟨inside, below⟩ := available_le reader
  have some : reader.input ≠ [] := ne_nil_of_length_pos (left.trans_le inside)
  simp only [Empty, Bool.or_eq_false_iff, any_eq_false, isEmpty_eq_false_iff]
  refine ⟨fun length member => ?_, some⟩
  have positive := left.trans_le (below length member)
  simp only [beq_iff_eq]
  omega

end StreamReader

end Proto
