import Mathlib.Data.List.Chain
import Mathlib.Algebra.Group.Nat.Defs

/-! `FlashAlign`: a buffer at an address, in chunks of whole units. -/

namespace FlashAlignment

open List

abbrev Bytes := List UInt8

structure Chunk where
  alignedAddress : Nat
  data : Bytes
  deriving DecidableEq

variable (size : Nat)

/-- `std::array<uint8_t, Size>` -/
abbrev Storage := { bytes : Bytes // bytes.length = size }

/-- `std::fill` with 0xff -/
def Storage.filled : Storage size := ⟨List.replicate size 0xff, length_replicate⟩

/-- `std::copy` to a position in the storage. -/
def Storage.copy {size : Nat} (storage : Storage size) (position : Nat) (bytes : Bytes) :
    Option (Storage size) :=
  if fits : position + bytes.length ≤ size then
    some ⟨storage.val.take position ++ bytes ++ storage.val.drop (position + bytes.length), by
      have length := storage.property
      simp only [length_append, length_take, length_drop]
      omega⟩
  else none

/-- `FlashAlign::WithAlignment<size>` -/
structure FlashAlign (size : Nat) where
  firstChunk : Storage size
  lastChunk : Storage size
  alignedAddress : Nat
  chunks : List Chunk

/-- The member `align`: the constructor makes it the size of `firstChunk` as a `uint8_t`. -/
def alignByte : Nat := size % 2 ^ 8

section

variable {size : Nat}

variable (state : FlashAlign size)

def alignFirst (address : Nat) (buffer : Bytes) : Option (FlashAlign size × Nat × Bytes) :=
  -- a division by zero is undefined
  if alignByte size = 0 then none
  else
    let nrPrependBytes := address % alignByte size
    let alignedAddress := address - nrPrependBytes
    if nrPrependBytes = 0 then
      some ({ state with alignedAddress := alignedAddress }, alignedAddress, buffer)
    else
      let bytesToAdd := min (alignByte size - nrPrependBytes) buffer.length % 2 ^ 8
      match (Storage.filled size).copy nrPrependBytes (buffer.take bytesToAdd) with
      | none => none
      | some firstChunk =>
        some ({ state with
                alignedAddress := alignedAddress
                firstChunk := firstChunk
                chunks := state.chunks ++ [⟨alignedAddress, firstChunk.val⟩] },
          (alignedAddress + alignByte size) % 2 ^ 32, buffer.drop bytesToAdd)

def alignFullWords (address : Nat) (buffer : Bytes) : FlashAlign size × Nat × Bytes :=
  let remainingAlignedWords := buffer.length / alignByte size % 2 ^ 32
  if remainingAlignedWords = 0 then (state, address, buffer)
  else
    let data := buffer.take (remainingAlignedWords * alignByte size % 2 ^ 32)
    ({ state with chunks := state.chunks ++ [⟨address, data⟩] },
      (address + data.length) % 2 ^ 32, buffer.drop data.length)

def alignLast (address : Nat) (buffer : Bytes) : Option (FlashAlign size) :=
  if buffer = [] then some state
  else
    match (Storage.filled size).copy 0 buffer with
    | none => none
    | some lastChunk =>
      some { state with
             lastChunk := lastChunk
             chunks := state.chunks ++ [⟨address, lastChunk.val⟩] }

def FlashAlign.align (address : Nat) (buffer : Bytes) : Option (FlashAlign size) :=
  let state := { state with chunks := [], alignedAddress := 0 }
  if buffer = [] then some state
  else
    match alignFirst state address buffer with
    | none => none
    | some (state, newAddress, buffer) =>
      let (state, newAddress, buffer) := alignFullWords state newAddress buffer
      alignLast state newAddress buffer

def FlashAlign.first : Option Chunk := state.chunks.head?

def FlashAlign.next : FlashAlign size × Option Chunk :=
  let state := { state with chunks := state.chunks.tail }
  (state, state.first)

/-- What `Next` answers until it answers nothing. -/
def FlashAlign.nexts : Nat → FlashAlign size → List Chunk
  | 0, _ => []
  | calls + 1, state =>
    match state.next with
    | (_, none) => []
    | (state, some chunk) => chunk :: state.nexts calls

/-- The chunks that `First` and then `Next` answer. -/
def FlashAlign.yielded : List Chunk :=
  match state.first with
  | none => []
  | some chunk => chunk :: state.nexts state.chunks.length

end

/-- The chunks are whole units behind each other, and they hold the buffer at its address. -/
structure Covers (size address : Nat) (buffer : Bytes) (chunks : List Chunk) : Prop where
  units : ∀ chunk ∈ chunks,
    size ∣ chunk.alignedAddress ∧ size ∣ chunk.data.length ∧ chunk.data ≠ []
  adjacent : chunks.IsChain fun chunk next =>
    next.alignedAddress = chunk.alignedAddress + chunk.data.length
  placed : if buffer = [] then chunks = []
    else ∃ before after, before < size ∧ after < size ∧ before ≤ address ∧
      chunks.flatMap Chunk.data =
        List.replicate before 0xff ++ buffer ++ List.replicate after 0xff ∧
      chunks.head?.map Chunk.alignedAddress = some (address - before)

section

variable {size : Nat}

variable (state : FlashAlign size)

theorem FlashAlign.nexts_eq {calls : Nat} (enough : state.chunks.length ≤ calls + 1) :
    state.nexts calls = state.chunks.tail := by
  induction calls generalizing state with
  | zero =>
    match chunks : state.chunks with
    | [] | [_] => rfl
    | _ :: _ :: _ =>
      rw [chunks] at enough
      simp only [length_cons] at enough
      omega
  | succ calls ih =>
    match chunks : state.chunks with
    | [] | [_] => simp [nexts, next, first, chunks]
    | _ :: second :: rest =>
      have shorter : (state.next.1).chunks.length ≤ calls + 1 := by
        rw [chunks] at enough
        simpa [next, chunks] using enough
      have answered : state.next = (state.next.1, some second) := by
        simp [next, first, chunks]
      calc
        state.nexts (calls + 1) = second :: state.next.1.nexts calls := by rw [nexts, answered]
        _ = second :: (state.next.1).chunks.tail := by rw [ih _ shorter]
        _ = second :: rest := by simp [next, chunks]

theorem FlashAlign.yielded_eq : state.yielded = state.chunks := by
  match chunks : state.chunks with
  | [] => simp [yielded, first, chunks]
  | chunk :: rest =>
    have first : state.first = some chunk := by simp [first, chunks]
    calc
      state.yielded = chunk :: state.nexts state.chunks.length := by rw [yielded, first]
      _ = chunk :: state.chunks.tail := by rw [state.nexts_eq (Nat.le_succ _)]
      _ = chunk :: rest := by rw [chunks, tail_cons]

/-- What follows the first chunk, or all of it where the address is aligned. -/
def others (size address : Nat) (buffer : Bytes) : List Chunk :=
  let words := buffer.length / alignByte size * alignByte size
  (if words = 0 then [] else [⟨address, buffer.take words⟩]) ++
    if buffer.drop words = [] then []
    else [⟨address + words, buffer.drop words ++
      List.replicate (size - (buffer.drop words).length) 0xff⟩]

theorem rest_lt (buffer : Bytes) (divides : alignByte size ≠ 0) :
    buffer.length - buffer.length / alignByte size * alignByte size < alignByte size := by
  have parts := Nat.div_add_mod' buffer.length (alignByte size)
  have remainder := Nat.mod_lt buffer.length (Nat.pos_of_ne_zero divides)
  omega

theorem copy_filled {position : Nat} {bytes : Bytes} (fits : position + bytes.length ≤ size) :
    ∃ storage, (Storage.filled size).copy position bytes = some storage ∧
      storage.val = List.replicate position 0xff ++ bytes ++
        List.replicate (size - (position + bytes.length)) 0xff := by
  refine ⟨_, dif_pos fits, ?_⟩
  simp only [Storage.filled, take_replicate, drop_replicate]
  rw [Nat.min_eq_left (by omega)]

variable {buffer : Bytes} {address : Nat}

theorem alignLast_eq (address : Nat) (fits : buffer.length ≤ size) :
    ∃ aligned, alignLast state address buffer = some aligned ∧
      aligned.chunks = state.chunks ++ if buffer = [] then []
        else [⟨address, buffer ++ List.replicate (size - buffer.length) 0xff⟩] := by
  rw [alignLast]
  by_cases gone : buffer = []
  · exact ⟨state, by rw [if_pos gone], by rw [if_pos gone, append_nil]⟩
  · have room : 0 + buffer.length ≤ size := by omega
    have ⟨storage, copied, bytes⟩ := copy_filled room
    simp [gone, copied, bytes]

theorem alignRest_eq (address : Nat) (buffer : Bytes) (divides : alignByte size ≠ 0)
    (small : buffer.length < 2 ^ 32) (within : address + buffer.length ≤ 2 ^ 32) :
    ∃ aligned, (match alignFullWords state address buffer with
        | (state, newAddress, buffer) => alignLast state newAddress buffer) = some aligned ∧
      aligned.chunks = state.chunks ++ others size address buffer := by
  have whole : buffer.length / alignByte size * alignByte size ≤ buffer.length :=
    Nat.div_mul_le_self _ _
  have quotient : buffer.length / alignByte size % 2 ^ 32 = buffer.length / alignByte size :=
    Nat.mod_eq_of_lt (Nat.lt_of_le_of_lt (Nat.div_le_self _ _) small)
  have product : buffer.length / alignByte size * alignByte size % 2 ^ 32 =
      buffer.length / alignByte size * alignByte size := Nat.mod_eq_of_lt (by omega)
  have rest := rest_lt buffer divides
  have room : alignByte size ≤ size := Nat.mod_le _ _
  rw [alignFullWords, others, quotient, product]
  by_cases none : buffer.length / alignByte size = 0
  · have fits : buffer.length ≤ size := by
      rw [none] at rest
      omega
    obtain ⟨aligned, last, chunks⟩ := alignLast_eq state address fits
    refine ⟨aligned, by simpa [none] using last, ?_⟩
    simpa [none] using chunks
  · have positive : buffer.length / alignByte size * alignByte size ≠ 0 :=
      Nat.mul_ne_zero none divides
    rw [if_neg none, if_neg positive]
    generalize buffer.length / alignByte size * alignByte size = words at *
    have taken : (buffer.take words).length = words := by
      rw [length_take, Nat.min_eq_left whole]
    have fits : (buffer.drop words).length ≤ size := by
      rw [length_drop]
      omega
    obtain ⟨aligned, last, chunks⟩ := alignLast_eq
      { state with chunks := state.chunks ++ [⟨address, buffer.take words⟩] }
      ((address + words) % 2 ^ 32) fits
    refine ⟨aligned, by simpa only [taken] using last, ?_⟩
    rw [chunks, append_assoc]
    by_cases gone : buffer.drop words = []
    · rw [if_pos gone, if_pos gone]
    · have more : words < buffer.length := by
        rw [drop_eq_nil_iff] at gone
        omega
      rw [if_neg gone, if_neg gone, Nat.mod_eq_of_lt (by omega)]

@[simp]
theorem others_nil (address : Nat) : others size address [] = [] := by simp [others]

theorem others_cons (size address : Nat) (something : buffer ≠ []) :
    ∃ data rest, others size address buffer = ⟨address, data⟩ :: rest := by
  rw [others]
  by_cases none : buffer.length / alignByte size * alignByte size = 0
  · rw [none]
    simp [something]
  · simp [none]

theorem align_eq (divides : alignByte size ≠ 0) (something : buffer ≠ [])
    (small : buffer.length < 2 ^ 32) (within : address + buffer.length ≤ 2 ^ 32) :
    ∃ aligned, state.align address buffer = some aligned ∧
      aligned.chunks =
        if address % alignByte size = 0 then others size address buffer
        else
          let missing := alignByte size - address % alignByte size
          ⟨address - address % alignByte size,
              List.replicate (address % alignByte size) 0xff ++ buffer.take missing ++
                List.replicate (size - (address % alignByte size + min missing buffer.length)) 0xff⟩ ::
            others size (address + missing) (buffer.drop missing) := by
  rw [FlashAlign.align, if_neg something, alignFirst, if_neg divides]
  by_cases aligned : address % alignByte size = 0
  · rw [if_pos aligned]
    have rest := alignRest_eq { state with chunks := [], alignedAddress := address } address buffer
      divides small within
    simpa [aligned] using rest
  · rw [if_neg aligned]
    have less : address % alignByte size < alignByte size := Nat.mod_lt _ (Nat.pos_of_ne_zero divides)
    have start : address % alignByte size ≤ address := Nat.mod_le _ _
    have room : alignByte size ≤ size := Nat.mod_le _ _
    have byte : alignByte size < 2 ^ 8 := Nat.mod_lt _ (by decide)
    have added : min (alignByte size - address % alignByte size) buffer.length % 2 ^ 8 =
        min (alignByte size - address % alignByte size) buffer.length := Nat.mod_eq_of_lt (by omega)
    have fits : address % alignByte size +
        (buffer.take (min (alignByte size - address % alignByte size) buffer.length)).length ≤ size := by
      rw [length_take]
      omega
    have ⟨storage, copied, bytes⟩ := copy_filled fits
    rw [length_take, Nat.min_assoc, Nat.min_self, ← take_eq_take_min] at bytes
    simp only [if_neg aligned, added, copied, ← bytes, ← drop_eq_drop_min]
    let first : FlashAlign size :=
      { state with
        firstChunk := storage
        alignedAddress := address - address % alignByte size
        chunks := [⟨address - address % alignByte size, storage.val⟩] }
    by_cases more : buffer.drop (alignByte size - address % alignByte size) = []
    · have rest := alignRest_eq first ((address - address % alignByte size + alignByte size) % 2 ^ 32)
        [] divides (by decide) (Nat.le_of_lt (Nat.mod_lt _ (by decide)))
      simpa [first, more] using rest
    · have long : alignByte size - address % alignByte size < buffer.length := by
        rw [drop_eq_nil_iff] at more
        omega
      have follows : (address - address % alignByte size + alignByte size) % 2 ^ 32 =
          address + (alignByte size - address % alignByte size) := by
        rw [Nat.mod_eq_of_lt (by omega)]
        omega
      have rest := alignRest_eq first (address + (alignByte size - address % alignByte size))
        (buffer.drop (alignByte size - address % alignByte size)) divides
        (by rw [length_drop]; omega) (by rw [length_drop]; omega)
      rw [follows]
      simpa [first] using rest

theorem covers_single {before after : Nat} {data : Bytes} (something : buffer ≠ [])
    (placed : data = List.replicate before 0xff ++ buffer ++ List.replicate after 0xff)
    (startsIn : before < size) (endsIn : after < size) (above : before ≤ address)
    (start : size ∣ address - before) (length : size ∣ before + buffer.length + after) :
    Covers size address buffer [⟨address - before, data⟩] where
  units := by
    intro chunk present
    rw [mem_singleton.mp present, placed]
    refine ⟨start, ?_, by simp [something]⟩
    simpa only [length_append, length_replicate] using length
  adjacent := isChain_singleton _
  placed := by
    rw [if_neg something]
    exact ⟨before, after, startsIn, endsIn, above, by simpa using placed, rfl⟩

theorem Covers.cons {behind before : Nat} {front : Bytes} {chunks : List Chunk}
    (covers : Covers size behind buffer chunks) (follows : behind = address + front.length)
    (something : front ≠ []) (more : buffer ≠ []) (startsIn : before < size)
    (above : before ≤ address) (start : size ∣ address - before)
    (length : size ∣ before + front.length) :
    Covers size address (front ++ buffer)
      (⟨address - before, List.replicate before 0xff ++ front⟩ :: chunks) := by
  subst follows
  have placed := covers.placed
  rw [if_neg more] at placed
  have ⟨skipped, after, skippedIn, endsIn, skippedAbove, bytes, head⟩ := placed
  match chunks, covers, head with
  | next :: chunks, covers, head =>
    have nextStart : next.alignedAddress = address + front.length - skipped := Option.some.inj head
    have aligned : size ∣ address + front.length := by
      have sum := Nat.dvd_add start length
      have same : address - before + (before + front.length) = address + front.length := by omega
      rwa [same] at sum
    have unit := (covers.units next mem_cons_self).1
    have none : skipped = 0 := by
      rw [nextStart, Nat.dvd_sub_iff_right skippedAbove aligned] at unit
      exact Nat.eq_zero_of_dvd_of_lt unit skippedIn
    subst none
    refine ⟨?_, ?_, ?_⟩
    · intro chunk present
      cases mem_cons.mp present with
      | inl first =>
        rw [first]
        refine ⟨start, ?_, by simp [something]⟩
        simpa only [length_append, length_replicate] using length
      | inr later => exact covers.units chunk later
    · refine isChain_cons_cons.mpr ⟨?_, covers.adjacent⟩
      rw [nextStart]
      simp only [length_append, length_replicate]
      omega
    · rw [if_neg (by simp [something])]
      refine ⟨before, after, startsIn, endsIn, above, ?_, rfl⟩
      rw [flatMap_cons, bytes]
      simp

theorem covers_last (something : buffer ≠ []) (fits : buffer.length ≤ size)
    (start : size ∣ address) :
    Covers size address buffer
      [⟨address, buffer ++ List.replicate (size - buffer.length) 0xff⟩] := by
  have some : 0 < buffer.length := length_pos_iff.mpr something
  have single : Covers size address buffer [⟨address - 0,
      List.replicate 0 0xff ++ buffer ++ List.replicate (size - buffer.length) 0xff⟩] :=
    covers_single something rfl (by omega) (by omega) (Nat.zero_le _) start ⟨1, by omega⟩
  exact single

theorem covers_others_iff (divides : alignByte size ≠ 0) (something : buffer ≠ []) :
    Covers size address buffer (others size address buffer) ↔
      size ∣ address ∧ size ∣ buffer.length / alignByte size * alignByte size := by
  have whole : buffer.length / alignByte size * alignByte size ≤ buffer.length :=
    Nat.div_mul_le_self _ _
  have rest := rest_lt buffer divides
  have room : alignByte size ≤ size := Nat.mod_le _ _
  have some : 0 < buffer.length := length_pos_iff.mpr something
  rw [others]
  generalize buffer.length / alignByte size * alignByte size = words at *
  have taken : (buffer.take words).length = words := by
    rw [length_take, Nat.min_eq_left whole]
  have dropped : (buffer.drop words).length = buffer.length - words := length_drop
  constructor
  · intro covers
    by_cases none : words = 0
    · subst none
      have unit := covers.units ⟨address, buffer ++ List.replicate (size - buffer.length) 0xff⟩
        (by simp [something])
      exact ⟨unit.1, Nat.dvd_zero size⟩
    · have unit := covers.units ⟨address, buffer.take words⟩ (by simp [none])
      exact ⟨unit.1, taken ▸ unit.2.1⟩
  · intro ⟨start, length⟩
    by_cases none : words = 0
    · subst none
      simpa [something] using covers_last something (by omega) start
    · have positive : 0 < size := by omega
      have whole : size ∣ 0 + (buffer.take words).length := by rwa [taken, Nat.zero_add]
      by_cases gone : buffer.drop words = []
      · have all : words = buffer.length := by
          rw [drop_eq_nil_iff] at gone
          omega
        have single : Covers size address buffer [⟨address - 0,
            List.replicate 0 0xff ++ buffer ++ List.replicate 0 0xff⟩] :=
          covers_single something rfl positive positive (Nat.zero_le _) start
            (by simpa [all] using length)
        simpa [none, gone, all, something] using single
      · have next : size ∣ address + words := Nat.dvd_add start length
        have last := covers_last gone (by omega) next
        have front : buffer.take words ≠ [] := by
          intro nothing
          rw [nothing] at taken
          exact none taken.symm
        have both := last.cons (by rw [taken]) front gone positive (Nat.zero_le _) start whole
        simpa [none, gone, taken] using both

/-- The alignment is below 256 and not 0, or what its lowest byte does to it is not noticed. -/
def CoversExactly (size address length : Nat) : Prop :=
  length = 0 ∨ (0 < size ∧ size < 2 ^ 8) ∨
    (alignByte size ≠ 0 ∧ size ∣ address - address % alignByte size ∧
      if address % alignByte size = 0 then size ∣ length / alignByte size * alignByte size
      else length ≤ alignByte size - address % alignByte size)

theorem Covers.empty (size address : Nat) : Covers size address [] [] where
  units := fun _ nothing => absurd nothing not_mem_nil
  adjacent := .nil
  placed := rfl

theorem covers_first_iff (something : buffer ≠ []) (unaligned : address % alignByte size ≠ 0)
    (divides : alignByte size ≠ 0)
    (fits : buffer.length ≤ alignByte size - address % alignByte size) :
    Covers size address buffer [⟨address - address % alignByte size,
        List.replicate (address % alignByte size) 0xff ++ buffer ++
          List.replicate (size - (address % alignByte size + buffer.length)) 0xff⟩] ↔
      size ∣ address - address % alignByte size := by
  have less : address % alignByte size < alignByte size := Nat.mod_lt _ (Nat.pos_of_ne_zero divides)
  have room : alignByte size ≤ size := Nat.mod_le _ _
  constructor
  · intro covers
    exact (covers.units _ mem_cons_self).1
  · intro start
    exact covers_single something rfl (by omega) (by omega) (Nat.mod_le _ _) start ⟨1, by omega⟩

theorem covers_more_iff (divides : alignByte size ≠ 0)
    (more : alignByte size - address % alignByte size < buffer.length) :
    Covers size address buffer (⟨address - address % alignByte size,
        List.replicate (address % alignByte size) 0xff ++
          buffer.take (alignByte size - address % alignByte size) ++
          List.replicate (size - alignByte size) 0xff⟩ ::
        others size (address + (alignByte size - address % alignByte size))
          (buffer.drop (alignByte size - address % alignByte size))) ↔
      alignByte size = size := by
  have less : address % alignByte size < alignByte size := Nat.mod_lt _ (Nat.pos_of_ne_zero divides)
  have room : alignByte size ≤ size := Nat.mod_le _ _
  have start : address % alignByte size ≤ address := Nat.mod_le _ _
  have behind : buffer.drop (alignByte size - address % alignByte size) ≠ [] := by
    rw [Ne, drop_eq_nil_iff]
    omega
  constructor
  · intro covers
    have ⟨data, rest, next⟩ := others_cons size
      (address + (alignByte size - address % alignByte size)) behind
    have adjacent := covers.adjacent
    rw [next] at adjacent
    have follows := (isChain_cons_cons.mp adjacent).1
    simp only [length_append, length_replicate, length_take] at follows
    omega
  · intro same
    have front : buffer.take (alignByte size - address % alignByte size) ≠ [] := by
      intro nothing
      have length := congrArg List.length nothing
      rw [length_take, length_nil] at length
      omega
    have taken : (buffer.take (alignByte size - address % alignByte size)).length =
        alignByte size - address % alignByte size := by
      rw [length_take]
      omega
    have unit : size ∣ address - address % alignByte size := by
      have whole := Nat.dvd_sub_mod (n := alignByte size) address
      rwa [same] at whole ⊢
    have next : size ∣ address + (alignByte size - address % alignByte size) := by
      have sum := Nat.dvd_add unit (Nat.dvd_refl size)
      have equal : address - address % alignByte size + size =
          address + (alignByte size - address % alignByte size) := by omega
      rwa [equal] at sum
    have rest := (covers_others_iff divides behind).mpr ⟨next, by
      rw [same]
      exact Nat.dvd_mul_left _ _⟩
    have all := rest.cons (by rw [taken]) front behind (by omega) start unit ⟨1, by omega⟩
    rw [take_append_drop] at all
    simpa [same] using all

/-- The chunks cover the buffer exactly if its alignment fits in a byte, but for addresses and
lengths at which another alignment gives the same. -/
theorem covers_exactly_iff (state : FlashAlign size) (address : Nat) (buffer : Bytes)
    (small : buffer.length < 2 ^ 32) (within : address + buffer.length ≤ 2 ^ 32) :
    (∃ aligned, state.align address buffer = some aligned ∧
        Covers size address buffer aligned.yielded) ↔
      CoversExactly size address buffer.length := by
  by_cases nothing : buffer = []
  · subst nothing
    have done : state.align address [] = some { state with chunks := [], alignedAddress := 0 } := rfl
    rw [done]
    have covers : Covers size address [] [] := Covers.empty size address
    refine iff_of_true ⟨_, rfl, ?_⟩ (Or.inl rfl)
    rwa [FlashAlign.yielded_eq]
  · have long : buffer.length ≠ 0 := fun zero => nothing (length_eq_zero_iff.mp zero)
    by_cases divides : alignByte size = 0
    · have undefined : state.align address buffer = none := by
        simp [FlashAlign.align, alignFirst, nothing, divides]
      have large : ¬(0 < size ∧ size < 2 ^ 8) := by
        rintro ⟨positive, byte⟩
        rw [alignByte, Nat.mod_eq_of_lt byte] at divides
        omega
      rw [undefined]
      refine iff_of_false nofun ?_
      rintro (none | byte | ⟨some, _⟩)
      · exact long none
      · exact large byte
      · exact some divides
    · obtain ⟨aligned, done, chunks⟩ := align_eq state divides nothing small within
      have yields : (∃ result, some aligned = some result ∧
          Covers size address buffer result.yielded) ↔ Covers size address buffer aligned.chunks := by
        simp [FlashAlign.yielded_eq]
      have unit (byte : 0 < size ∧ size < 2 ^ 8) : size ∣ address - address % alignByte size := by
        rw [alignByte, Nat.mod_eq_of_lt byte.2]
        exact Nat.dvd_sub_mod address
      rw [done, yields, chunks, CoversExactly]
      by_cases start : address % alignByte size = 0
      · rw [if_pos start, covers_others_iff divides nothing]
        have whole (byte : 0 < size ∧ size < 2 ^ 8) :
            size ∣ buffer.length / alignByte size * alignByte size := by
          rw [alignByte, Nat.mod_eq_of_lt byte.2]
          exact Nat.dvd_mul_left _ _
        simp only [start, Nat.sub_zero, if_true] at unit ⊢
        constructor
        · intro both
          exact Or.inr (Or.inr ⟨divides, both⟩)
        · rintro (zero | byte | ⟨_, both⟩)
          · exact absurd zero long
          · exact ⟨unit byte, whole byte⟩
          · exact both
      · rw [if_neg start]
        simp only [if_neg start]
        by_cases fits : buffer.length ≤ alignByte size - address % alignByte size
        · rw [take_of_length_le fits, drop_eq_nil_iff.mpr fits, others_nil,
            Nat.min_eq_right fits, covers_first_iff nothing start divides fits]
          constructor
          · intro first
            exact Or.inr (Or.inr ⟨divides, first, fits⟩)
          · rintro (zero | byte | ⟨_, first, _⟩)
            · exact absurd zero long
            · exact unit byte
            · exact first
        · have less : address % alignByte size < alignByte size :=
            Nat.mod_lt _ (Nat.pos_of_ne_zero divides)
          have filled : address % alignByte size +
              min (alignByte size - address % alignByte size) buffer.length = alignByte size := by
            omega
          rw [filled, covers_more_iff divides (by omega)]
          constructor
          · intro same
            have byte : size < 2 ^ 8 := same ▸ Nat.mod_lt size (by decide)
            exact Or.inr (Or.inl ⟨by omega, byte⟩)
          · rintro (zero | byte | ⟨_, _, short⟩)
            · exact absurd zero long
            · exact Nat.mod_eq_of_lt byte.2
            · exact absurd short fits

/-- A state of `WithAlignment<4>`, for a buffer of 3 bytes at the end of a unit. -/
theorem covers_exactly_four :
    (∃ aligned, FlashAlign.align
        (⟨Storage.filled 4, Storage.filled 4, 0, []⟩ : FlashAlign 4) 7 [1, 2, 3] = some aligned ∧
        Covers 4 7 [1, 2, 3] aligned.yielded) ↔ CoversExactly 4 7 3 :=
  covers_exactly_iff _ 7 [1, 2, 3] (by decide) (by decide)

/-- With an alignment of 256 the first address is divided by zero. -/
theorem not_covers_large :
    ¬∃ aligned, FlashAlign.align
        (⟨Storage.filled 256, Storage.filled 256, 0, []⟩ : FlashAlign 256) 0 [1] = some aligned ∧
        Covers 256 0 [1] aligned.yielded := by
  intro ⟨aligned, done, _⟩
  have undefined : FlashAlign.align
      (⟨Storage.filled 256, Storage.filled 256, 0, []⟩ : FlashAlign 256) 0 [1] = none := by
    simp [FlashAlign.align, alignFirst, alignByte]
  rw [undefined] at done
  exact Option.some_ne_none aligned done.symm

end

end FlashAlignment
