import EmbeddedInfra.Bootloader.PatchHex
import Mathlib.Data.List.Nodup
import Mathlib.Data.List.Perm.Subperm

/-! When a patch of an Intel HEX text is made. -/

namespace BootloaderImage

open List Function BootloaderImage
open Option (bind_some map_some)

theorem digit_digits : ∀ n < 16, digit (digits.getD n '0') = some n := by decide

theorem digits_notBlank : ∀ n < 16, isBlank (digits.getD n '0') = false := by decide

theorem length_hex (bytes : List UInt8) : (bytes.flatMap hex).length = 2 * bytes.length := by
  induction bytes with
  | nil => rfl
  | cons byte rest ih =>
    rw [flatMap_cons, length_append, ih, length_cons]
    change 2 + _ = _
    omega

theorem byteAt_hex (front : List UInt8) (byte : UInt8) (back : List UInt8) :
    byteAt (':' :: (front ++ byte :: back).flatMap hex) front.length = some byte := by
  have small := byte.toNat_lt
  have line : (front ++ byte :: back).flatMap hex = front.flatMap hex ++
      (digits.getD (byte.toNat / 16) '0' :: digits.getD (byte.toNat % 16) '0' :: back.flatMap hex) := by
    rw [flatMap_append, flatMap_cons]
    rfl
  have high : (':' :: (front ++ byte :: back).flatMap hex)[1 + 2 * front.length]? =
      some (digits.getD (byte.toNat / 16) '0') := by
    rw [line, Nat.add_comm, getElem?_cons_succ, getElem?_append_right (by rw [length_hex]),
      length_hex, Nat.sub_self]
    rfl
  have low : (':' :: (front ++ byte :: back).flatMap hex)[2 + 2 * front.length]? =
      some (digits.getD (byte.toNat % 16) '0') := by
    have place : 2 + 2 * front.length = (2 * front.length + 1) + 1 := by omega
    rw [line, place, getElem?_cons_succ, getElem?_append_right (by rw [length_hex]; omega),
      length_hex, Nat.add_sub_cancel_left]
    rfl
  rw [byteAt, high, low, bind_some, bind_some, digit_digits _ (by omega),
    digit_digits _ (by omega), bind_some, map_some]
  congr 1
  rw [Nat.mul_comm, Nat.div_add_mod, UInt8.ofNat_toNat]

theorem bytesFrom_hex (front back : List UInt8) :
    bytesFrom (':' :: (front ++ back).flatMap hex) back.length front.length = some back := by
  induction back generalizing front with
  | nil => rfl
  | cons byte back ih =>
    have next := ih (front ++ [byte])
    rw [append_assoc, singleton_append, length_append, length_singleton] at next
    rw [length_cons, bytesFrom, byteAt_hex, bind_some, next, map_some]

theorem recordBytes_hex {bytes : List UInt8} (enough : 5 ≤ bytes.length) :
    recordBytes (':' :: bytes.flatMap hex) = some bytes := by
  have length : (':' :: bytes.flatMap hex).length = 2 * bytes.length + 1 := by
    rw [length_cons, length_hex]
  have isRecord_ : isRecord (':' :: bytes.flatMap hex) := by
    refine ⟨?_, rfl⟩
    rw [length]
    change 11 ≤ _
    omega
  rw [recordBytes, if_neg (by
    rw [not_or, length]
    exact ⟨not_not_intro isRecord_, by omega⟩), length, Nat.add_sub_cancel,
    Nat.mul_div_cancel_left _ (by decide : 0 < 2)]
  exact bytesFrom_hex [] bytes

theorem sum_checksum (bytes : List UInt8) : sum (bytes ++ [0 - sum bytes]) = 0 := by
  rw [sum, foldl_append]
  change sum bytes + (0 - sum bytes) = 0
  generalize sum bytes = total
  grind

/-- The data and the address of a record that was parsed fit in a line. -/
structure Record.Fits (record : Record) : Prop where
  address : record.address < 2 ^ 16
  size : record.data.length < 2 ^ 8

variable {record : Record} {patched : List Line} {size : Nat}

theorem parseRecord_format (fits : record.Fits) : parseRecord (format record) = some record := by
  obtain ⟨inside, size⟩ := fits
  rw [parseRecord, format, recordBytes_hex (by simp), bind_some]
  simp only [cons_append, nil_append]
  have length : (UInt8.ofNat record.data.length).toNat = record.data.length :=
    UInt8.toNat_ofNat_of_lt' size
  have high : (UInt8.ofNat (record.address / 256)).toNat = record.address / 256 :=
    UInt8.toNat_ofNat_of_lt' (by change _ < 256; omega)
  have low : (UInt8.ofNat record.address).toNat = record.address % 256 := UInt8.toNat_ofNat'
  have total := sum_checksum ([UInt8.ofNat record.data.length, UInt8.ofNat (record.address / 256),
    UInt8.ofNat record.address, record.type] ++ record.data)
  simp only [cons_append, nil_append] at total
  rw [if_neg (by
    simp only [length_cons, length_append, length_nil, length]
    omega), if_neg (not_not_intro total), dropLast_concat, high, low, Nat.div_add_mod']

theorem parseRecord_fits {line : Line} (parses : parseRecord line = some record) : record.Fits := by
  obtain ⟨bytes, -, shape⟩ := Option.bind_eq_some_iff.mp parses
  split at shape
  · next count high low type rest =>
    split at shape
    · cases shape
    next length =>
    split at shape
    · cases shape
    obtain rfl := Option.some.inj shape
    have := high.toNat_lt
    have := low.toNat_lt
    have := count.toNat_lt
    simp only [length_cons, not_not] at length
    constructor
    · dsimp only
      omega
    · rw [length_dropLast]
      omega
  · cases shape

theorem rdropWhile_append {c : Char} {front ends : Line} (notBlank : isBlank c = false)
    (blank : ∀ c ∈ ends, isBlank c = true) :
    (front ++ [c] ++ ends).rdropWhile isBlank = front ++ [c] := by
  rw [List.rdropWhile, reverse_append, dropWhile_append_of_pos (by simpa using blank),
    reverse_concat, dropWhile_cons_of_neg (by simp [notBlank]), reverse_cons,
    reverse_reverse]

theorem trimmed_hex {bytes : List UInt8} (some_ : bytes ≠ []) (ends : Line)
    (blank : ∀ c ∈ ends, isBlank c = true) :
    trimmed (':' :: bytes.flatMap hex ++ ends) = ':' :: bytes.flatMap hex := by
  obtain ⟨front, byte, shape⟩ := (eq_nil_or_concat' bytes).resolve_left some_
  have small := byte.toNat_lt
  have notBlank := digits_notBlank (byte.toNat % 16) (Nat.mod_lt _ (by decide))
  have line : bytes.flatMap hex =
      front.flatMap hex ++ [digits.getD (byte.toNat / 16) '0'] ++
        [digits.getD (byte.toNat % 16) '0'] := by
    rw [shape, flatMap_append, append_assoc]
    rfl
  rw [trimmed, cons_append, dropWhile_cons_of_neg (by decide), line]
  have whole : (':' :: (front.flatMap hex ++ [digits.getD (byte.toNat / 16) '0'] ++
      [digits.getD (byte.toNat % 16) '0'] ++ ends)) =
        (':' :: (front.flatMap hex ++ [digits.getD (byte.toNat / 16) '0'])) ++
          [digits.getD (byte.toNat % 16) '0'] ++ ends := by simp
  rw [whole, rdropWhile_append notBlank blank, cons_append]

theorem parseRecord_line (fits : record.Fits) (ends : Line) (blank : ∀ c ∈ ends, isBlank c = true) :
    trimmed (format record ++ ends) ≠ [] ∧
      parseRecord (trimmed (format record ++ ends)) = some record := by
  have parses := parseRecord_format fits
  rw [format] at parses ⊢
  rw [trimmed_hex (by simp) ends blank]
  exact ⟨nofun, parses⟩

theorem parseRecord_nil : parseRecord [] = none := rfl

variable {address base place : Nat} {bytes data : List UInt8} {line : Line} {lines : List Line}

def patchedWrite (address : Nat) (bytes : List UInt8) (write : Nat × UInt8) : Nat × UInt8 :=
  (write.1, if address ≤ write.1 ∧ write.1 < address + bytes.length then
    bytes.getD (write.1 - address) 0 else write.2)

/-- How many of these bytes the patch replaces. -/
def within (address size : Nat) (written : List (Nat × UInt8)) : Nat :=
  (written.map Prod.fst).countP fun place => address ≤ place ∧ place < address + size

theorem within_append (size : Nat) (front back : List (Nat × UInt8)) :
    within address size (front ++ back) = within address size front + within address size back := by
  rw [within, map_append, countP_append]
  rfl

/-- What the loop of `Overwrite` does. -/
structure Overwritten (address : Nat) (bytes : List UInt8) (place : Nat) (data : List UInt8)
    (outcome : List UInt8 × Nat × Bool) : Prop where
  length : outcome.1.length = data.length
  placed : placed place outcome.1 = (placed place data).map (patchedWrite address bytes)
  replaced : outcome.2.1 = within address bytes.length (BootloaderImage.placed place data)
  changed : outcome.2.2 = false → outcome.1 = data

theorem overwriteFrom_overwrites (address : Nat) (bytes : List UInt8) (place : Nat)
    (data : List UInt8) :
    Overwritten address bytes place data (overwriteFrom address bytes place data) := by
  induction data generalizing place with
  | nil => exact ⟨rfl, rfl, rfl, fun _ => rfl⟩
  | cons byte rest ih =>
    have ⟨length, places, replaced, changed⟩ := ih (place + 1)
    rw [overwriteFrom]
    generalize overwriteFrom address bytes (place + 1) rest = outcome at length places replaced changed
    obtain ⟨rest', more, changes⟩ := outcome
    dsimp only at length places replaced changed ⊢
    split
    · next inside =>
      refine ⟨congrArg (· + 1) length, ?_, ?_, nofun⟩
      · rw [placed, places, placed, map_cons, patchedWrite,
          if_pos inside]
      · rw [within, placed, map_cons, countP_cons_of_pos (by simpa using inside)]
        exact congrArg (· + 1) replaced
    · next outside =>
      refine ⟨congrArg (· + 1) length, ?_, ?_, fun same => by rw [changed same]⟩
      · rw [placed, places, placed, map_cons, patchedWrite,
          if_neg outside]
      · rw [within, placed, map_cons, countP_cons_of_neg (by simpa using outside)]
        exact replaced

/-- What the loop of `PatchHex` does to lines. -/
structure Patched (address : Nat) (bytes : List UInt8) (lines patched : List Line) (base : Nat) :
    Prop where
  isHex : IsHex patched
  writes : writesFrom patched base = (writesFrom lines base).map (patchedWrite address bytes)

theorem isHex_cons (here : trimmed line = [] ∨ (parseRecord (trimmed line)).isSome)
    (isHex : IsHex patched) : IsHex (line :: patched) :=
  fun other member => (mem_cons.mp member).elim (fun same => same ▸ here) (isHex other)

theorem patchLines_patches (isHex : IsHex lines) (base replaced : Nat) :
    ∃ patched, patchLines address bytes lines base replaced =
        some (patched, replaced + within address bytes.length (writesFrom lines base)) ∧
      Patched address bytes lines patched base := by
  induction lines generalizing base replaced with
  | nil => exact ⟨[], rfl, isHex, rfl⟩
  | cons line lines ih =>
    have later : IsHex lines := fun other member => isHex other (mem_cons_of_mem _ member)
    have here := isHex line mem_cons_self
    by_cases blank : trimmed line = []
    · obtain ⟨patched, returns, hexToo, same⟩ := ih later base replaced
      have skips (lines : List Line) : writesFrom (line :: lines) base = writesFrom lines base := by
        rw [writesFrom, blank, parseRecord_nil]
      refine ⟨line :: patched, ?_, isHex_cons here hexToo, ?_⟩
      · rw [patchLines, if_pos blank]
        dsimp only
        rw [returns, skips]
        rfl
      · rw [skips, skips, same]
    obtain ⟨record, parses⟩ := Option.isSome_iff_exists.mp (here.resolve_left blank)
    by_cases isBase : record.type = 2 ∨ record.type = 4
    · obtain ⟨patched, returns, hexToo, same⟩ := ih later (baseAddress record) replaced
      have moves (lines : List Line) :
          writesFrom (line :: lines) base = writesFrom lines (baseAddress record) := by
        rw [writesFrom, parses]
        exact if_pos isBase
      refine ⟨line :: patched, ?_, isHex_cons here hexToo, ?_⟩
      · rw [patchLines, if_neg blank, parses, bind_some, if_pos isBase]
        dsimp only
        rw [returns, moves]
        rfl
      · rw [moves, moves, same]
    by_cases isData : record.type = 0
    · have puts {line : Line} {record : Record} (parses : parseRecord (trimmed line) = some record)
          (isData : record.type = 0) (lines : List Line) : writesFrom (line :: lines) base =
            placed (base + record.address) record.data ++ writesFrom lines base := by
        rw [writesFrom, parses]
        have notBase : ¬(record.type = 2 ∨ record.type = 4) := by rw [isData]; decide
        exact (if_neg notBase).trans (if_pos isData)
      obtain ⟨length, places, count, changes⟩ :=
        overwriteFrom_overwrites address bytes (base + record.address) record.data
      rw [patchLines, if_neg blank, parses, bind_some, if_neg isBase, if_pos isData, overwrite]
      generalize overwriteFrom address bytes (base + record.address) record.data = outcome
        at length places count changes
      obtain ⟨data, more, changed⟩ := outcome
      dsimp only at length places count changes ⊢
      obtain ⟨patched, returns, hexToo, same⟩ := ih later base (replaced + more)
      rw [returns]
      -- The new line has the record with the new data, also where nothing has changed.
      have newLine : ∃ line', (if changed = true then
          format { record with data := data } ++ (if line.getLast? = some '\r' then ['\r'] else [])
            else line) = line' ∧ trimmed line' ≠ [] ∧
            parseRecord (trimmed line') = some { record with data := data } := by
        refine ⟨_, rfl, ?_⟩
        cases changed with
        | true =>
          obtain ⟨inside, size⟩ := parseRecord_fits parses
          have fits : Record.Fits { record with data := data } := ⟨inside, length ▸ size⟩
          rw [if_pos rfl]
          apply parseRecord_line fits
          intro c member
          split at member
          · rw [mem_singleton.mp member]
            rfl
          · cases member
        | false =>
          rw [if_neg Bool.false_ne_true, changes rfl]
          exact ⟨blank, parses⟩
      obtain ⟨line', isLine, notBlank, parses'⟩ := newLine
      rw [isLine]
      refine ⟨line' :: patched, ?_, isHex_cons (.inr (by rw [parses']; rfl)) hexToo, ?_⟩
      · rw [puts parses isData, within_append, ← count, Nat.add_assoc]
        rfl
      · rw [puts parses' isData, puts parses isData, map_append, same]
        congr 1
    · obtain ⟨patched, returns, hexToo, same⟩ := ih later base replaced
      have skips (lines : List Line) : writesFrom (line :: lines) base = writesFrom lines base := by
        rw [writesFrom, parses]
        exact (if_neg isBase).trans (if_neg isData)
      refine ⟨line :: patched, ?_, isHex_cons here hexToo, ?_⟩
      · rw [patchLines, if_neg blank, parses, bind_some, if_neg isBase, if_neg isData]
        dsimp only
        rw [returns, skips]
        rfl
      · rw [skips, skips, same]

def patchedMemory (address : Nat) (bytes : List UInt8) (m : Memory) : Memory := fun place =>
  if address ≤ place ∧ place < address + bytes.length then
    (m place).map fun _ => bytes.getD (place - address) 0
  else m place

theorem store_patched (m : Memory) (write : Nat × UInt8) :
    store (patchedMemory address bytes m) (patchedWrite address bytes write) =
      patchedMemory address bytes (store m write) := by
  funext place
  rw [store, patchedMemory, store, patchedWrite]
  dsimp only
  by_cases here : place = write.1
  · subst here
    rw [update_self, update_self]
    split <;> rfl
  · rw [update_of_ne here, update_of_ne here, patchedMemory]

theorem foldl_patched (written : List (Nat × UInt8)) (m : Memory) :
    (written.map (patchedWrite address bytes)).foldl store (patchedMemory address bytes m) =
      patchedMemory address bytes (written.foldl store m) := by
  induction written generalizing m with
  | nil => rfl
  | cons write rest ih =>
    rw [map_cons, foldl_cons, foldl_cons, store_patched]
    exact ih (store m write)

theorem patchedMemory_none : patchedMemory address bytes (fun _ => none) = fun _ => none := by
  funext place
  rw [patchedMemory]
  split <;> rfl

theorem memory_patched (isPatched : Patched address bytes lines patched 0) :
    memory patched = patchedMemory address bytes (memory lines) := by
  rw [memory, memory, writes, isPatched.writes]
  have same : ((writesFrom lines 0).map (patchedWrite address bytes)).foldl store
      (patchedMemory address bytes fun _ => none) =
        patchedMemory address bytes ((writesFrom lines 0).foldl store fun _ => none) :=
    foldl_patched (writesFrom lines 0) fun _ => none
  rw [patchedMemory_none] at same
  exact same

theorem foldl_isSome (written : List (Nat × UInt8)) (m : Memory) (place : Nat) :
    (written.foldl store m place).isSome = true ↔
      (m place).isSome = true ∨ place ∈ written.map Prod.fst := by
  induction written generalizing m with
  | nil => simp
  | cons write rest ih =>
    rw [foldl_cons, ih, map_cons, mem_cons, store]
    by_cases here : place = write.1
    · simp [here]
    · simp [here]

theorem memory_isSome : (memory lines place).isSome = true ↔ 0 < timesCovered lines place := by
  rw [memory, foldl_isSome, timesCovered, count_pos_iff]
  exact ⟨fun either => either.resolve_left nofun, .inr⟩

theorem length_eq_iff {places : List Nat}
    (inside : ∀ place ∈ places, address ≤ place ∧ place < address + size)
    (all : ∀ i < size, 0 < places.count (address + i)) :
    places.length = size ↔ ∀ i < size, places.count (address + i) = 1 := by
  have covers : List.range' address size ⊆ places := by
    intro place member
    obtain ⟨i, less, rfl⟩ := mem_range'.mp member
    rw [Nat.one_mul]
    exact count_pos_iff.mp (all i less)
  have part := (nodup_range' (s := address) (n := size)).subperm covers
  constructor
  · intro length i less
    have same := part.perm_of_length_le (by rw [length, length_range'])
    rw [← same.count_eq]
    exact count_eq_one_of_mem nodup_range' (mem_range'.mpr ⟨i, less, by rw [Nat.one_mul]⟩)
  · intro once
    have same : (List.range' address size).Perm places := by
      rw [perm_iff_count]
      intro place
      by_cases within : address ≤ place ∧ place < address + size
      · obtain ⟨i, rfl⟩ : ∃ i, place = address + i := ⟨place - address, by omega⟩
        rw [once i (by omega)]
        exact count_eq_one_of_mem nodup_range'
          (mem_range'.mpr ⟨i, by omega, by rw [Nat.one_mul]⟩)
      · rw [count_eq_zero_of_not_mem fun member => within (inside place member)]
        apply count_eq_zero_of_not_mem
        intro member
        obtain ⟨i, less, rfl⟩ := mem_range'.mp member
        exact within (by omega)
    rw [← same.length_eq, length_range']

theorem bytesWithin_eq (lines : List Line) (address size : Nat) :
    bytesWithin lines address size = within address size (writesFrom lines 0) := rfl

theorem bytesWithin_iff (all : ∀ i < size, 0 < timesCovered lines (address + i)) :
    bytesWithin lines address size = size ↔ ∀ i < size, timesCovered lines (address + i) = 1 := by
  let within (place : Nat) : Bool := address ≤ place ∧ place < address + size
  have counts : ∀ i < size, (((writes lines).map Prod.fst).filter within).count (address + i) =
      timesCovered lines (address + i) := by
    intro i less
    rw [count_filter (by simp [within, less]), timesCovered]
  have inside : ∀ place ∈ ((writes lines).map Prod.fst).filter within,
      address ≤ place ∧ place < address + size := fun place member => by
    simpa [within] using (mem_filter.mp member).2
  have iff := length_eq_iff inside fun i less => by rw [counts i less]; exact all i less
  rw [bytesWithin, countP_eq_length_filter]
  rw [iff]
  exact forall₂_congr fun i less => by rw [counts i less]

theorem patchHex_eq (isHex : IsHex lines) (address : Nat) (bytes : List UInt8) :
    ∃ patched, Patched address bytes lines patched 0 ∧ patchHex lines address bytes =
      if bytesWithin lines address bytes.length = bytes.length then (true, patched)
      else (false, lines) := by
  obtain ⟨patched, returns, isPatched⟩ : ∃ patched, patchLines address bytes lines 0 0 =
        some (patched, 0 + within address bytes.length (writesFrom lines 0)) ∧
      Patched address bytes lines patched 0 := patchLines_patches isHex 0 0
  rw [Nat.zero_add, ← bytesWithin_eq] at returns
  exact ⟨patched, isPatched, by rw [patchHex, returns]⟩

/-- A patch is made if and only if all of its addresses have data, or it leaves the text alone, if
and only if no address has data twice that makes up for one that has none. -/
theorem patches_iff (isHex : IsHex lines) (address : Nat) (bytes : List UInt8) :
    Patches lines address bytes ↔ CountsRight lines address bytes.length := by
  obtain ⟨patched, isPatched, returns⟩ := patchHex_eq isHex address bytes
  by_cases counts : bytesWithin lines address bytes.length = bytes.length
  · rw [if_pos counts] at returns
    have once (all : ∀ i < bytes.length, 0 < timesCovered lines (address + i)) :=
      (bytesWithin_iff all).mp counts
    constructor
    · intro patches
      have isTrue_ : (patchHex lines address bytes).1 = true := by rw [returns]
      exact .inl (once (patches.returns.mp isTrue_))
    · rintro (single | ⟨-, differs⟩)
      · have all : ∀ i < bytes.length, 0 < timesCovered lines (address + i) := fun i less => by
          rw [single i less]
          exact Nat.one_pos
        refine ⟨?_, ?_, ?_⟩
        · rw [returns]
          exact ⟨fun _ => all, fun _ => rfl⟩
        · rw [returns]
          refine fun _ => ⟨isPatched.isHex, fun place => ?_⟩
          dsimp only
          rw [memory_patched isPatched, patchedMemory]
          split
          · next within =>
            obtain ⟨i, rfl⟩ : ∃ i, place = address + i := ⟨place - address, by omega⟩
            have less : i < bytes.length := by omega
            obtain ⟨old, found⟩ := Option.isSome_iff_exists.mp (memory_isSome.mpr (all i less))
            rw [found, map_some, Nat.add_sub_cancel_left, getD_eq_getElem?_getD,
              getElem?_eq_getElem less]
            rfl
          · rfl
        · rw [returns]
          exact nofun
      · exact absurd counts differs
  · rw [if_neg counts] at returns
    constructor
    · intro patches
      have notAll : ¬∀ i < bytes.length, 0 < timesCovered lines (address + i) := by
        intro all
        have isTrue_ := patches.returns.mpr all
        rw [returns] at isTrue_
        cases isTrue_
      push Not at notAll
      obtain ⟨i, less, none_⟩ := notAll
      exact .inr ⟨⟨i, less, Nat.le_zero.mp none_⟩, counts⟩
    · rintro (single | ⟨⟨i, less, none_⟩, -⟩)
      · have all : ∀ i < bytes.length, 0 < timesCovered lines (address + i) := fun i less => by
          rw [single i less]
          exact Nat.one_pos
        exact absurd ((bytesWithin_iff all).mpr single) counts
      · refine ⟨?_, ?_, ?_⟩
        · rw [returns]
          refine ⟨nofun, fun all => ?_⟩
          have := all i less
          omega
        · rw [returns]
          exact nofun
        · rw [returns]
          exact fun _ => rfl

/-- Two bytes at 0 are replaced. -/
theorem patches_iff_two : Patches [":020000000102FB".toList, ":00000001FF".toList] 0 [7, 8] := by
  have isHex : IsHex [":020000000102FB".toList, ":00000001FF".toList] := by
    unfold IsHex
    decide
  exact (patches_iff isHex 0 [7, 8]).mpr (.inl (by decide))

/-- One address has data twice and the next has none: the patch is made by half. -/
theorem patches_not : ¬∀ lines address bytes, IsHex lines → Patches lines address bytes := by
  intro all
  have isHex : IsHex [":0100000001FE".toList, ":0100000002FD".toList] := by
    unfold IsHex
    decide
  have patches := all _ 0 [7, 8] isHex
  have returns : (patchHex [":0100000001FE".toList, ":0100000002FD".toList] 0 [7, 8]).1 = true := by
    decide
  have covered := patches.returns.mp returns 1 (by decide)
  exact absurd covered (by decide)

end BootloaderImage
