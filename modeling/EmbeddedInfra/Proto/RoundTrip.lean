import EmbeddedInfra.Proto.ProtoParser
import Mathlib.Tactic.Ring

/-! A tree of fields that is written and parsed is the same tree, as long as the length of
the stream fits in the 32 bits of a `LimitedStreamReader`. -/

namespace Proto

open StreamReader List

/-! ### Numbers -/

theorem ofMemory_memory (size value : Nat) (small : value < 256 ^ size) :
    ofMemory (memory size value) = value := by
  induction size generalizing value with
  | zero =>
    have zero : value = 0 := by simpa using small
    rw [zero]
    rfl
  | succ size ih =>
    have high : value / 256 < 256 ^ size := by
      rw [pow_succ] at small
      exact Nat.div_lt_of_lt_mul (by rwa [mul_comm])
    have split : memory (size + 1) value = UInt8.ofNat value :: memory size (value / 256) := by
      simp only [memory, range_succ_eq_map, map_cons, List.map_map, mul_zero, pow_zero,
        Nat.div_one, List.cons.injEq, true_and]
      refine map_congr_left fun index _ => ?_
      have power : 2 ^ (8 * index.succ) = 256 * 2 ^ (8 * index) := by
        rw [Nat.mul_succ, pow_add, mul_comm]
        rfl
      rw [Function.comp_apply, power, Nat.div_div_eq_div_mul]
    rw [split, ofMemory, ih _ high, UInt8.toNat_ofNat']
    exact Nat.mod_add_div value 256

theorem signMask_eq (value : UInt64) : signMask value = if value.toNat < 2 ^ 63 then 0 else -1 := by
  have mask : (signMask value).toBitVec = value.toBitVec.sshiftRight 63 := by
    simp only [signMask, Int64.toBitVec_shiftRight, UInt64.toBitVec_toInt64, Int64.toBitVec_toUInt64]
    rfl
  have spread : (signMask value).toBitVec.toInt = value.toBitVec.toInt / 2 ^ 63 := by
    rw [mask, BitVec.toInt_sshiftRight, Int.shiftRight_eq_div_pow]
    rfl
  have small := value.toNat_lt
  refine UInt64.toBitVec_inj.mp (BitVec.eq_of_toInt_eq (spread.trans ?_))
  rw [BitVec.toInt_eq_toNat_cond, UInt64.toNat_toBitVec]
  split
  next positive =>
    rw [if_pos (by omega)]
    simp
    omega
  next negative =>
    rw [if_neg (by omega)]
    simp
    omega

theorem xor_mask (value : UInt64) : (value ^^^ -1).toNat = 2 ^ 64 - 1 - value.toNat := by
  rw [UInt64.xor_neg_one, UInt64.toNat_not]
  rfl

theorem unzigzag_zigzag (value : UInt64) : unzigzag (zigzag value) = value := by
  refine UInt64.toNat_inj.mp ?_
  have small := value.toNat_lt
  have shifted : (value <<< 1).toNat = value.toNat * 2 % 2 ^ 64 := by
    simp [UInt64.toNat_shiftLeft, Nat.shiftLeft_eq]
  have half (code : UInt64) : (code >>> 1).toNat = code.toNat / 2 := by
    simp [UInt64.toNat_shiftRight, Nat.shiftRight_eq_div_pow]
  have sign (code : UInt64) : code &&& 1 = UInt64.ofNat (code.toNat % 2) := by
    refine UInt64.toNat_inj.mp ?_
    rw [UInt64.toNat_and, UInt64.toNat_ofNat', Nat.mod_eq_of_lt (by omega)]
    exact Nat.and_one_is_mod _
  rw [unzigzag, sign, zigzag, signMask_eq]
  split
  next positive =>
    have code : ((value <<< 1) ^^^ 0).toNat = value.toNat * 2 := by
      rw [UInt64.xor_zero, shifted]
      omega
    have bit : UInt64.ofNat (value.toNat * 2 % 2) = 0 := by rw [Nat.mul_mod_left]; rfl
    rw [code, bit, UInt64.sub_zero, UInt64.xor_zero, half, code]
    omega
  next negative =>
    have code : ((value <<< 1) ^^^ -1).toNat = 2 ^ 65 - 1 - value.toNat * 2 := by
      rw [xor_mask, shifted]
      omega
    have bit : (2 ^ 65 - 1 - value.toNat * 2) % 2 = 1 := by omega
    rw [code, bit]
    have mask : (0 : UInt64) - UInt64.ofNat 1 = -1 := by decide
    rw [mask, xor_mask, half, code]
    omega

variable (fieldNumber : FieldNumber)

theorem fieldNumber_of : FieldNumber.of fieldNumber.value = some fieldNumber :=
  dif_pos ⟨fieldNumber.positive, fieldNumber.small⟩

/-! ### Reading what was written -/

variable {value : Nat} {rest : Bytes} {size : Nat} {contents : Bytes}

theorem varIntBytes_small (small : value < 128) : varIntBytes value = [UInt8.ofNat value] := by
  rw [varIntBytes, if_pos small]

theorem varIntBytes_large (large : ¬ value < 128) :
    varIntBytes value = UInt8.ofNat (value % 128 + 128) :: varIntBytes (value / 128) := by
  rw [varIntBytes, if_neg large]

theorem high_bits {left : Nat} (large : ¬ value < 128) (small : value < 2 ^ (7 * (left + 1))) :
    value / 128 < 2 ^ (7 * left) ∧ 0 < left := by
  have high : value / 128 < 2 ^ (7 * left) := by
    refine Nat.div_lt_of_lt_mul ?_
    rwa [Nat.mul_succ, pow_add, mul_comm] at small
  refine ⟨high, ?_⟩
  by_contra none
  obtain rfl : left = 0 := by omega
  simp only [mul_zero, pow_zero] at high
  omega

theorem length_varIntBytes_pos (value : Nat) : 0 < (varIntBytes value).length := by
  rw [varIntBytes]
  split <;> simp

theorem lowBits (byte : UInt8) : (byte &&& 0x7f).toNat = byte.toNat % 128 ∧
    ((byte &&& 0x80 != 0) = true ↔ 128 ≤ byte.toNat) := by
  have bytes : ∀ byte : Fin 256, (UInt8.ofNat byte &&& 0x7f).toNat = byte % 128 ∧
      ((UInt8.ofNat byte &&& 0x80 != 0) = true ↔ 128 ≤ (byte : Nat)) := by decide +kernel
  have here := bytes ⟨byte.toNat, byte.toNat_lt⟩
  rwa [UInt8.ofNat_toNat] at here

variable {input : StreamReader}

theorem advance_advance (input : StreamReader) (first second : Nat) :
    (input.advance first).advance second = input.advance (first + second) := by
  simp only [advance, drop_drop, List.map_map, Function.comp_def, Nat.sub_sub]

theorem extract_one {byte : UInt8} {bytes : Bytes} (starts : input.input = byte :: bytes)
    (available : 0 < input.Available) : input.Extract 1 = ([byte], input.advance 1) := by
  rw [extract_available available, starts]
  rfl

theorem added (result : UInt64) (byte : UInt8) {shift : Nat} (inside : shift < 64) :
    (result + ((byte &&& 0x7f).toUInt64 <<< UInt64.ofNat shift)).toNat =
      (result.toNat + byte.toNat % 128 * 2 ^ shift) % 2 ^ 64 := by
  rw [UInt64.toNat_add, UInt64.toNat_shiftLeft, UInt8.toNat_toUInt64, (lowBits byte).1,
    UInt64.toNat_ofNat', Nat.shiftLeft_eq, Nat.mod_eq_of_lt (show shift < 2 ^ 64 by omega),
    Nat.mod_eq_of_lt inside, Nat.add_mod_mod]

theorem varIntLoop_step (result : UInt64) (old byte : UInt8) (shift left : Nat) {bytes : Bytes}
    (starts : input.input = byte :: bytes) (available : 0 < input.Available)
    (ok : input.failed = false) :
    let next := result + ((byte &&& 0x7f).toUInt64 <<< UInt64.ofNat shift)
    varIntLoop input result old shift (left + 1) =
      if 128 ≤ byte.toNat then varIntLoop (input.advance 1) next byte (shift + 7) left
      else (next, input.advance 1) := by
  have stays : (input.advance 1).failed = false := ok
  simp only [varIntLoop, extract_one starts available, headD_cons, stays, Bool.not_false,
    Bool.true_and, (lowBits byte).2]

theorem varIntLoop_spec (left : Nat) (input : StreamReader) (result : UInt64) (byte : UInt8)
    (shift : Nat) (starts : input.input = varIntBytes value ++ rest)
    (available : (varIntBytes value).length ≤ input.Available) (passes : 0 < left)
    (small : value < 2 ^ (7 * left)) (index : shift + 7 * left = 70) (ok : input.failed = false) :
    ∃ last, varIntLoop input result byte shift left = (last, input.advance (varIntBytes value).length) ∧
      last.toNat = (result.toNat + value * 2 ^ shift) % 2 ^ 64 := by
  induction left generalizing input result byte shift value with
  | zero => exact absurd passes (lt_irrefl 0)
  | succ left ih =>
    have some := length_varIntBytes_pos value
    by_cases final : value < 128
    · rw [varIntBytes_small final] at starts ⊢
      have byteValue : (UInt8.ofNat value).toNat = value := by
        rw [UInt8.toNat_ofNat']
        omega
      refine ⟨result + ((UInt8.ofNat value &&& 0x7f).toUInt64 <<< UInt64.ofNat shift), ?_, ?_⟩
      · rw [varIntLoop_step _ _ _ _ _ starts (some.trans_le available) ok, if_neg (by omega)]
        rfl
      · rw [added _ _ (by omega), byteValue, Nat.mod_eq_of_lt final]
    · rw [varIntBytes_large final, cons_append] at starts
      rw [varIntBytes_large final, length_cons] at available ⊢
      have byteValue : (UInt8.ofNat (value % 128 + 128)).toNat = value % 128 + 128 := by
        rw [UInt8.toNat_ofNat']
        omega
      obtain ⟨high, more⟩ := high_bits final small
      have next : (input.advance 1).input = varIntBytes (value / 128) ++ rest := by
        rw [advance, starts]
        rfl
      have nextAvailable : (varIntBytes (value / 128)).length ≤ (input.advance 1).Available := by
        rw [available_advance (by omega)]
        omega
      obtain ⟨last, loop, number⟩ := ih (input.advance 1)
        (result + ((UInt8.ofNat (value % 128 + 128) &&& 0x7f).toUInt64 <<< UInt64.ofNat shift))
        (UInt8.ofNat (value % 128 + 128)) (shift + 7) next nextAvailable more high (by omega) ok
      refine ⟨last, ?_, ?_⟩
      · rw [varIntLoop_step _ _ _ _ _ starts (by omega) ok, if_pos (by omega), loop,
          advance_advance, Nat.add_comm]
      · rw [number, added _ _ (by omega), byteValue, Nat.mod_add_mod]
        congr 1
        have parts := Nat.mod_add_div value 128
        calc
          result.toNat + (value % 128 + 128) % 128 * 2 ^ shift + value / 128 * 2 ^ (shift + 7) =
              result.toNat + (value % 128 + 128 * (value / 128)) * 2 ^ shift := by
            rw [Nat.add_mod_right, Nat.mod_mod, pow_add]
            ring
          _ = result.toNat + value * 2 ^ shift := by rw [parts]

theorem getVarInt_spec {value : UInt64} (starts : input.input = varIntBytes value.toNat ++ rest)
    (available : (varIntBytes value.toNat).length ≤ input.Available) (ok : input.failed = false) :
    GetVarInt input = (value, input.advance (varIntBytes value.toNat).length) := by
  obtain ⟨last, loop, number⟩ := varIntLoop_spec 10 input 0 0 0 starts available (by decide)
    (value.toNat_lt.trans (by decide)) rfl ok
  have same : last = value := by
    refine UInt64.toNat_inj.mp (number.trans ?_)
    simp [Nat.mod_eq_of_lt value.toNat_lt]
  rw [GetVarInt, loop, same]

theorem getPartialField_tag (type : UInt32) (narrow : type.toNat < 8)
    (starts : input.input = varIntBytes (fieldNumber.value.toNat * 8 + type.toNat) ++ rest)
    (available : (varIntBytes (fieldNumber.value.toNat * 8 + type.toNat)).length ≤ input.Available)
    (ok : input.failed = false) :
    let next := input.advance (varIntBytes (fieldNumber.value.toNat * 8 + type.toNat)).length
    GetPartialField input = GetPartialValue next type fieldNumber.value := by
  intro next
  have small : fieldNumber.value.toNat < 2 ^ 29 := fieldNumber.small
  rw [← fieldTag fieldNumber type narrow] at starts available
  have tag := getVarInt_spec starts available ok
  rw [fieldTag fieldNumber type narrow] at tag
  have bits := Nat.two_pow_add_eq_or_of_lt (i := 3) narrow fieldNumber.value.toNat
  have number : ((fieldNumber.value <<< 3) ||| type).toNat =
      fieldNumber.value.toNat * 8 + type.toNat := by
    rw [← fieldTag fieldNumber type narrow, UInt32.toNat_toUInt64]
  have same : ((fieldNumber.value <<< 3) ||| type).toUInt64.toUInt32 =
      (fieldNumber.value <<< 3) ||| type := UInt32.toUInt32_toUInt64 _
  have typeBits : ((fieldNumber.value <<< 3) ||| type) &&& 7 = type := by
    refine UInt32.toNat_inj.mp ?_
    have low := Nat.and_two_pow_sub_one_eq_mod (fieldNumber.value.toNat * 8 + type.toNat) 3
    rw [UInt32.toNat_and, number]
    simp only [UInt32.toNat_ofNat, Nat.reduceMod, Nat.reducePow, Nat.reduceSub] at low ⊢
    rw [low]
    omega
  have numberBits : ((fieldNumber.value <<< 3) ||| type) >>> 3 = fieldNumber.value := by
    refine UInt32.toNat_inj.mp ?_
    rw [UInt32.toNat_shiftRight, number, Nat.shiftRight_eq_div_pow]
    simp only [UInt32.toNat_ofNat, Nat.reduceMod, Nat.reducePow]
    omega
  simp only [GetPartialField, tag, same, typeBits, numberBits, next]

theorem length_advance (input : StreamReader) (count : Nat) :
    (input.advance count).limits.length = input.limits.length := length_map ..

theorem available_small (limited : input.limits ≠ []) : input.Available < 2 ^ 32 := by
  cases limits : input.limits with
  | nil => exact absurd limits limited
  | cons length rest =>
    simp only [Available, limits, availableOf]
    omega

theorem advance_limited {count : Nat} (limited : input.limits ≠ []) :
    (input.advance count).limits ≠ [] := by
  simpa [advance] using limited

theorem starts_advance {front : Bytes} (starts : input.input = front ++ rest) :
    (input.advance front.length).input = rest := by
  rw [advance, starts]
  exact drop_left

theorem memory_spec (starts : input.input = memory size value ++ rest)
    (available : size ≤ input.Available) (small : value < 256 ^ size) :
    (input.Extract size).2 = input.advance size ∧ ofMemory (input.Extract size).1 = value := by
  rw [extract_available available, starts]
  refine ⟨rfl, ?_⟩
  rw [take_left' (length_memory size value), ofMemory_memory size value small]

theorem getField_delimited
    (starts : input.input =
      varIntBytes (fieldNumber.value.toNat * 8 + 2) ++ (varIntBytes
      contents.length ++ (contents ++ rest)))
    (available : (varIntBytes
      (fieldNumber.value.toNat * 8 + 2) ++ (varIntBytes contents.length ++ contents)).length ≤
      input.Available) (limited : input.limits ≠ []) (ok : input.failed = false) :
    let next := input.advance ((varIntBytes (fieldNumber.value.toNat * 8 + 2)).length +
      (varIntBytes contents.length).length)
    GetField input = ((.lengthDelimited (UInt32.ofNat contents.length), fieldNumber.value),
        next.limited contents.length) ∧
      (next.limited contents.length).Available = contents.length ∧
      (next.limited contents.length).input = contents ++ rest := by
  intro next
  have below := available_small limited
  rw [length_append, length_append] at available
  have short : contents.length < 2 ^ 32 := by omega
  have size : (UInt64.ofNat contents.length).toNat = contents.length := by
    rw [UInt64.toNat_ofNat']
    omega
  have narrowed : (UInt64.ofNat contents.length).toUInt32 = UInt32.ofNat contents.length := by
    refine UInt32.toNat_inj.mp ?_
    rw [UInt64.toNat_toUInt32, size, UInt32.toNat_ofNat']
  have narrowedSize : (UInt32.ofNat contents.length).toNat = contents.length := by
    rw [UInt32.toNat_ofNat']
    omega
  have partialField := getPartialField_tag fieldNumber 2 (by decide) starts (by
    have := available
    simp only [UInt32.reduceToNat]
    omega) ok
  have tagged := starts_advance starts
  have tagFits : (varIntBytes (fieldNumber.value.toNat * 8 + 2)).length ≤ input.Available := by omega
  have left := available_advance tagFits
  rw [← size] at tagged
  have length := getVarInt_spec tagged (by rw [size]; omega) ok
  rw [size, advance_advance] at length
  simp only [UInt32.reduceToNat] at partialField
  rw [size] at tagged
  have here : next.input = contents ++ rest := by
    have both := starts_advance tagged
    rwa [advance_advance] at both
  have nextAvailable : contents.length ≤ next.Available := by
    rw [available_advance (by omega)]
    omega
  have reported : next.ReportResult (contents.length ≤ next.Available) = next := by
    simp only [ReportResult, nextAvailable, decide_true, Bool.not_true, Bool.or_false]
  refine ⟨?_, ?_, here⟩
  · have value : GetPartialField input =
        ((.lengthDelimited (UInt32.ofNat contents.length), fieldNumber.value), next) := by
      rw [partialField, ← narrowed]
      simp [GetPartialValue, length, next]
    simp only [GetField, value, narrowedSize, reported]
  · have nextBelow : next.Available < 2 ^ 32 := available_small (advance_limited limited)
    simp only [Available] at nextAvailable nextBelow
    simp only [Available, StreamReader.limited, availableOf, Nat.mod_eq_of_lt short]
    rw [Nat.mod_eq_of_lt nextBelow]
    exact min_eq_left nextAvailable

theorem getUnbounded_spec (starts : input.input = contents ++ rest)
    (available : input.Available = contents.length) (fill : UInt8) :
    GetUnbounded input fill = (contents, input.advance contents.length) := by
  have extracted := extract_available available.ge
  rw [starts, take_left] at extracted
  simp [GetUnbounded, available, extracted]

theorem leave_advance (input : StreamReader) (length count : Nat) :
    ((input.limited length).advance count).leave = input.advance count := rfl

theorem append_size (first second third : Bytes) :
    first.length + second.length + third.length = (first ++ (second ++ third)).length := by
  rw [length_append, length_append, Nat.add_assoc]

theorem getField_plain (type : UInt32) (narrow : type.toNat < 8) (value : PartialFieldVariant)
    (starts : input.input = varIntBytes (fieldNumber.value.toNat * 8 + type.toNat) ++ rest)
    (available : (varIntBytes (fieldNumber.value.toNat * 8 + type.toNat)).length + size ≤
      input.Available) (ok : input.failed = false)
    (plain : ∀ length, value ≠ .lengthDelimited length)
    (reads : ∀ next : StreamReader, next.input = rest → size ≤ next.Available →
      next.failed = false →
      GetPartialValue next type fieldNumber.value =
      ((value, fieldNumber.value), next.advance size)) :
    GetField input = ((value, fieldNumber.value), input.advance
      ((varIntBytes (fieldNumber.value.toNat * 8 + type.toNat)).length + size)) := by
  have tag := getPartialField_tag fieldNumber type narrow starts (by omega) ok
  have here := reads _ (starts_advance starts)
    (by rw [available_advance (by omega)]; omega) ok
  rw [advance_advance] at here
  rw [GetField, tag, here]
  cases value with
  | lengthDelimited length => exact absurd rfl (plain length)
  | uint32 | uint64 => rfl

mutual

theorem Field.read_spec (field : Field) (input : StreamReader) (rest : Bytes)
    (starts : input.input = field.tag ++ (field.value ++ rest))
    (available : (field.tag ++ field.value).length ≤ input.Available)
    (limited : input.limits ≠ []) (ok : input.failed = false) :
    field.reading.read input = (some field, input.advance (field.tag ++ field.value).length) := by
  cases field with
  | varInt value fieldNumber =>
    rw [length_append] at available ⊢
    have read := getField_plain fieldNumber 0 (by decide) (.uint64 value) starts available ok
      (by simp) fun next here left fine => by
        simp [GetPartialValue, getVarInt_spec here left fine, Field.value]
    simp only [Field.reading, Reading.read, read, fieldNumber_of]
    rfl
  | signedVarInt value fieldNumber =>
    rw [length_append] at available ⊢
    have read := getField_plain fieldNumber 0 (by decide) (.uint64 (zigzag value)) starts
      available ok (by simp) fun next here left fine => by
        simp [GetPartialValue, getVarInt_spec here left fine, Field.value]
    simp only [Field.reading, Reading.read, read, fieldNumber_of, unzigzag_zigzag]
    rfl
  | fixed32 value fieldNumber =>
    rw [length_append] at available ⊢
    have read := getField_plain fieldNumber 5 (by decide) (.uint32 value) starts
      available ok (by simp) fun next here left fine => by
        have size : (memory 4 value.toNat).length = 4 := length_memory ..
        obtain ⟨after, number⟩ := memory_spec here (by rw [← size]; exact left)
          (value.toNat_lt.trans_le (by decide))
        simp [GetPartialValue, GetFixed32, after, number, Field.value, size]
    simp only [Field.reading, Reading.read, read, fieldNumber_of]
    rfl
  | fixed64 value fieldNumber =>
    rw [length_append] at available ⊢
    have read := getField_plain fieldNumber 1 (by decide) (.uint64 value) starts
      available ok (by simp) fun next here left fine => by
        have size : (memory 8 value.toNat).length = 8 := length_memory ..
        obtain ⟨after, number⟩ := memory_spec here (by rw [← size]; exact left)
          (value.toNat_lt.trans_le (by decide))
        simp [GetPartialValue, GetFixed64, after, number, Field.value, size]
    simp only [Field.reading, Reading.read, read, fieldNumber_of]
    rfl
  | string string fieldNumber =>
    simp only [Field.value, append_assoc] at starts
    obtain ⟨got, all, here⟩ := getField_delimited fieldNumber starts available limited ok
    have contents := getUnbounded_spec here all 32
    simp only [Field.reading, Reading.read, got, fieldNumber_of, contents, leave_advance,
      advance_advance, append_size]
    rfl
  | bytes bytes fieldNumber =>
    simp only [Field.value, append_assoc] at starts
    obtain ⟨got, all, here⟩ := getField_delimited fieldNumber starts available limited ok
    have contents := getUnbounded_spec here all 0
    simp only [Field.reading, Reading.read, got, fieldNumber_of, contents, leave_advance,
      advance_advance, append_size]
    rfl
  | message fields fieldNumber =>
    simp only [Field.value, append_assoc] at starts
    obtain ⟨got, all, here⟩ := getField_delimited fieldNumber starts available limited ok
    generalize nested : input.advance ((varIntBytes (fieldNumber.value.toNat * 8 + 2)).length +
      (varIntBytes (wire fields).length).length) = next at got all here
    have below : (next.limited (wire fields).length).Available < 2 ^ 32 :=
      available_small (cons_ne_nil _ _)
    rw [all] at below
    have parser : Parser (next.limited (wire fields).length) =
        (next.limited (wire fields).length).limited (wire fields).length := by
      rw [Parser, all]
    have within : (Parser (next.limited (wire fields).length)).Available = (wire fields).length := by
      rw [parser]
      simp only [Available] at all ⊢
      simp only [StreamReader.limited, availableOf, Nat.mod_eq_of_lt below] at all ⊢
      omega
    have contents := readFields_spec fields (Parser (next.limited (wire fields).length)) rest here
      within.ge (by
        rw [parser]
        exact mem_cons.mpr (.inl (Nat.mod_eq_of_lt below).symm)) (by
        rw [← nested]
        exact ok)
    rw [parser] at contents
    simp only [Field.reading, Reading.read, got, fieldNumber_of, parser, contents, leave_advance]
    simp only [← nested, advance_advance, append_size]
    rfl

theorem readFields_spec (fields : List Field) (input : StreamReader) (rest : Bytes)
    (starts : input.input = wire fields ++ rest) (available : (wire fields).length ≤ input.Available)
    (ends : (wire fields).length ∈ input.limits) (ok : input.failed = false) :
    readFields input (readings fields) = (some fields, input.advance (wire fields).length) := by
  cases fields with
  | nil =>
    have empty : input.Empty = true := by
      simp only [wire, length_nil] at ends
      simp only [StreamReader.Empty, Bool.or_eq_true, any_eq_true]
      exact .inl ⟨0, ends, rfl⟩
    simp [readings, readFields, empty, wire, advance]
  | cons field fields =>
    simp only [wire, append_assoc] at starts
    simp only [wire, append_assoc, length_append] at available
    have some := length_varIntBytes_pos (field.number.value.toNat * 8 + field.type)
    have limited : input.limits ≠ [] := ne_nil_of_mem ends
    have first := field.read_spec input (wire fields ++ rest) starts
      (by rw [length_append]; omega) limited ok
    have next : (input.advance (field.tag ++ field.value).length).input = wire fields ++ rest :=
      starts_advance (by rw [starts, append_assoc])
    have others := readFields_spec fields _ rest next
      (by
        rw [available_advance (by rw [length_append]; omega), length_append]
        omega)
      (by
        refine mem_map.mpr ⟨_, ends, ?_⟩
        simp only [wire, length_append]
        omega)
      ok
    have more : input.Empty = false := not_empty (some.trans_le (by
      rw [Field.tag] at available
      omega))
    simp only [readings, readFields, more, first, others, Bool.false_eq_true, if_false, wire]
    have total : (field.tag ++ field.value ++ wire fields).length =
        (field.tag ++ field.value).length + (wire fields).length := length_append
    rw [advance_advance, total]
    rfl

end

/-! ### Reading what does not fit -/

theorem varIntLoop_failed (input : StreamReader) (result : UInt64) (byte : UInt8) (shift left : Nat)
    (failed : input.failed = true) : (varIntLoop input result byte shift left).2.failed = true := by
  cases left with
  | zero => exact failed
  | succ left =>
    have stays : (input.Extract 1).2.failed = true := extract_failed failed
    simp only [varIntLoop, stays, Bool.not_true, Bool.false_and, Bool.false_eq_true, if_false]

theorem getVarInt_failed (input : StreamReader) (failed : input.failed = true) :
    (GetVarInt input).2.failed = true := varIntLoop_failed input 0 0 0 10 failed

theorem getPartialValue_failed (input : StreamReader) (type fieldNumber : UInt32)
    (failed : input.failed = true) : (GetPartialValue input type fieldNumber).2.failed = true := by
  simp only [GetPartialValue]
  split
  · exact getVarInt_failed input failed
  split
  · exact extract_failed failed
  split
  · exact getVarInt_failed input failed
  split
  · exact extract_failed failed
  · simp [ReportResult]

theorem getField_of_partial (input : StreamReader)
    (failed : (GetPartialField input).2.failed = true) : (GetField input).2.failed = true := by
  simp only [GetField]
  split
  · simp [StreamReader.limited, ReportResult, failed]
  · exact failed

theorem getField_failed (input : StreamReader) (failed : input.failed = true) :
    (GetField input).2.failed = true :=
  getField_of_partial input
    (getPartialValue_failed _ _ _ (getVarInt_failed input failed))

mutual

theorem Reading.read_of_field (input : StreamReader) (reading : Reading)
    (failed : (GetField input).2.failed = true) : (reading.read input).2.failed = true := by
  rcases got : GetField input with ⟨⟨value, fieldNumber⟩, next⟩
  rw [got] at failed
  have unbounded (fill : UInt8) : (GetUnbounded next fill).2.failed = true := extract_failed failed
  cases reading with
  | varInt | signedVarInt | fixed32 | fixed64 =>
    rw [Reading.read, got]
    dsimp only
    cases FieldNumber.of fieldNumber <;> cases value <;> exact failed
  | string =>
    rw [Reading.read, got]
    dsimp only
    cases FieldNumber.of fieldNumber <;> cases value <;> first | exact failed | exact unbounded 32
  | bytes =>
    rw [Reading.read, got]
    dsimp only
    cases FieldNumber.of fieldNumber <;> cases value <;> first | exact failed | exact unbounded 0
  | message readings =>
    have nested := readFields_failed (Parser next) readings failed
    rw [Reading.read, got]
    dsimp only
    cases FieldNumber.of fieldNumber <;> cases value <;> first | exact failed | exact nested

theorem readFields_failed (input : StreamReader) (readings : List Reading)
    (failed : input.failed = true) : (readFields input readings).2.failed = true := by
  cases readings with
  | nil => exact failed
  | cons reading readings =>
    simp only [readFields]
    split
    · exact failed
    · exact readFields_failed _ readings (reading.read_of_field input (getField_failed input failed))

end

def Outermost (input : StreamReader) : Prop := input.limits = [input.input.length % 2 ^ 32]

theorem Outermost.available (outermost : Outermost input) :
    input.Available = input.input.length % 2 ^ 32 := by
  have limits : input.limits = [input.input.length % 2 ^ 32] := outermost
  simp only [Available, limits, availableOf]
  omega

theorem Outermost.advance {count : Nat} (outermost : Outermost input) (fits : count ≤ input.Available) :
    Outermost (input.advance count) := by
  have limits : input.limits = [input.input.length % 2 ^ 32] := outermost
  rw [outermost.available] at fits
  simp only [Outermost, StreamReader.advance, limits, map_cons, map_nil, length_drop]
  congr 1
  omega

theorem Outermost.extract_short (outermost : Outermost input) (short : input.Available < size) :
    (input.Extract size).2.failed = true :=
  StreamReader.extract_short outermost (outermost.available ▸ short)

theorem varIntLoop_short {left : Nat} (input : StreamReader) (result : UInt64) (byte : UInt8)
    (shift : Nat) (starts : input.input = varIntBytes value ++ rest) (outermost : Outermost input)
    (short : input.Available < (varIntBytes value).length) (small : value < 2 ^ (7 * left))
    (passes : 0 < left) :
    (varIntLoop input result byte shift left).2.failed = true := by
  induction left generalizing input result byte shift value with
  | zero => exact absurd passes (lt_irrefl 0)
  | succ left ih =>
    cases failed : input.failed with
    | true => exact varIntLoop_failed _ _ _ _ _ failed
    | false =>
      rcases Nat.eq_zero_or_pos input.Available with none | some
      · have ended : (input.Extract 1).2.failed = true := outermost.extract_short (by omega)
        simp only [varIntLoop, ended, Bool.not_true, Bool.false_and, Bool.false_eq_true, if_false]
      · have large : ¬ value < 128 := by
          intro final
          rw [varIntBytes_small final, length_singleton] at short
          omega
        rw [varIntBytes_large large, cons_append] at starts
        rw [varIntBytes_large large, length_cons] at short
        have byteValue : (UInt8.ofNat (value % 128 + 128)).toNat = value % 128 + 128 := by
          rw [UInt8.toNat_ofNat']
          omega
        obtain ⟨high, more⟩ := high_bits large small
        rw [varIntLoop_step _ _ _ _ _ starts some failed, if_pos (by omega)]
        have next : (input.advance 1).input = varIntBytes (value / 128) ++ rest := by
          rw [StreamReader.advance, starts]
          rfl
        refine ih (input.advance 1) _ _ _ next (outermost.advance some) ?_ high more
        rw [available_advance some]
        omega

theorem getVarInt_short (starts : input.input = varIntBytes value ++ rest)
    (outermost : Outermost input) (short : input.Available < (varIntBytes value).length)
    (small : value < 2 ^ 64) : (GetVarInt input).2.failed = true :=
  varIntLoop_short input 0 0 0 starts outermost short (small.trans (by decide)) (by decide)

mutual

/-- Every string, every sequence of bytes and every nested message is shorter than 2 ^ 32
bytes. -/
def Field.short : Field → Prop
  | .string string _ => string.length < 2 ^ 32
  | .bytes bytes _ => bytes.length < 2 ^ 32
  | .message fields _ => (wire fields).length < 2 ^ 32 ∧ allShort fields
  | _ => True

def allShort : List Field → Prop
  | [] => True
  | field :: fields => field.short ∧ allShort fields

end

theorem delimited_short {whole : StreamReader} (fieldNumber : UInt32)
    (tagged : GetPartialField whole = GetPartialValue input 2 fieldNumber)
    (starts : input.input = varIntBytes contents.length ++ (contents ++ rest))
    (outermost : Outermost input) (ok : input.failed = false)
    (short : input.Available < (varIntBytes contents.length ++ contents).length)
    (fits : contents.length < 2 ^ 32) : (GetField whole).2.failed = true := by
  have value : GetPartialField whole =
      ((.lengthDelimited (GetVarInt input).1.toUInt32, fieldNumber), (GetVarInt input).2) := by
    simp [tagged, GetPartialValue]
  rcases Nat.lt_or_ge input.Available (varIntBytes contents.length).length with cut | known
  · refine getField_of_partial whole ?_
    rw [value]
    exact getVarInt_short starts outermost cut (fits.trans (by decide))
  · have size : (UInt64.ofNat contents.length).toNat = contents.length := by
      rw [UInt64.toNat_ofNat']
      omega
    have narrowed : (UInt64.ofNat contents.length).toUInt32.toNat = contents.length := by
      rw [UInt64.toNat_toUInt32, size]
      omega
    rw [← size] at starts known
    have length := getVarInt_spec starts known ok
    rw [size] at length known
    have less : ¬ contents.length ≤
        (input.advance (varIntBytes contents.length).length).Available := by
      rw [available_advance known]
      rw [length_append] at short
      omega
    simp only [GetField, value, length, narrowed, StreamReader.limited, ReportResult, less,
      decide_false, Bool.not_false, Bool.or_true]

theorem getField_short (field : Field) (starts : input.input = field.tag ++ (field.value ++ rest))
    (outermost : Outermost input) (ok : input.failed = false)
    (short : input.Available < (field.tag ++ field.value).length) (fits : field.short) :
    (GetField input).2.failed = true := by
  have small : field.number.value.toNat < 2 ^ 29 := field.number.small
  have narrow : field.type < 8 := by cases field <;> simp [Field.type]
  rcases Nat.lt_or_ge input.Available field.tag.length with cut | whole
  · refine getField_of_partial input (getPartialValue_failed _ _ _ ?_)
    exact getVarInt_short starts outermost cut (by omega)
  rw [length_append] at short
  have next := starts_advance starts
  have nextOutermost := outermost.advance whole
  have left : (input.advance field.tag.length).Available < field.value.length := by
    rw [available_advance whole]
    omega
  have type : (UInt32.ofNat field.type).toNat = field.type := by
    rw [UInt32.toNat_ofNat']
    omega
  have tagged := getPartialField_tag field.number (UInt32.ofNat field.type) (by omega)
    (by rw [type]; exact starts) (by rw [type]; exact whole) ok
  rw [type] at tagged
  cases field with
  | varInt value fieldNumber | signedVarInt value fieldNumber =>
    refine getField_of_partial input ?_
    rw [tagged]
    exact getVarInt_short next nextOutermost left (UInt64.toNat_lt _)
  | fixed32 value fieldNumber | fixed64 value fieldNumber =>
    refine getField_of_partial input ?_
    rw [tagged]
    exact nextOutermost.extract_short (left.trans_eq (length_memory ..))
  | string contents fieldNumber | bytes contents fieldNumber =>
    simp only [Field.value, append_assoc] at next
    exact delimited_short fieldNumber.value tagged next nextOutermost ok left fits
  | message fields fieldNumber =>
    simp only [Field.value, append_assoc] at next
    exact delimited_short fieldNumber.value tagged next nextOutermost ok left fits.1

theorem readFields_short (fields : List Field) (input : StreamReader)
    (starts : input.input = wire fields ++ rest) (outermost : Outermost input)
    (short : input.Available < (wire fields).length) (fits : allShort fields) :
    (readFields input (readings fields)).2.failed = true ∨
      (readFields input (readings fields)).1 ≠ some fields := by
  induction fields generalizing input with
  | nil => exact absurd short (Nat.not_lt_zero _)
  | cons field fields ih =>
    simp only [readings, readFields]
    split
    · exact .inr (by simp)
    cases failed : input.failed with
    | true =>
      exact .inl (readFields_failed _ _ (field.reading.read_of_field input (getField_failed input failed)))
    | false =>
      simp only [wire, append_assoc] at starts
      simp only [wire, length_append] at short
      rcases Nat.lt_or_ge input.Available (field.tag ++ field.value).length with cut | whole
      · refine .inl (readFields_failed _ _ (field.reading.read_of_field input ?_))
        exact getField_short field starts outermost failed cut fits.1
      · have first := field.read_spec input (wire fields ++ rest) starts whole
          (outermost ▸ cons_ne_nil _ _) failed
        have next : (input.advance (field.tag ++ field.value).length).input = wire fields ++ rest :=
          starts_advance (by rw [starts, append_assoc])
        have left : (input.advance (field.tag ++ field.value).length).Available <
            (wire fields).length := by
          rw [available_advance whole, length_append]
          rw [length_append] at whole
          omega
        rcases ih _ next (outermost.advance whole) left fits.2 with reported | different
        · exact .inl (by simpa only [first] using reported)
        · refine .inr fun same => different ?_
          rw [first] at same
          obtain ⟨others, read, both⟩ := Option.map_eq_some_iff.mp same
          rw [read, (List.cons.inj both).2]

theorem parse_wire (fields : List Field) (fits : allShort fields) :
    parse (readings fields) (wire fields) = some fields ↔ (wire fields).length < 2 ^ 32 := by
  have outermost : Outermost (Parser { input := wire fields }) := by
    simp [Outermost, Parser, StreamReader.limited, Available, availableOf]
  have available : (Parser { input := wire fields }).Available = (wire fields).length % 2 ^ 32 :=
    outermost.available
  have starts : (Parser { input := wire fields }).input = wire fields ++ [] :=
    (append_nil _).symm
  constructor
  · intro parsed
    by_contra long
    have cut := readFields_short fields _ starts outermost (by omega) fits
    simp only [parse] at parsed
    split at parsed
    · cases parsed
    next reported =>
      rcases cut with failed | different
      · exact reported failed
      · exact different parsed
  · intro short
    have read := readFields_spec fields _ [] starts
      (by rw [available, Nat.mod_eq_of_lt short])
      (by
        have limits : (Parser { input := wire fields }).limits = [(wire fields).length % 2 ^ 32] :=
          outermost
        rw [limits, Nat.mod_eq_of_lt short]
        exact mem_singleton_self _) rfl
    simp only [parse, read]
    rfl

/-- A tree of fields that is written where there is room for it, and parsed, is the same
tree if the whole of it is shorter than 2 ^ 32 bytes; if it is longer the parser, which takes
its length in 32 bits, does not give it back. -/
theorem fields_round_trip_iff (storage : Bytes) (fields : List Field) (fits : allShort fields)
    (room : ByteOutputStreamWriter.Room { streamRange := storage } (wire fields).length) :
    let written := writeFields { streamRange := storage } fields
    written.failed = false ∧
      (parse (readings fields) written.Processed = some fields ↔ (wire fields).length < 2 ^ 32) := by
  have wrote := puts_writeFields fields { streamRange := storage } room
  refine ⟨wrote.failed, ?_⟩
  rw [wrote.processed]
  exact parse_wire fields fits

def one : FieldNumber := ⟨1, by decide, by decide⟩

/-- A nested message whose length is put in front of it. -/
def nested : List Field :=
  [.message [.string [104, 105] one, .message [.signedVarInt (-3) one] one, .fixed32 7 one] one,
    .varInt 5 one]

theorem round_trip_nested :
    parse (readings nested) (writeFields { streamRange := List.replicate 32 0 } nested).Processed =
      some nested :=
  (fields_round_trip_iff (List.replicate 32 0) nested
    ⟨⟨by decide +kernel, show 2 < 2 ^ 32 by decide, ⟨by decide +kernel, trivial, trivial⟩, trivial, trivial⟩, trivial,
      trivial⟩ ⟨by decide +kernel, by decide +kernel⟩).2.mpr (by decide +kernel)

/-- Two fields of 2 ^ 31 bytes each are too many for the parser. -/
theorem long_stream_lost : ∃ (storage : Bytes) (fields : List Field), allShort fields ∧
    ByteOutputStreamWriter.Room { streamRange := storage } (wire fields).length ∧
    parse (readings fields) (writeFields { streamRange := storage } fields).Processed ≠ some fields := by
  obtain ⟨half, size⟩ : ∃ half : Bytes, half.length = 2 ^ 31 :=
    ⟨List.replicate (2 ^ 31) 0, length_replicate⟩
  have fits : allShort [.bytes half one, .bytes half one] := by
    simp [allShort, Field.short, size]
  have number : one.value.toNat = 1 := rfl
  have total : (wire [.bytes half one, .bytes half one]).length = 2 ^ 32 + 12 := by
    have length : (varIntBytes (2 ^ 31)).length = 5 := by simp [varIntBytes]
    have tag : (varIntBytes (1 * 8 + 2)).length = 1 := by simp [varIntBytes]
    simp only [wire, Field.value, Field.tag, Field.number, Field.type, number, length_append, size,
      length, tag, length_nil]
    decide
  obtain ⟨storage, room⟩ : ∃ storage : Bytes, storage.length = 2 ^ 32 + 12 :=
    ⟨List.replicate (2 ^ 32 + 12) 0, length_replicate⟩
  have room : ByteOutputStreamWriter.Room { streamRange := storage }
      (wire [.bytes half one, .bytes half one]).length := by
    constructor
    · simp only [total, room, zero_add, le_refl]
    · simp only [room, Nat.reducePow, Nat.reduceAdd, Nat.reduceLT]
  refine ⟨storage, _, fits, room, ?_⟩
  rw [(puts_writeFields _ _ room).processed]
  intro same
  have short := (parse_wire _ fits).mp same
  omega

end Proto
