import EmbeddedInfra.Proto.ByteStreams
import Mathlib.Data.UInt

/-! The formatter of protocol buffers, and the bytes of a tree of fields: `ProtoFormatter`
puts them in the stream, though it inserts the length of a nested message last. -/

namespace Proto

open ByteOutputStreamWriter

def PutVarInt (output : ByteOutputStreamWriter) (value : UInt64) : ByteOutputStreamWriter :=
  let output := output.Insert
    [if value > 127 then ((value &&& 0x7f) ||| 0x80).toUInt8 else value.toUInt8]
  if value >>> 7 ≠ 0 then PutVarInt output (value >>> 7) else output
termination_by value.toNat
decreasing_by
  have positive : (value >>> 7).toNat ≠ 0 := fun zero => by
    have : value >>> 7 = 0 := UInt64.toNat_inj.mp zero
    contradiction
  simp only [UInt64.toNat_shiftRight, UInt64.toNat_ofNat, Nat.shiftRight_eq_div_pow, Nat.reduceMod,
    Nat.reducePow] at positive ⊢
  omega

def signMask (value : UInt64) : UInt64 := (value.toInt64 >>> 63).toUInt64

def PutSignedVarInt (output : ByteOutputStreamWriter) (value : UInt64) : ByteOutputStreamWriter :=
  PutVarInt output ((value <<< 1) ^^^ signMask value)

/-- The bytes of a number in memory, the lowest first. -/
def memory (size value : Nat) : Bytes :=
  (List.range size).map fun index => UInt8.ofNat (value / 2 ^ (8 * index))

def PutFixed32 (output : ByteOutputStreamWriter) (value : UInt32) : ByteOutputStreamWriter :=
  output.Insert (memory 4 value.toNat)

def PutFixed64 (output : ByteOutputStreamWriter) (value : UInt64) : ByteOutputStreamWriter :=
  output.Insert (memory 8 value.toNat)

def PutString (output : ByteOutputStreamWriter) (string : Bytes) : ByteOutputStreamWriter :=
  (PutVarInt output (UInt64.ofNat string.length)).Insert string

def PutBytes (output : ByteOutputStreamWriter) (bytes : Bytes) : ByteOutputStreamWriter :=
  (PutVarInt output (UInt64.ofNat bytes.length)).Insert bytes

def PutVarIntField (output : ByteOutputStreamWriter) (value : UInt64) (fieldNumber : UInt32) :
    ByteOutputStreamWriter :=
  PutVarInt (PutVarInt output ((fieldNumber <<< 3) ||| 0).toUInt64) value

def PutSignedVarIntField (output : ByteOutputStreamWriter) (value : UInt64) (fieldNumber : UInt32) :
    ByteOutputStreamWriter :=
  PutSignedVarInt (PutVarInt output ((fieldNumber <<< 3) ||| 0).toUInt64) value

def PutFixed32Field (output : ByteOutputStreamWriter) (value : UInt32) (fieldNumber : UInt32) :
    ByteOutputStreamWriter :=
  PutFixed32 (PutVarInt output ((fieldNumber <<< 3) ||| 5).toUInt64) value

def PutFixed64Field (output : ByteOutputStreamWriter) (value : UInt64) (fieldNumber : UInt32) :
    ByteOutputStreamWriter :=
  PutFixed64 (PutVarInt output ((fieldNumber <<< 3) ||| 1).toUInt64) value

def PutStringField (output : ByteOutputStreamWriter) (string : Bytes) (fieldNumber : UInt32) :
    ByteOutputStreamWriter :=
  PutString (PutVarInt output ((fieldNumber <<< 3) ||| 2).toUInt64) string

def PutBytesField (output : ByteOutputStreamWriter) (bytes : Bytes) (fieldNumber : UInt32) :
    ByteOutputStreamWriter :=
  PutBytes (PutVarInt output ((fieldNumber <<< 3) ||| 2).toUInt64) bytes

/-- A `ProtoLengthDelimitedFormatter` from its construction to its destruction: after the
contents have been written their size is put in front of them. -/
def LengthDelimitedFormatter (output : ByteOutputStreamWriter) (fieldNumber : UInt32)
    (contents : ByteOutputStreamWriter → ByteOutputStreamWriter) : ByteOutputStreamWriter :=
  let output := PutVarInt output ((fieldNumber <<< 3) ||| 2).toUInt64
  let marker := output.ConstructSaveMarker
  let output := contents output
  let size := output.GetProcessedBytesSince marker
  let (output, savedStream) := output.SaveState marker
  output.RestoreState marker (PutVarInt savedStream (UInt64.ofNat size))

/-- A field number, from 1 up to 2 ^ 29 - 1. -/
structure FieldNumber where
  value : UInt32
  positive : 0 < value
  small : value < 2 ^ 29
  deriving DecidableEq

inductive Field
  | varInt (value : UInt64) (fieldNumber : FieldNumber)
  | signedVarInt (value : UInt64) (fieldNumber : FieldNumber)
  | fixed32 (value : UInt32) (fieldNumber : FieldNumber)
  | fixed64 (value : UInt64) (fieldNumber : FieldNumber)
  | string (string : Bytes) (fieldNumber : FieldNumber)
  | bytes (bytes : Bytes) (fieldNumber : FieldNumber)
  | message (fields : List Field) (fieldNumber : FieldNumber)

mutual

def Field.write (output : ByteOutputStreamWriter) : Field → ByteOutputStreamWriter
  | .varInt value fieldNumber => PutVarIntField output value fieldNumber.value
  | .signedVarInt value fieldNumber => PutSignedVarIntField output value fieldNumber.value
  | .fixed32 value fieldNumber => PutFixed32Field output value fieldNumber.value
  | .fixed64 value fieldNumber => PutFixed64Field output value fieldNumber.value
  | .string string fieldNumber => PutStringField output string fieldNumber.value
  | .bytes bytes fieldNumber => PutBytesField output bytes fieldNumber.value
  | .message fields fieldNumber =>
    LengthDelimitedFormatter output fieldNumber.value fun output => writeFields output fields

def writeFields (output : ByteOutputStreamWriter) : List Field → ByteOutputStreamWriter
  | [] => output
  | field :: fields => writeFields (field.write output) fields

end

/-- Seven bits a byte, the lowest first; every byte but the last has its highest bit set. -/
def varIntBytes (value : Nat) : Bytes :=
  if value < 128 then [UInt8.ofNat value]
  else UInt8.ofNat (value % 128 + 128) :: varIntBytes (value / 128)

def zigzag (value : UInt64) : UInt64 := (value <<< 1) ^^^ signMask value

def Field.type : Field → Nat
  | .varInt _ _ | .signedVarInt _ _ => 0
  | .fixed64 _ _ => 1
  | .string _ _ | .bytes _ _ | .message _ _ => 2
  | .fixed32 _ _ => 5

def Field.number : Field → FieldNumber
  | .varInt _ fieldNumber | .signedVarInt _ fieldNumber | .fixed32 _ fieldNumber
  | .fixed64 _ fieldNumber | .string _ fieldNumber | .bytes _ fieldNumber
  | .message _ fieldNumber => fieldNumber

def Field.tag (field : Field) : Bytes := varIntBytes (field.number.value.toNat * 8 + field.type)

mutual

def Field.value : Field → Bytes
  | .varInt value _ => varIntBytes value.toNat
  | .signedVarInt value _ => varIntBytes (zigzag value).toNat
  | .fixed32 value _ => memory 4 value.toNat
  | .fixed64 value _ => memory 8 value.toNat
  | .string string _ => varIntBytes string.length ++ string
  | .bytes bytes _ => varIntBytes bytes.length ++ bytes
  | .message fields _ => varIntBytes (wire fields).length ++ wire fields

def wire : List Field → Bytes
  | [] => []
  | field :: fields => field.tag ++ field.value ++ wire fields

end

theorem toNat_shiftRight_seven (value : UInt64) : (value >>> 7).toNat = value.toNat / 128 := by
  simp [UInt64.toNat_shiftRight, Nat.shiftRight_eq_div_pow]

theorem varIntByte (value : UInt64) :
    (if value > 127 then ((value &&& 0x7f) ||| 0x80).toUInt8 else value.toUInt8) =
      if value.toNat < 128 then UInt8.ofNat value.toNat else UInt8.ofNat (value.toNat % 128 + 128) := by
  have compare : value > 127 ↔ ¬ value.toNat < 128 := by
    rw [gt_iff_lt, UInt64.lt_iff_toNat_lt]
    exact Nat.succ_le_iff.symm.trans not_lt.symm
  have low : ((value &&& 0x7f) ||| 0x80).toNat = value.toNat % 128 + 128 := by
    have mask : value.toNat &&& 127 = value.toNat % 128 := Nat.and_two_pow_sub_one_eq_mod value.toNat 7
    have bit := Nat.two_pow_add_eq_or_of_lt (Nat.mod_lt value.toNat (show 0 < 2 ^ 7 by decide)) 1
    rw [UInt64.toNat_or, UInt64.toNat_and]
    simp only [UInt64.toNat_ofNat, Nat.reduceMod, Nat.reducePow, Nat.reduceMul] at mask bit ⊢
    rw [mask, Nat.or_comm, ← bit, Nat.add_comm]
  simp only [compare]
  by_cases small : value.toNat < 128
  · rw [if_neg (not_not.mpr small), if_pos small]
    exact UInt8.toNat_inj.mp (by simp)
  · rw [if_pos small, if_neg small]
    refine UInt8.toNat_inj.mp ?_
    rw [UInt64.toNat_toUInt8, low, UInt8.toNat_ofNat']

theorem putVarInt_wrote (output : ByteOutputStreamWriter) (value : UInt64)
    (room : output.Room (varIntBytes value.toNat).length) :
    output.Wrote (varIntBytes value.toNat) (PutVarInt output value) := by
  induction output, value using PutVarInt.induct with
  | case1 output value next more ih =>
    have large : ¬ value.toNat < 128 := by
      intro small
      refine more (UInt64.toNat_inj.mp ?_)
      rw [toNat_shiftRight_seven, Nat.div_eq_of_lt small]
      rfl
    rw [varIntBytes, if_neg large] at room ⊢
    rw [PutVarInt, if_pos more]
    rw [List.length_cons, Nat.add_comm] at room
    have first : output.Wrote [UInt8.ofNat (value.toNat % 128 + 128)] next := by
      have byte := varIntByte value
      rw [if_neg large] at byte
      simp only [next, dite_eq_ite, byte]
      exact insert_wrote (by exact room.left)
    rw [toNat_shiftRight_seven] at ih
    exact first.trans (ih (first.room room))
  | case2 output value last =>
    have small : value.toNat < 128 := by
      have zero := congrArg UInt64.toNat (not_not.mp last)
      rw [toNat_shiftRight_seven] at zero
      exact (Nat.div_eq_zero_iff_lt (by decide)).mp zero
    rw [varIntBytes, if_pos small] at room ⊢
    rw [PutVarInt, if_neg last, varIntByte, if_pos small]
    exact insert_wrote room

theorem fieldTag (fieldNumber : FieldNumber) (type : UInt32) (narrow : type.toNat < 8) :
    ((fieldNumber.value <<< 3) ||| type).toUInt64.toNat =
      fieldNumber.value.toNat * 8 + type.toNat := by
  have small : fieldNumber.value.toNat < 2 ^ 29 := fieldNumber.small
  have bits := Nat.two_pow_add_eq_or_of_lt (i := 3) narrow fieldNumber.value.toNat
  rw [UInt32.toNat_toUInt64, UInt32.toNat_or, UInt32.toNat_shiftLeft, Nat.shiftLeft_eq]
  simp only [UInt32.toNat_ofNat, Nat.reduceMod, Nat.reducePow] at bits ⊢
  rw [Nat.mod_eq_of_lt (by omega), Nat.mul_comm, ← bits]

theorem length_memory (size value : Nat) : (memory size value).length = size := by
  simp [memory]

variable {output next : ByteOutputStreamWriter} {tag value : Bytes}

def Puts (put : ByteOutputStreamWriter → ByteOutputStreamWriter) (data : Bytes) : Prop :=
  ∀ output : ByteOutputStreamWriter, output.Room data.length → output.Wrote data (put output)

theorem Puts.then {first second : ByteOutputStreamWriter → ByteOutputStreamWriter}
    {front back : Bytes} (puts : Puts first front) (putsNext : Puts second back) :
    Puts (fun output => second (first output)) (front ++ back) := by
  intro output room
  rw [List.length_append] at room
  have wrote := puts output room.left
  exact wrote.trans (putsNext _ (wrote.room room))

theorem puts_varInt (value : UInt64) : Puts (PutVarInt · value) (varIntBytes value.toNat) :=
  fun output room => putVarInt_wrote output value room

theorem puts_insert (data : Bytes) : Puts (·.Insert data) data := fun _ room => insert_wrote room

theorem puts_delimited (contents : Bytes) :
    Puts (fun output => (PutVarInt output (UInt64.ofNat contents.length)).Insert contents)
      (varIntBytes contents.length ++ contents) := by
  intro output room
  have short : (UInt64.ofNat contents.length).toNat = contents.length := by
    have inside := room.inside
    have memory := room.memory
    rw [List.length_append] at inside
    rw [UInt64.toNat_ofNat']
    exact Nat.mod_eq_of_lt (by omega)
  have puts := (puts_varInt (UInt64.ofNat contents.length)).then (puts_insert contents)
  rw [short] at puts
  exact puts output room

theorem puts_saved {contents : ByteOutputStreamWriter → ByteOutputStreamWriter} {data : Bytes}
    (puts : Puts contents data) :
    Puts (fun output =>
        ((contents output).SaveState output.ConstructSaveMarker).1.RestoreState
          output.ConstructSaveMarker
          (PutVarInt ((contents output).SaveState output.ConstructSaveMarker).2
            (UInt64.ofNat ((contents output).GetProcessedBytesSince output.ConstructSaveMarker))))
      (varIntBytes data.length ++ data) := by
  intro output room
  rw [List.length_append] at room
  have contentsFirst : output.Room (data.length + (varIntBytes data.length).length) := by
    rw [Nat.add_comm]
    exact room
  have wrote := puts output contentsFirst.left
  have since : (UInt64.ofNat
      ((contents output).GetProcessedBytesSince output.ConstructSaveMarker)).toNat = data.length := by
    have inside := room.inside
    have memory := room.memory
    rw [GetProcessedBytesSince, ConstructSaveMarker, wrote.offset, Nat.add_sub_cancel_left,
      UInt64.toNat_ofNat']
    exact Nat.mod_eq_of_lt (by omega)
  have size := puts_varInt (UInt64.ofNat
    ((contents output).GetProcessedBytesSince output.ConstructSaveMarker))
  rw [since] at size
  exact saved_wrote wrote room (size _ (saved_room wrote room))

theorem puts_tag (fieldNumber : FieldNumber) (type : UInt32) (narrow : type.toNat < 8) :
    Puts (PutVarInt · ((fieldNumber.value <<< 3) ||| type).toUInt64)
      (varIntBytes (fieldNumber.value.toNat * 8 + type.toNat)) := by
  rw [← fieldTag fieldNumber type narrow]
  exact puts_varInt _

mutual

theorem Field.puts_write (field : Field) : Puts (field.write ·) (field.tag ++ field.value) := by
  cases field with
  | varInt value fieldNumber =>
    simp only [Field.write, PutVarIntField]
    exact (puts_tag fieldNumber 0 (by decide)).then (puts_varInt value)
  | signedVarInt value fieldNumber =>
    simp only [Field.write, PutSignedVarIntField]
    exact (puts_tag fieldNumber 0 (by decide)).then (puts_varInt (zigzag value))
  | fixed32 value fieldNumber =>
    simp only [Field.write, PutFixed32Field]
    exact (puts_tag fieldNumber 5 (by decide)).then (puts_insert _)
  | fixed64 value fieldNumber =>
    simp only [Field.write, PutFixed64Field]
    exact (puts_tag fieldNumber 1 (by decide)).then (puts_insert _)
  | string string fieldNumber =>
    simp only [Field.write, PutStringField]
    exact (puts_tag fieldNumber 2 (by decide)).then (puts_delimited string)
  | bytes bytes fieldNumber =>
    simp only [Field.write, PutBytesField]
    exact (puts_tag fieldNumber 2 (by decide)).then (puts_delimited bytes)
  | message fields fieldNumber =>
    simp only [Field.write, LengthDelimitedFormatter]
    exact (puts_tag fieldNumber 2 (by decide)).then (puts_saved (puts_writeFields fields))

theorem puts_writeFields (fields : List Field) : Puts (writeFields · fields) (wire fields) := by
  cases fields with
  | nil =>
    intro output _
    simp only [writeFields, wire]
    exact Wrote.nil output
  | cons field fields =>
    simp only [writeFields, wire]
    exact field.puts_write.then (puts_writeFields fields)

end

end Proto
