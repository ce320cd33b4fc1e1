import EmbeddedInfra.Proto.ProtoFormatter

/-! The parser of protocol buffers, and a client that reads a tree of fields with it. -/

namespace Proto

/-- The loop of `GetVarInt`; `left` passes remain until the index is ten. -/
def varIntLoop (input : StreamReader) (result : UInt64) (byte : UInt8) (shift : Nat) :
    Nat → UInt64 × StreamReader
  | 0 => (result, input)
  | left + 1 =>
    let (data, input) := input.Extract 1
    let byte := data.headD byte
    let result := result + ((byte &&& 0x7f).toUInt64 <<< UInt64.ofNat shift)
    if !input.failed && byte &&& 0x80 != 0 then varIntLoop input result byte (shift + 7) left
    else (result, input)

variable (input : StreamReader)

/-- A tenth byte that is not the last is not reported: `Failed` only asks the policy. -/
def GetVarInt : UInt64 × StreamReader := varIntLoop input 0 0 0 10

def ofMemory : Bytes → Nat
  | [] => 0
  | byte :: bytes => byte.toNat + 256 * ofMemory bytes

def GetFixed32 : UInt32 × StreamReader :=
  let (data, input) := input.Extract 4
  (UInt32.ofNat (ofMemory data), input)

def GetFixed64 : UInt64 × StreamReader :=
  let (data, input) := input.Extract 8
  (UInt64.ofNat (ofMemory data), input)

inductive PartialFieldVariant
  | uint32 (value : UInt32)
  | uint64 (value : UInt64)
  | lengthDelimited (length : UInt32)

/-- What follows a tag with this type and field number. -/
def GetPartialValue (type fieldNumber : UInt32) : (PartialFieldVariant × UInt32) × StreamReader :=
  if type = 0 then
    let (value, input) := GetVarInt input
    ((.uint64 value, fieldNumber), input)
  else if type = 1 then
    let (value, input) := GetFixed64 input
    ((.uint64 value, fieldNumber), input)
  else if type = 2 then
    let (length, input) := GetVarInt input
    ((.lengthDelimited length.toUInt32, fieldNumber), input)
  else if type = 5 then
    let (value, input) := GetFixed32 input
    ((.uint32 value, fieldNumber), input)
  else ((.uint32 0, 0), input.ReportResult false)

def GetPartialField : (PartialFieldVariant × UInt32) × StreamReader :=
  let (x, input) := GetVarInt input
  let x := x.toUInt32
  GetPartialValue input (x &&& 7) (x >>> 3)

/-- A field; for a `ProtoLengthDelimited` the stream is behind its `LimitedStreamReader`. -/
def GetField : (PartialFieldVariant × UInt32) × StreamReader :=
  let ((value, fieldNumber), input) := GetPartialField input
  match value with
  | .lengthDelimited length =>
    let reported := input.ReportResult (length.toNat ≤ input.Available)
    ((value, fieldNumber), reported.limited length.toNat)
  | _ => ((value, fieldNumber), input)

/-- `GetStdString` and `GetUnboundedBytes` fill this many characters. -/
def GetUnbounded (fill : UInt8) : Bytes × StreamReader :=
  let size := input.Available
  let (data, input) := input.Extract size
  (data ++ (List.replicate size fill).drop data.length, input)

def Parser : StreamReader := input.limited input.Available

/-- What a client takes a field for. -/
inductive Reading
  | varInt | signedVarInt | fixed32 | fixed64 | string | bytes
  | message (fields : List Reading)

def unzigzag (value : UInt64) : UInt64 := (value >>> 1) ^^^ (0 - (value &&& 1))

def FieldNumber.of (value : UInt32) : Option FieldNumber :=
  if valid : 0 < value ∧ value < 2 ^ 29 then some ⟨value, valid.1, valid.2⟩ else none

mutual

/-- Get a field and take it for this; none if it is something else. -/
def Reading.read (input : StreamReader) (reading : Reading) : Option Field × StreamReader :=
  let ((value, fieldNumber), input) := GetField input
  match FieldNumber.of fieldNumber, value, reading with
  | some fieldNumber, .uint64 value, .varInt => (some (.varInt value fieldNumber), input)
  | some fieldNumber, .uint64 value, .signedVarInt =>
    (some (.signedVarInt (unzigzag value) fieldNumber), input)
  | some fieldNumber, .uint32 value, .fixed32 => (some (.fixed32 value fieldNumber), input)
  | some fieldNumber, .uint64 value, .fixed64 => (some (.fixed64 value fieldNumber), input)
  | some fieldNumber, .lengthDelimited _, .string =>
    let (string, input) := GetUnbounded input 32
    (some (.string string fieldNumber), input.leave)
  | some fieldNumber, .lengthDelimited _, .bytes =>
    let (bytes, input) := GetUnbounded input 0
    (some (.bytes bytes fieldNumber), input.leave)
  | some fieldNumber, .lengthDelimited _, .message readings =>
    let (fields, input) := readFields (Parser input) readings
    (fields.map (.message · fieldNumber), input.leave.leave)
  | _, _, _ => (none, input)

/-- Get fields until the stream is empty; none if there are more than are expected. -/
def readFields (input : StreamReader) : List Reading → Option (List Field) × StreamReader
  | [] => (if input.Empty then some [] else none, input)
  | reading :: readings =>
    if input.Empty then (some [], input)
    else
      let (field, input) := reading.read input
      let (fields, input) := readFields input readings
      (field.bind fun field => fields.map (field :: ·), input)

end

mutual

def Field.reading : Field → Reading
  | .varInt _ _ => .varInt
  | .signedVarInt _ _ => .signedVarInt
  | .fixed32 _ _ => .fixed32
  | .fixed64 _ _ => .fixed64
  | .string _ _ => .string
  | .bytes _ _ => .bytes
  | .message fields _ => .message (readings fields)

def readings : List Field → List Reading
  | [] => []
  | field :: fields => field.reading :: readings fields

end

/-- Parse a whole stream as a tree of fields; none if it fails. -/
def parse (readings : List Reading) (bytes : Bytes) : Option (List Field) :=
  let (fields, input) := readFields (Parser { input := bytes }) readings
  if input.failed then none else fields

end Proto
