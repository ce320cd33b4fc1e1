import EmbeddedInfra.Proto.RoundTrip

/-! The tracer of an echo: it passes on what is sent, keeps a copy in a buffer of limited size,
and parses that copy again to print the calls. -/

namespace TracingEcho

open Proto

/-- A writer, as the serializers of methods use it; none saves or restores a state. -/
structure StreamWriter (ω : Type) where
  Insert : Bytes → ω → ω × Bool
  Available : ω → Nat
  ConstructSaveMarker : ω → Nat
  GetProcessedBytesSince : Nat → ω → Nat

/-- What a `MethodSerializer` does with one writer, depending on what the writer answers. -/
inductive Serialization
  | finish (partlySent : Bool)
  | insert (range : Bytes) (next : Bool → Serialization)
  | available (next : Nat → Serialization)
  | constructSaveMarker (next : Nat → Serialization)
  | getProcessedBytesSince (marker : Nat) (next : Nat → Serialization)

namespace Serialization

variable {ω : Type}

def Serialize (streamWriter : StreamWriter ω) : Serialization → ω → Bool × ω
  | finish partlySent, writer => (partlySent, writer)
  | insert range next, writer =>
    let (writer, ok) := streamWriter.Insert range writer
    (next ok).Serialize streamWriter writer
  | available next, writer => (next (streamWriter.Available writer)).Serialize streamWriter writer
  | constructSaveMarker next, writer =>
    (next (streamWriter.ConstructSaveMarker writer)).Serialize streamWriter writer
  | getProcessedBytesSince marker next, writer =>
    (next (streamWriter.GetProcessedBytesSince marker writer)).Serialize streamWriter writer

/-- The bytes that are inserted in the writer. -/
def inserted (streamWriter : StreamWriter ω) : Serialization → ω → Bytes
  | finish _, _ => []
  | insert range next, writer =>
    let (writer, ok) := streamWriter.Insert range writer
    range ++ (next ok).inserted streamWriter writer
  | available next, writer => (next (streamWriter.Available writer)).inserted streamWriter writer
  | constructSaveMarker next, writer =>
    (next (streamWriter.ConstructSaveMarker writer)).inserted streamWriter writer
  | getProcessedBytesSince marker next, writer =>
    (next (streamWriter.GetProcessedBytesSince marker writer)).inserted streamWriter writer

end Serialization

/-- A tracer of a service, which the build generates: how many bytes `TraceMethod` reads of the
contents, and whether it reports a failure. -/
structure ServiceTracer where
  ServiceId : UInt32
  TraceMethod : UInt32 → Bytes → Nat × Bool

/-- What is printed about the calls that are sent. -/
inductive Trace
  | method (serviceId methodId : UInt32) (contents : Bytes)
  | unknownService (serviceId methodId : UInt32)
  | tooBig (serviceId methodId length : UInt32) (available : Nat)
  | malformed
  | continuedMalformed
  deriving DecidableEq

def maxSize : Nat := 1024

structure Helper where
  writerBuffer : Bytes := []
  skipping : Nat := 0
  traces : List Trace := []
  deriving DecidableEq

namespace Helper

variable (services : List ServiceTracer)

def FindService (serviceId : UInt32) : Option ServiceTracer :=
  services.find? (·.ServiceId = serviceId)

/-- The writes of `TracingWriter::Insert` to the helper. -/
def Insert (range : Bytes) (helper : Helper) : Helper :=
  { helper with
    writerBuffer := helper.writerBuffer ++
      (range.drop helper.skipping).take (maxSize - helper.writerBuffer.length)
    skipping := helper.skipping - (range.take helper.skipping).length }

/-- `GetPartialField`, with what it reports to the policy for errors of the format; the other
errors are those of the stream. -/
def GetPartialField (input : StreamReader) : (PartialFieldVariant × UInt32) × StreamReader × Bool :=
  let (x, input) := GetVarInt input
  let type := x.toUInt32 &&& 7
  if type = 0 ∨ type = 1 ∨ type = 2 ∨ type = 5 then
    let (field, input) := GetPartialValue input type (x.toUInt32 >>> 3)
    (field, input, false)
  else ((.uint32 0, 0), input, true)

/-- What is printed for a method, and what `Processed` leaves of the stream. -/
def SendingMethod (serviceId methodId : UInt32) (contents : Bytes) : List Trace × Nat × Bool :=
  match FindService services serviceId with
  | some service =>
    let (read, failed) := service.TraceMethod methodId contents
    ([.method serviceId methodId contents], read, failed)
  | none => ([.unknownService serviceId methodId], contents.length, false)

/-- The buffer contains a full message; `save` is what follows the service id. -/
def TraceFullMessage (serviceId : UInt32) (save : Bytes) (helper : Helper) : Helper :=
  let (((messageField, methodId), message, formatFailed)) := GetPartialField (Parser { input := save })
  match formatFailed, messageField with
  | false, .lengthDelimited length =>
    let streamFailed := message.failed || message.Available < length.toNat
    let contents := message.input.take length.toNat
    let (printed, read, failed) := SendingMethod services serviceId methodId contents
    { helper with
      traces := helper.traces ++ printed ++
        if streamFailed || failed then [.continuedMalformed] else []
      writerBuffer := message.input.drop read }
  | _, _ => { helper with traces := helper.traces ++ [.malformed], writerBuffer := message.input }

/-- `TraceOneMessage`; none where it returns false. -/
def TraceOneMessage (helper : Helper) : Option Helper :=
  let (serviceId, parser) := GetVarInt (Parser { input := helper.writerBuffer })
  let serviceId := serviceId.toUInt32
  let (((contents, methodId), stream, _)) := GetPartialField parser
  let available := stream.input.length
  if stream.failed then none
  else
    match contents with
    | .lengthDelimited length =>
      if available < length.toNat then
        if length.toNat ≤ maxSize - helper.writerBuffer.length + available then none
        else
          some
            { writerBuffer := stream.input.drop (min length.toNat available)
              skipping := length.toNat - min length.toNat available
              traces := helper.traces ++ [.tooBig serviceId methodId length available] }
      else some (helper.TraceFullMessage services serviceId parser.input)
    | _ => some (helper.TraceFullMessage services serviceId parser.input)

/-- The passes of `SerializationDone`. -/
def traceMessages : Nat → Helper → Helper
  | 0, helper => helper
  | left + 1, helper =>
    if helper.writerBuffer = [] then helper
    else
      match helper.TraceOneMessage services with
      | none => helper
      | some next => traceMessages left next

def SerializationDone (helper : Helper) : Helper :=
  helper.traceMessages services helper.writerBuffer.length

end Helper

variable {ω : Type} (streamWriter : StreamWriter ω)

/-- `TracingWriter`: the delegate, with the helper that it refers to. -/
def tracingWriter : StreamWriter (ω × Helper) where
  Insert range writer :=
    let (delegate, ok) := streamWriter.Insert range writer.1
    ((delegate, writer.2.Insert range), ok)
  Available writer := streamWriter.Available writer.1
  ConstructSaveMarker writer := streamWriter.ConstructSaveMarker writer.1
  GetProcessedBytesSince marker writer := streamWriter.GetProcessedBytesSince marker writer.1

def header (serviceId methodId : UInt32) (length : Nat) : Bytes :=
  varIntBytes serviceId.toNat ++ varIntBytes ((methodId <<< 3) ||| 2).toNat ++ varIntBytes length

/-- A writer that became available for a call, and what its serializer does with it. -/
structure SendStream (ω : Type) where
  writer : ω
  serialization : Serialization

def SendStream.bytes (stream : SendStream ω) : Bytes :=
  stream.serialization.inserted streamWriter stream.writer

/-- A call with the streams over which it is split. -/
structure Call where
  serviceId : UInt32
  methodId : UInt32
  contents : Bytes
  streams : List (SendStream ω)
  sent : streams.flatMap (·.bytes streamWriter) =
    header serviceId methodId contents.length ++ contents

variable {streamWriter}

/-- Without tracing: whether each stream leaves the call partly sent, and what is written. -/
def SendStream.send (streamWriter : StreamWriter ω) (stream : SendStream ω) : Bool × ω :=
  stream.serialization.Serialize streamWriter stream.writer

/-- With tracing: when the writer is released the serialization is done. -/
def SendStream.sendTraced (streamWriter : StreamWriter ω) (services : List ServiceTracer)
    (stream : SendStream ω) (helper : Helper) : (Bool × ω) × Helper :=
  let (partlySent, writer, helper) :=
    stream.serialization.Serialize (tracingWriter streamWriter) (stream.writer, helper)
  ((partlySent, writer), helper.SerializationDone services)

/-- The streams one after the other. -/
def sendStreamsTraced (streamWriter : StreamWriter ω) (services : List ServiceTracer) :
    List (SendStream ω) → Helper → List (Bool × ω) × Helper
  | [], helper => ([], helper)
  | stream :: streams, helper =>
    let (written, helper) := stream.sendTraced streamWriter services helper
    let (rest, helper) := sendStreamsTraced streamWriter services streams helper
    (written :: rest, helper)

def streams (calls : List (Call streamWriter)) : List (SendStream ω) := calls.flatMap (·.streams)

def throughHeader (length : Nat) : Nat → List Bytes → Nat
  | sent, [] => sent
  | sent, bytes :: rest =>
    if length ≤ sent + bytes.length then sent + bytes.length
    else throughHeader length (sent + bytes.length) rest

namespace Call

variable (services : List ServiceTracer) (call : Call streamWriter)

def header : Bytes := TracingEcho.header call.serviceId call.methodId call.contents.length

def wire : Bytes := call.header ++ call.contents

/-- The tracer of the service, if there is one, reads all of the contents, as the generated
tracers do for the methods of their service. -/
def Reads : Prop :=
  ∀ service, Helper.FindService services call.serviceId = some service →
    service.TraceMethod call.methodId call.contents = (call.contents.length, false)

/-- Printed with its own service id, method id and contents, or as too big. -/
def Traced (trace : Trace) : Prop :=
  if call.wire.length ≤ maxSize then
    trace = match Helper.FindService services call.serviceId with
      | some _ => .method call.serviceId call.methodId call.contents
      | none => .unknownService call.serviceId call.methodId
  else
    ∃ available, trace =
      .tooBig call.serviceId call.methodId (UInt32.ofNat call.contents.length) available

/-- Both ids and the length have a place on the wire. -/
structure Parsable : Prop where
  method : call.methodId.toNat < 2 ^ 29
  length : call.contents.length < 2 ^ 32
  reads : call.Reads services

/-- The buffer has room for the call, or for all that is sent of it with the stream that
completes its header. -/
structure Traceable : Prop extends call.Parsable services where
  room : call.wire.length ≤ maxSize ∨
    throughHeader call.header.length 0 (call.streams.map (·.bytes streamWriter)) ≤ maxSize

end Call

end TracingEcho
