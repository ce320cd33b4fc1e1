import EmbeddedInfra.Echo.TracingEcho
import Mathlib.Data.List.Forall2

/-! Tracing an echo leaves what is sent as it is, and traces each call once, as long as no byte
of a call that is too big is lost to a full buffer before its header is complete. -/

namespace TracingEcho

open Proto StreamReader List

variable {ω : Type} {streamWriter : StreamWriter ω}

/-! ### What is written -/

@[simp] theorem insert_nil (helper : Helper) : helper.Insert [] = helper := by
  simp [Helper.Insert]

theorem insert_append (helper : Helper) (first second : Bytes) :
    (helper.Insert first).Insert second = helper.Insert (first ++ second) := by
  have skips : helper.skipping - min helper.skipping first.length =
      helper.skipping - first.length := by omega
  have room : maxSize - (helper.writerBuffer.length +
      min (maxSize - helper.writerBuffer.length) (first.length - helper.skipping)) =
        maxSize - helper.writerBuffer.length - (first.length - helper.skipping) := by omega
  simp only [Helper.Insert, Helper.mk.injEq, and_true, length_append, length_take,
    length_drop, skips, room, drop_append, take_append, append_assoc, true_and]
  omega

theorem serialize_traced (serialization : Serialization) (writer : ω) (helper : Helper) :
    serialization.Serialize (tracingWriter streamWriter) (writer, helper) =
      ((serialization.Serialize streamWriter writer).1,
        (serialization.Serialize streamWriter writer).2,
        helper.Insert (serialization.inserted streamWriter writer)) := by
  induction serialization generalizing writer helper with
  | finish partlySent => simp [Serialization.Serialize, Serialization.inserted]
  | insert range next ih =>
    simp only [Serialization.Serialize, Serialization.inserted, tracingWriter]
    rw [← insert_append]
    exact ih _ _ _
  | available next ih | constructSaveMarker next ih | getProcessedBytesSince marker next ih =>
    exact ih _ _ _

theorem sendTraced_eq (services : List ServiceTracer) (stream : SendStream ω) (helper : Helper) :
    stream.sendTraced streamWriter services helper = (stream.send streamWriter,
      (helper.Insert (stream.bytes streamWriter)).SerializationDone services) := by
  simp only [SendStream.sendTraced, serialize_traced]
  rfl

/-! ### Parsing a part of a call -/

/-- A stream of which nothing has failed, all of which is available. -/
structure Intact (input : StreamReader) : Prop where
  ok : input.failed = false
  available : input.Available = input.input.length

theorem parser_intact {bytes : Bytes} (short : bytes.length < 2 ^ 32) :
    Intact (Parser { input := bytes }) := by
  refine ⟨rfl, ?_⟩
  simp only [Parser, Available, availableOf, StreamReader.limited, Nat.mod_eq_of_lt short, min_self]

variable {input : StreamReader} {missing : Bytes} {methodId : UInt32} {length : Nat}
  {services : List ServiceTracer} {helper : Helper}

theorem Intact.advance (intact : Intact input) {count : Nat} (inside : count ≤ input.input.length) :
    Intact (input.advance count) where
  ok := intact.ok
  available := by
    rw [available_advance (intact.available ▸ inside), intact.available, StreamReader.advance,
      length_drop]

theorem varIntLoop_short (left : Nat) (input : StreamReader) (result : UInt64) (byte : UInt8)
    (shift : Nat) {value : Nat} (intact : Intact input)
    (starts : input.input ++ missing = varIntBytes value) (short : missing ≠ []) (passes : 0 < left)
    (small : value < 2 ^ (7 * left)) :
    (varIntLoop input result byte shift left).2.failed = true := by
  induction left generalizing input result byte shift value with
  | zero => exact absurd passes (lt_irrefl 0)
  | succ left ih =>
    cases bytes : input.input with
    | nil =>
      have extracted : (input.Extract 1).2.failed = true := by simp [Extract, bytes]
      simp [varIntLoop, extracted]
    | cons first rest =>
      have some : 0 < input.Available := by simp [intact.available, bytes]
      rw [bytes, cons_append] at starts
      have large : ¬ value < 128 := by
        intro final
        rw [varIntBytes_small final, List.cons.injEq, append_eq_nil_iff] at starts
        exact short starts.2.2
      rw [varIntBytes_large large, List.cons.injEq] at starts
      obtain ⟨high, more⟩ := high_bits large small
      have continues : 128 ≤ first.toNat := by
        rw [starts.1, UInt8.toNat_ofNat']
        omega
      have next : (input.advance 1).input = rest := by
        rw [StreamReader.advance, bytes]
        rfl
      rw [varIntLoop_step _ _ _ _ _ bytes some intact.ok, if_pos continues]
      exact ih _ _ _ _ (intact.advance (by simp [bytes])) (by rw [next]; exact starts.2) more high

theorem getVarInt_short {value : UInt64} (intact : Intact input)
    (starts : input.input ++ missing = varIntBytes value.toNat) (short : missing ≠ []) :
    (GetVarInt input).2.failed = true :=
  varIntLoop_short 10 input 0 0 0 intact starts short (by decide)
    (value.toNat_lt.trans (by decide))

theorem getPartialField_failed (failed : (GetVarInt input).2.failed = true) :
    (Helper.GetPartialField input).2.1.failed = true := by
  simp only [Helper.GetPartialField]
  split
  · exact getPartialValue_failed _ _ _ failed
  · exact failed

theorem methodTag (small : methodId.toNat < 2 ^ 29) :
    ((methodId <<< 3) ||| 2).toNat = methodId.toNat * 8 + 2 := by
  have bits := Nat.two_pow_add_eq_or_of_lt (i := 3) (show 2 < 2 ^ 3 by decide) methodId.toNat
  rw [UInt32.toNat_or, UInt32.toNat_shiftLeft, Nat.shiftLeft_eq]
  simp only [UInt32.toNat_ofNat, Nat.reduceMod, Nat.reducePow] at bits ⊢
  rw [Nat.mod_eq_of_lt (by omega), Nat.mul_comm, ← bits]

theorem methodTag_type (small : methodId.toNat < 2 ^ 29) : ((methodId <<< 3) ||| 2) &&& 7 = 2 := by
  have low := Nat.and_two_pow_sub_one_eq_mod (methodId.toNat * 8 + 2) 3
  refine UInt32.toNat_inj.mp ?_
  rw [UInt32.toNat_and, methodTag small]
  simp only [UInt32.toNat_ofNat, Nat.reduceMod, Nat.reducePow, Nat.reduceSub] at low ⊢
  rw [low]
  omega

theorem methodTag_number (small : methodId.toNat < 2 ^ 29) :
    ((methodId <<< 3) ||| 2) >>> 3 = methodId := by
  refine UInt32.toNat_inj.mp ?_
  rw [UInt32.toNat_shiftRight, methodTag small, Nat.shiftRight_eq_div_pow]
  simp only [UInt32.toNat_ofNat, Nat.reduceMod, Nat.reducePow]
  omega

theorem getPartialField_method {more : Bytes} (small : methodId.toNat < 2 ^ 29)
    (fits : length < 2 ^ 32) (intact : Intact input)
    (starts : input.input =
      varIntBytes ((methodId <<< 3) ||| 2).toNat ++ (varIntBytes length ++ more)) :
    Helper.GetPartialField input = ((.lengthDelimited (UInt32.ofNat length), methodId),
      input.advance ((varIntBytes ((methodId <<< 3) ||| 2).toNat).length +
        (varIntBytes length).length), false) := by
  have tag := @getVarInt_spec _ _ ((methodId <<< 3) ||| 2).toUInt64
    (by rw [UInt32.toNat_toUInt64]; exact starts)
    (by rw [UInt32.toNat_toUInt64, intact.available, starts]; simp) intact.ok
  rw [UInt32.toNat_toUInt64] at tag
  have size : (UInt64.ofNat length).toNat = length := by
    rw [UInt64.toNat_ofNat']
    omega
  have narrowed : (UInt64.ofNat length).toUInt32 = UInt32.ofNat length := by
    refine UInt32.toNat_inj.mp ?_
    rw [UInt64.toNat_toUInt32, size, UInt32.toNat_ofNat']
  have tagged := starts_advance starts
  have next := intact.advance
    (show (varIntBytes ((methodId <<< 3) ||| 2).toNat).length ≤ input.input.length by simp [starts])
  have read := @getVarInt_spec more _ (UInt64.ofNat length)
    (by rw [size]; exact tagged) (by rw [size, next.available, tagged]; simp) next.ok
  rw [size, advance_advance] at read
  simp only [Helper.GetPartialField, tag, UInt32.toUInt32_toUInt64, methodTag_type small,
    methodTag_number small]
  simp only [GetPartialValue, read, narrowed]
  rfl

theorem getVarInt_part (value : UInt64) {after : Bytes} (intact : Intact input)
    (starts : input.input ++ missing = varIntBytes value.toNat ++ after) :
    (GetVarInt input).2.failed = true ∨ ∃ next, GetVarInt input = (value, next) ∧ Intact next ∧
      next.input ++ missing = after := by
  rcases append_eq_append_iff.mp starts with ⟨lost, number, rest⟩ | ⟨bytes, number, rest⟩
  · by_cases whole : lost = []
    · subst whole
      rw [append_nil] at number
      right
      refine ⟨input.advance input.input.length, ?_, intact.advance le_rfl, ?_⟩
      · have read := @getVarInt_spec [] _ value
          (by rw [number, append_nil]) (by rw [intact.available, number]) intact.ok
        rw [read, number]
      · simpa [StreamReader.advance] using rest
    · left
      exact getVarInt_short intact number.symm whole
  · right
    have inside : (varIntBytes value.toNat).length ≤ input.input.length := by simp [number]
    refine ⟨_, getVarInt_spec number (by rw [intact.available]; exact inside) intact.ok,
      intact.advance inside, ?_⟩
    rw [starts_advance number, rest]

theorem parse_short {serviceId : UInt32} {bytes : Bytes} (small : methodId.toNat < 2 ^ 29)
    (fits : length < 2 ^ 32) (inside : bytes.length < 2 ^ 32)
    (starts : bytes ++ missing = header serviceId methodId length) (short : missing ≠ []) :
    (Helper.GetPartialField (GetVarInt (Parser { input := bytes })).2).2.1.failed = true := by
  have size : (UInt64.ofNat length).toNat = length := by
    rw [UInt64.toNat_ofNat']
    omega
  rw [header, append_assoc, ← UInt32.toNat_toUInt64 serviceId,
    ← UInt32.toNat_toUInt64 ((methodId <<< 3) ||| 2), ← size] at starts
  obtain failed | ⟨afterService, service, intact, starts⟩ :=
    getVarInt_part _ (parser_intact inside) starts
  · exact getPartialField_failed (getVarInt_failed _ failed)
  rw [service]
  obtain failed | ⟨afterTag, tag, intact, starts⟩ := getVarInt_part _ intact starts
  · exact getPartialField_failed failed
  rw [← append_nil (varIntBytes _)] at starts
  have lengthFailed : (GetVarInt afterTag).2.failed = true := by
    obtain failed | ⟨afterLength, -, -, none⟩ := getVarInt_part _ intact starts
    · exact failed
    · exact absurd (append_eq_nil_iff.mp none).2 short
  simp only [Helper.GetPartialField, tag, UInt32.toUInt32_toUInt64, methodTag_type small]
  exact lengthFailed

theorem parse_header {serviceId : UInt32} {contents : Bytes} (small : methodId.toNat < 2 ^ 29)
    (fits : length < 2 ^ 32)
    (inside : (header serviceId methodId length ++ contents).length < 2 ^ 32) :
    ∃ parser stream,
      GetVarInt (Parser { input := header serviceId methodId length ++ contents }) =
        (serviceId.toUInt64, parser) ∧
      parser.input = varIntBytes ((methodId <<< 3) ||| 2).toNat ++ (varIntBytes length ++ contents) ∧
      Helper.GetPartialField parser =
        ((.lengthDelimited (UInt32.ofNat length), methodId), stream, false) ∧
      stream.input = contents ∧ Intact stream := by
  have intact := parser_intact inside
  have starts : (Parser { input := header serviceId methodId length ++ contents }).input =
      varIntBytes serviceId.toUInt64.toNat ++
        (varIntBytes ((methodId <<< 3) ||| 2).toNat ++ (varIntBytes length ++ contents)) := by
    rw [UInt32.toNat_toUInt64]
    simp [Parser, StreamReader.limited, header]
  have service := getVarInt_spec starts (by rw [intact.available, starts]; simp) intact.ok
  have after := starts_advance starts
  have next := intact.advance
    (show (varIntBytes serviceId.toUInt64.toNat).length ≤ _ by rw [starts]; simp)
  have field := getPartialField_method small fits next after
  refine ⟨_, _, service, after, field, ?_, next.advance (by rw [after]; simp)⟩
  rw [← length_append, ← append_assoc] at *
  exact starts_advance (by rw [after, append_assoc])

/-! ### Tracing one message -/

section Message

variable {services : List ServiceTracer} {call : Call streamWriter} {helper : Helper}

def tracedAs (services : List ServiceTracer) (call : Call streamWriter) : Trace :=
  match Helper.FindService services call.serviceId with
  | some _ => .method call.serviceId call.methodId call.contents
  | none => .unknownService call.serviceId call.methodId

theorem length_contents (parsable : call.Parsable services) :
    (UInt32.ofNat call.contents.length).toNat = call.contents.length := by
  rw [UInt32.toNat_ofNat']
  exact Nat.mod_eq_of_lt parsable.length

theorem traceOneMessage_short {missing : Bytes} (parsable : call.Parsable services)
    (inside : helper.writerBuffer.length ≤ maxSize)
    (starts : helper.writerBuffer ++ missing = call.header) (short : missing ≠ []) :
    helper.TraceOneMessage services = none := by
  have failed := parse_short parsable.method parsable.length (inside.trans_lt (by decide)) starts short
  simp only [Helper.TraceOneMessage]
  rw [if_pos failed]

theorem sendingMethod_eq (reads : call.Reads services) :
    Helper.SendingMethod services call.serviceId call.methodId call.contents =
      ([tracedAs services call], call.contents.length, false) := by
  rw [Helper.SendingMethod, tracedAs]
  cases found : Helper.FindService services call.serviceId with
  | none => rfl
  | some service => simp only [reads service found]

theorem traceFullMessage_eq (parsable : call.Parsable services) (inside : call.wire.length ≤ maxSize) :
    helper.TraceFullMessage services call.serviceId
        (varIntBytes ((call.methodId <<< 3) ||| 2).toNat ++
          (varIntBytes call.contents.length ++ call.contents)) =
      { helper with
        writerBuffer := []
        traces := helper.traces ++ [tracedAs services call] } := by
  have below : (varIntBytes ((call.methodId <<< 3) ||| 2).toNat ++
      (varIntBytes call.contents.length ++ call.contents)).length < 2 ^ 32 := by
    have small : maxSize < 2 ^ 32 := by decide
    simp only [Call.wire, Call.header, header, length_append] at inside ⊢
    omega
  have intact := parser_intact below
  have field := getPartialField_method parsable.method parsable.length intact rfl
  have message := intact.advance (show (varIntBytes ((call.methodId <<< 3) ||| 2).toNat).length +
    (varIntBytes call.contents.length).length ≤ _ by simp [Parser, StreamReader.limited])
  have left : ((Parser { input := varIntBytes ((call.methodId <<< 3) ||| 2).toNat ++
      (varIntBytes call.contents.length ++ call.contents) }).advance
        ((varIntBytes ((call.methodId <<< 3) ||| 2).toNat).length +
          (varIntBytes call.contents.length).length)).input = call.contents := by
    rw [← length_append]
    exact starts_advance (by simp [Parser, StreamReader.limited])
  simp only [Helper.TraceFullMessage, field, message.ok, message.available, left,
    length_contents parsable, take_length, sendingMethod_eq parsable.reads, lt_irrefl,
    decide_false, Bool.or_false, drop_length]
  simp

theorem traceOneMessage_full (parsable : call.Parsable services)
    (inside : call.wire.length ≤ maxSize) (buffer : helper.writerBuffer = call.wire) :
    helper.TraceOneMessage services = some { helper with
      writerBuffer := []
      traces := helper.traces ++ [tracedAs services call] } := by
  obtain ⟨parser, stream, service, save, field, left, intact⟩ :=
    parse_header parsable.method parsable.length (inside.trans_lt (by decide))
  rw [Call.wire, Call.header] at buffer
  simp only [Helper.TraceOneMessage, buffer, service, field, intact.ok, left,
    length_contents parsable, lt_irrefl, save, UInt32.toUInt32_toUInt64,
    traceFullMessage_eq parsable inside]
  rfl

theorem traceOneMessage_part {received : Bytes} (parsable : call.Parsable services)
    (less : received.length < call.contents.length) (room : helper.writerBuffer.length ≤ maxSize)
    (buffer : helper.writerBuffer = call.header ++ received) :
    helper.TraceOneMessage services =
      if call.wire.length ≤ maxSize then none
      else some
        { writerBuffer := []
          skipping := call.contents.length - received.length
          traces := helper.traces ++
            [.tooBig call.serviceId call.methodId (UInt32.ofNat call.contents.length)
              received.length] } := by
  have whole : call.contents.length ≤ maxSize - helper.writerBuffer.length + received.length ↔
      call.wire.length ≤ maxSize := by
    rw [buffer, length_append] at room
    rw [buffer, Call.wire, length_append, length_append]
    omega
  have inside : (call.header ++ received).length < 2 ^ 32 := by
    rw [← buffer]
    exact room.trans_lt (by decide)
  obtain ⟨parser, stream, service, save, field, left, intact⟩ :=
    parse_header parsable.method parsable.length inside
  rw [buffer] at whole
  rw [Call.header] at buffer whole
  simp only [Helper.TraceOneMessage, buffer, service, field, intact.ok, left,
    length_contents parsable, if_pos less, whole, UInt32.toUInt32_toUInt64,
    min_eq_right less.le, drop_length]
  rfl

end Message

/-! ### Serialization done -/

section Streams

variable {services : List ServiceTracer} {call : Call streamWriter} {helper next : Helper}

theorem serializationDone_nil (empty : helper.writerBuffer = []) :
    helper.SerializationDone services = helper := by
  rw [Helper.SerializationDone, empty]
  rfl

theorem serializationDone_waits (waits : helper.TraceOneMessage services = none) :
    helper.SerializationDone services = helper := by
  rw [Helper.SerializationDone]
  cases helper.writerBuffer.length with
  | zero => rfl
  | succ left => simp only [Helper.traceMessages, waits, ite_self]

theorem serializationDone_one (some : helper.writerBuffer ≠ [])
    (traces : helper.TraceOneMessage services = Option.some next) (empty : next.writerBuffer = []) :
    helper.SerializationDone services = next := by
  rw [Helper.SerializationDone]
  cases length : helper.writerBuffer.length with
  | zero => exact absurd (eq_nil_of_length_eq_zero length) some
  | succ left =>
    rw [Helper.traceMessages, if_neg some, traces]
    cases left with
    | zero => rfl
    | succ left => simp [Helper.traceMessages, empty]

/-! ### One stream -/

/-- What the helper knows when these bytes of a call are sent: all of them, while it waits for
more, or how many will follow. -/
inductive InStep (services : List ServiceTracer) (call : Call streamWriter) (before : List Trace) :
    Bytes → Helper → Prop
  | waits (sent rest : Bytes) (starts : sent ++ rest = call.wire) (more : rest ≠ [])
      (room : call.wire.length ≤ maxSize ∨ sent.length < call.header.length) :
      InStep services call before sent { writerBuffer := sent, traces := before }
  | traced (sent rest : Bytes) (trace : Trace) (starts : sent ++ rest = call.wire)
      (isTraced : call.Traced services trace) :
      InStep services call before sent { skipping := rest.length, traces := before ++ [trace] }

theorem header_pos (call : Call streamWriter) : 0 < call.header.length := by
  have first := length_varIntBytes_pos call.serviceId.toNat
  simp only [Call.header, header, length_append]
  omega

theorem inStep_start (call : Call streamWriter) (before : List Trace) :
    InStep services call before [] { traces := before } := by
  refine .waits [] call.wire rfl ?_ (.inr (header_pos call))
  have some := header_pos call
  intro none
  rw [Call.wire, append_eq_nil_iff] at none
  rw [none.1] at some
  exact lt_irrefl 0 some

variable {before : List Trace} {rest sent : Bytes}

theorem inStep_end (inStep : InStep services call before call.wire helper) :
    ∃ trace, call.Traced services trace ∧ helper = { traces := before ++ [trace] } := by
  cases inStep with
  | waits rest starts more => exact absurd (append_right_eq_self.mp starts) more
  | traced rest trace starts isTraced =>
    have none : rest = [] := append_right_eq_self.mp starts
    subst none
    exact ⟨trace, isTraced, rfl⟩

theorem serializationDone_header {received : Bytes} (parsable : call.Parsable services)
    (after : call.contents = received ++ rest) (room : (call.header ++ received).length ≤ maxSize) :
    InStep services call before (call.header ++ received) (Helper.SerializationDone services
      { writerBuffer := call.header ++ received, traces := before }) := by
  have starts : call.header ++ received ++ rest = call.wire := by
    rw [Call.wire, after, append_assoc]
  have some : call.header ++ received ≠ [] := by
    intro none
    have header := header_pos call
    rw [(append_eq_nil_iff.mp none).1] at header
    exact lt_irrefl 0 header
  by_cases whole : rest = []
  · subst whole
    rw [append_nil] at starts
    rw [starts] at room some ⊢
    rw [serializationDone_one some (traceOneMessage_full parsable room rfl) rfl]
    refine .traced call.wire [] (tracedAs services call) (append_nil _) ?_
    rw [Call.Traced, if_pos room]
    rfl
  · have less : received.length < call.contents.length := by
      have left := length_pos_of_ne_nil whole
      rw [after, length_append]
      omega
    have message : Helper.TraceOneMessage services
        { writerBuffer := call.header ++ received, traces := before } = _ :=
      traceOneMessage_part parsable less room rfl
    by_cases fits : call.wire.length ≤ maxSize
    · rw [if_pos fits] at message
      rw [serializationDone_waits message]
      exact .waits _ rest starts whole (.inl fits)
    · rw [if_neg fits] at message
      rw [serializationDone_one some message rfl]
      have follows : call.contents.length - received.length = rest.length := by
        rw [after, length_append, Nat.add_sub_cancel_left]
      rw [follows]
      refine .traced _ rest _ starts ?_
      rw [Call.Traced, if_neg fits]
      exact ⟨_, rfl⟩

theorem serializationDone_inStep (parsable : call.Parsable services)
    (starts : sent ++ rest = call.wire) (room : sent.length ≤ maxSize) :
    InStep services call before sent
      (Helper.SerializationDone services { writerBuffer := sent, traces := before }) := by
  rcases append_eq_append_iff.mp starts with ⟨missing, short, after⟩ | ⟨received, long, after⟩
  · by_cases complete : missing = []
    · subst complete
      rw [append_nil] at short
      rw [← short, ← append_nil call.header] at room ⊢
      exact serializationDone_header parsable after.symm room
    · rw [serializationDone_waits (traceOneMessage_short parsable room short.symm complete)]
      refine .waits sent rest starts ?_ (.inr ?_)
      · rw [after]
        simp [complete]
      · rw [short, length_append]
        have left := length_pos_of_ne_nil complete
        omega
  · rw [long] at room ⊢
    exact serializationDone_header parsable after room

theorem inStep_stream {bytes : Bytes} (parsable : call.Parsable services)
    (inStep : InStep services call before sent helper) (starts : sent ++ bytes ++ rest = call.wire)
    (room : call.wire.length ≤ maxSize ∨ call.header.length ≤ sent.length ∨
      (sent ++ bytes).length ≤ maxSize) :
    InStep services call before (sent ++ bytes) ((helper.Insert bytes).SerializationDone services) := by
  cases inStep with
  | waits more prefixed some waits =>
    have inside : (sent ++ bytes).length ≤ maxSize := by
      have whole := congrArg List.length starts
      rw [length_append] at whole
      omega
    have inserted : Helper.Insert bytes { writerBuffer := sent, traces := before } =
        { writerBuffer := sent ++ bytes, traces := before } := by
      rw [length_append] at inside
      have all : bytes.take (maxSize - sent.length) = bytes :=
        take_of_length_le (by omega)
      simp [Helper.Insert, all]
    rw [inserted]
    exact serializationDone_inStep parsable starts inside
  | traced follows trace prefixed isTraced =>
    have same : follows = bytes ++ rest := by
      rw [← prefixed, append_assoc] at starts
      exact (append_cancel_left starts).symm
    have inserted : Helper.Insert bytes { skipping := follows.length, traces := before ++ [trace] } =
        { skipping := rest.length, traces := before ++ [trace] } := by
      simp [Helper.Insert, same]
    rw [inserted, serializationDone_nil rfl]
    exact .traced _ rest trace starts isTraced

/-! ### The streams of a call -/

def feed (services : List ServiceTracer) (helper : Helper) (pieces : List Bytes) : Helper :=
  pieces.foldl (fun helper bytes => (helper.Insert bytes).SerializationDone services) helper

theorem feed_append (first second : List Bytes) :
    feed services helper (first ++ second) = feed services (feed services helper first) second :=
  foldl_append

theorem le_throughHeader (length sent : Nat) (pieces : List Bytes) :
    sent ≤ throughHeader length sent pieces := by
  induction pieces generalizing sent with
  | nil => exact le_rfl
  | cons bytes rest ih =>
    rw [throughHeader]
    split
    · omega
    · exact (Nat.le_add_right sent bytes.length).trans (ih _)

theorem inStep_feed {pieces : List Bytes} (parsable : call.Parsable services)
    (inStep : InStep services call before sent helper) (starts : sent ++ pieces.flatten = call.wire)
    (room : call.wire.length ≤ maxSize ∨ call.header.length ≤ sent.length ∨
      throughHeader call.header.length sent.length pieces ≤ maxSize) :
    InStep services call before call.wire (feed services helper pieces) := by
  induction pieces generalizing sent helper with
  | nil =>
    rw [flatten_nil, append_nil] at starts
    rw [← starts]
    exact inStep
  | cons bytes rest ih =>
    rw [flatten_cons, ← append_assoc] at starts
    have least := le_throughHeader call.header.length (sent.length + bytes.length) rest
    rw [throughHeader] at room
    rw [feed, foldl_cons]
    refine ih (inStep_stream parsable inStep starts ?_) starts ?_ <;> rw [length_append]
    · split at room <;> omega
    · split at room <;> omega

theorem feed_call (traceable : call.Traceable services) (before : List Trace) :
    ∃ trace, call.Traced services trace ∧
      feed services { traces := before } (call.streams.map (·.bytes streamWriter)) =
        { traces := before ++ [trace] } := by
  refine inStep_end (inStep_feed traceable.toParsable (inStep_start call before) ?_ ?_)
  · rw [nil_append, ← flatMap_def]
    exact call.sent
  · exact traceable.room.imp_right .inr

/-! ### Runs -/

theorem sendStreamsTraced_eq (services : List ServiceTracer) (sendStreams : List (SendStream ω))
    (helper : Helper) :
    sendStreamsTraced streamWriter services sendStreams helper =
      (sendStreams.map (·.send streamWriter),
        feed services helper (sendStreams.map (·.bytes streamWriter))) := by
  induction sendStreams generalizing helper with
  | nil => rfl
  | cons stream rest ih =>
    simp only [sendStreamsTraced, sendTraced_eq, ih]
    rfl

theorem feed_calls (calls : List (Call streamWriter))
    (traceable : ∀ call ∈ calls, call.Traceable services) (before : List Trace) :
    ∃ traces, List.Forall₂ (fun call trace => call.Traced services trace) calls traces ∧
      feed services { traces := before } ((streams calls).map (·.bytes streamWriter)) =
        { traces := before ++ traces } := by
  induction calls generalizing before with
  | nil => exact ⟨[], .nil, by rw [append_nil]; rfl⟩
  | cons call calls ih =>
    rw [forall_mem_cons] at traceable
    obtain ⟨trace, isTraced, first⟩ := feed_call traceable.1 before
    obtain ⟨traces, areTraced, rest⟩ := ih traceable.2 (before ++ [trace])
    refine ⟨trace :: traces, .cons isTraced areTraced, ?_⟩
    rw [streams, flatMap_cons, map_append, feed_append, first]
    rw [streams] at rest
    rw [rest, append_assoc, singleton_append]

end Streams

/-- Tracing leaves what each stream writes, and whether it leaves its call partly sent, as it is.
Calls that are traceable are each traced once and in order, and leave nothing behind. -/
theorem traces_calls (services : List ServiceTracer) (calls : List (Call streamWriter)) :
    (sendStreamsTraced streamWriter services (streams calls) {}).1 =
        (streams calls).map (·.send streamWriter) ∧
      ((∀ call ∈ calls, call.Traceable services) → ∃ traces,
        (sendStreamsTraced streamWriter services (streams calls) {}).2 = { traces } ∧
          List.Forall₂ (fun call trace => call.Traced services trace) calls traces) := by
  rw [sendStreamsTraced_eq]
  refine ⟨rfl, fun traceable => ?_⟩
  obtain ⟨traces, areTraced, helper⟩ := feed_calls calls traceable []
  exact ⟨traces, helper, areTraced⟩

/-! ### A call that is too big, in one stream -/

def memoryWriter : StreamWriter Bytes where
  Insert range writer := (writer ++ range, true)
  Available writer := 2 ^ 16 - writer.length
  ConstructSaveMarker writer := writer.length
  GetProcessedBytesSince marker writer := writer.length - marker

/-- A serializer that inserts these bytes, and whether it has more. -/
def sendStream (bytes : Bytes) (partlySent : Bool) : SendStream Bytes :=
  ⟨[], .insert bytes fun _ => .finish partlySent⟩

theorem bytes_sendStream (bytes : Bytes) (partlySent : Bool) :
    (sendStream bytes partlySent).bytes memoryWriter = bytes := append_nil bytes

variable (first : Nat)

/-- Method 1 of service 1, with more contents than the buffer has room for, in two streams. -/
def largeCall : Call memoryWriter where
  serviceId := 1
  methodId := 1
  contents := List.replicate 1100 0
  streams := [sendStream ((header 1 1 1100 ++ List.replicate 1100 0).take first) true,
    sendStream ((header 1 1 1100 ++ List.replicate 1100 0).drop first) false]
  sent := by
    simp only [flatMap_cons, flatMap_nil, bytes_sendStream, append_nil,
      take_append_drop, length_replicate]

def smallCall : Call memoryWriter where
  serviceId := 1
  methodId := 2
  contents := [5]
  streams := [sendStream (header 1 2 1 ++ [5]) false]
  sent := by simp [bytes_sendStream]

theorem length_largeCall : (largeCall first).contents.length = 1100 :=
  length_replicate

theorem header_largeCall : (largeCall first).header = [1, 10, 204, 8] := by
  rw [Call.header, length_largeCall]
  change header 1 1 1100 = _
  simp [header, varIntBytes]

theorem wire_largeCall : (largeCall first).wire = [1, 10, 204, 8] ++ List.replicate 1100 0 := by
  rw [Call.wire, header_largeCall]
  rfl

theorem bytes_largeCall : (largeCall first).streams.map (·.bytes memoryWriter) =
    [(largeCall first).wire.take first, (largeCall first).wire.drop first] := by
  have wire : (largeCall first).wire = header 1 1 1100 ++ List.replicate 1100 0 := by
    rw [Call.wire, Call.header, length_largeCall]
    rfl
  rw [wire]
  simp only [largeCall, map_cons, map_nil, bytes_sendStream]

theorem wire_smallCall : smallCall.wire = [1, 18, 1, 5] := by
  simp [Call.wire, Call.header, smallCall, header, varIntBytes]

theorem bytes_smallCall : smallCall.streams.map (·.bytes memoryWriter) = [smallCall.wire] := by
  simp only [smallCall, map_cons, map_nil, bytes_sendStream]
  rfl

theorem parsable_largeCall : (largeCall first).Parsable [] :=
  ⟨show UInt32.toNat 1 < 2 ^ 29 by decide, by rw [length_largeCall]; decide, nofun⟩

theorem parsable_smallCall : smallCall.Parsable [] := ⟨by decide, by decide, nofun⟩

/-- A large call of which the first stream carries 500 bytes, and a small one. -/
theorem traces_calls_two : ∃ traces,
    (sendStreamsTraced memoryWriter [] (streams [largeCall 500, smallCall]) {}).2 = { traces } ∧
      List.Forall₂ (fun call trace => call.Traced [] trace) [largeCall 500, smallCall] traces := by
  refine (traces_calls [] [largeCall 500, smallCall]).2 ?_
  rw [forall_mem_cons, forall_mem_singleton]
  constructor
  · refine ⟨parsable_largeCall 500, .inr ?_⟩
    rw [bytes_largeCall, header_largeCall, wire_largeCall]
    simp only [throughHeader, length_take, length_append, length_replicate,
      length_cons, length_nil]
    decide
  · refine ⟨parsable_smallCall, .inl ?_⟩
    rw [wire_smallCall]
    decide

theorem feed_largeCall : feed [] {} ((largeCall 1060).streams.map (·.bytes memoryWriter)) =
    { skipping := 36, traces := [.tooBig 1 1 1100 1020] } := by
  have start : (largeCall 1060).header ++ List.replicate 1020 0 =
      [1, 10, 204, 8] ++ List.replicate 1020 0 := by rw [header_largeCall]
  have first : Helper.Insert ((largeCall 1060).wire.take 1060) {} =
      { writerBuffer := (largeCall 1060).header ++ List.replicate 1020 0 } := by
    rw [start, wire_largeCall]
    simp only [Helper.Insert, drop_zero, nil_append, length_nil, take_take,
      take_append, take_replicate, Nat.zero_sub]
    rfl
  have large : ¬ (largeCall 1060).wire.length ≤ maxSize := by
    rw [wire_largeCall, length_append, length_replicate]
    decide
  have message : Helper.TraceOneMessage []
      { writerBuffer := (largeCall 1060).header ++ List.replicate 1020 0 } =
        some { skipping := 80, traces := [.tooBig 1 1 1100 1020] } := by
    rw [traceOneMessage_part (parsable_largeCall 1060)
      (by rw [length_largeCall, length_replicate]; decide)
      (by rw [start, length_append, length_replicate]; decide) rfl, if_neg large,
      length_largeCall, length_replicate]
    rfl
  have second : Helper.Insert ((largeCall 1060).wire.drop 1060)
      { skipping := 80, traces := [.tooBig 1 1 1100 1020] } =
        { skipping := 36, traces := [.tooBig 1 1 1100 1020] } := by
    have rest : ((largeCall 1060).wire.drop 1060).length = 44 := by
      rw [wire_largeCall, length_drop, length_append, length_replicate]
      rfl
    rw [Helper.Insert, drop_of_length_le (by rw [rest]; decide), length_take, rest]
    rfl
  rw [bytes_largeCall, feed, foldl_cons, first,
    serializationDone_one (by rw [start]; exact cons_ne_nil _ _) message rfl, foldl_cons,
    second]
  exact serializationDone_nil rfl

/-- The next call is not traced. -/
theorem loses_call : ¬ ∀ (services : List ServiceTracer) (calls : List (Call memoryWriter)),
    (∀ call ∈ calls, call.Parsable services) →
      List.Forall₂ (fun call trace => call.Traced services trace) calls
        (sendStreamsTraced memoryWriter services (streams calls) {}).2.traces := by
  intro all
  have traced := all [] [largeCall 1060, smallCall] (by
    rw [forall_mem_cons, forall_mem_singleton]
    exact ⟨parsable_largeCall 1060, parsable_smallCall⟩)
  have length := traced.length_eq
  have bytes : (streams [largeCall 1060, smallCall]).map (·.bytes memoryWriter) =
      (largeCall 1060).streams.map (·.bytes memoryWriter) ++ [smallCall.wire] := by
    rw [streams, flatMap_cons, map_append, flatMap_singleton, bytes_smallCall]
  simp only [sendStreamsTraced_eq, bytes, feed_append, feed_largeCall, wire_smallCall] at length
  exact absurd length (by decide)

end TracingEcho
