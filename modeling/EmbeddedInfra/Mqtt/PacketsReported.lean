import EmbeddedInfra.Mqtt.Receiving

/-! Which streams of packets the connected state takes apart as the server put them together. -/

namespace Mqtt

open Packet List StateConnected

/-! ### The fixed header -/

theorem fromBigEndian_bigEndian {n : Nat} (small : n < 65536) :
    fromBigEndian (UInt8.ofNat (n / 256)) (UInt8.ofNat (n % 256)) = n := by
  simp only [fromBigEndian, UInt8.toNat_ofNat']
  omega

theorem extractSize_last {size read shift : Nat} (stream : Bytes) (small : size < 128)
    (fits : read + size * 2 ^ shift < 2 ^ 32) :
    extractSize read shift (UInt8.ofNat size :: stream) =
      some (read + size * 2 ^ shift, stream) := by
  have value : (UInt8.ofNat size).toNat = size := by
    rw [UInt8.toNat_ofNat']
    omega
  have last : ¬ (UInt8.ofNat size).toNat > 127 := by omega
  rw [extractSize, if_neg last, value, Nat.mod_eq_of_lt fits]

variable {front back tail : Bytes} {α : Type}

theorem extractSize_of_append (more size read shift : Nat) (few : size < 128 ^ (more + 1))
    (narrow : shift + 7 * more < 256) (fits : read + size * 2 ^ shift < 2 ^ 32)
    (same : front ++ back = encodeSize more size ++ tail) :
    (extractSize read shift front = none ∧ front.length < (encodeSize more size).length) ∨
    ∃ stream, front = encodeSize more size ++ stream ∧
      extractSize read shift front = some (read + size * 2 ^ shift, stream) := by
  induction more generalizing size read shift front with
  | zero =>
    cases front with
    | nil => exact .inl ⟨rfl, by simp [encodeSize]⟩
    | cons first front =>
      simp only [encodeSize, cons_append, nil_append, List.cons.injEq] at same
      refine .inr ⟨front, by simp [encodeSize, same.1], ?_⟩
      rw [same.1, extractSize_last front (by omega) fits]
  | succ more ih =>
    cases front with
    | nil =>
      refine .inl ⟨rfl, ?_⟩
      simp only [encodeSize]
      split <;> simp
    | cons first front =>
      by_cases small : size < 128
      · simp only [encodeSize, small, if_true, cons_append, nil_append,
          List.cons.injEq] at same ⊢
        refine .inr ⟨front, by simp [same.1], ?_⟩
        rw [same.1, extractSize_last front small fits]
      · simp only [encodeSize, small, if_false, cons_append, List.cons.injEq] at same ⊢
        have value : first.toNat = size % 128 + 128 := by
          rw [same.1, UInt8.toNat_ofNat']
          omega
        have further : first.toNat > 127 := by omega
        have low : first.toNat % 128 = size % 128 := by omega
        have total : read + size % 128 * 2 ^ shift + size / 128 * 2 ^ (shift + 7) =
            read + size * 2 ^ shift := by
          calc
            _ = read + (size % 128 + 128 * (size / 128)) * 2 ^ shift := by
              rw [pow_add]
              ring
            _ = _ := by rw [Nat.mod_add_div]
        have below : read + size % 128 * 2 ^ shift < 2 ^ 32 := by omega
        have next : shift + 7 < 256 := by omega
        have rest : size / 128 < 128 ^ (more + 1) := by
          apply Nat.div_lt_of_lt_mul
          calc
            size < 128 ^ (more + 1 + 1) := few
            _ = 128 * 128 ^ (more + 1) := by rw [pow_succ, Nat.mul_comm]
        simp only [extractSize, further, if_true, low, Nat.mod_eq_of_lt below,
          Nat.mod_eq_of_lt next]
        have remaining := ih (size / 128) (read + size % 128 * 2 ^ shift) (shift + 7) rest
          (by omega) (by omega) same.2
        rw [total] at remaining
        cases remaining with
        | inl short => exact .inl ⟨short.1, by simpa using short.2⟩
        | inr whole =>
          obtain ⟨stream, split, parsed⟩ := whole
          exact .inr ⟨stream, by simp [same.1, split], parsed⟩

def Packet.type : Packet → PacketType
  | .publish .. => .publish
  | .pubAck _ => .pubAck
  | .subAck _ _ => .subAck
  | .pingResp => .pingResp

theorem extractType_header (packet : Packet) : extractType packet.header = packet.type := by
  cases packet with
  | publish dup retain packetIdentifier topic payload =>
    cases dup <;> cases retain <;> cases packetIdentifier <;>
      simp [extractType, Packet.header, Packet.type]
  | pubAck _ | subAck _ _ | pingResp => simp [extractType, Packet.header, Packet.type]

theorem mqttParser_of_append {packet : Packet} (valid : packet.Valid)
    (same : front ++ back = packet.encode ++ tail) :
    (mqttParser front = none ∧ front.length < packet.encode.length) ∨
    ∃ stream, mqttParser front = some (packet.type, packet.content.length, stream) ∧
      stream.length < front.length ∧
      front.length + packet.content.length = packet.encode.length + stream.length ∧
      stream ++ back = packet.content ++ tail := by
  cases front with
  | nil => exact .inl ⟨rfl, by simp [encode]⟩
  | cons first front =>
    simp only [encode, cons_append, append_assoc, List.cons.injEq] at same
    have size := extractSize_of_append 3 packet.content.length 0 0 (by have := valid.1; omega)
      (by omega) (by have := valid.1; omega) same.2
    simp only [Nat.zero_add, pow_zero, Nat.mul_one] at size
    cases size with
    | inl short =>
      refine .inl ⟨by simp [mqttParser, short.1], ?_⟩
      have := short.2
      simp only [encode, length_cons, length_append]
      omega
    | inr whole =>
      obtain ⟨stream, split, parsed⟩ := whole
      refine .inr ⟨stream, ?_, ?_, ?_, ?_⟩
      · simp [mqttParser, parsed, same.1, extractType_header]
      · simp [split]
      · simp only [encode, split, length_cons, length_append]
        omega
      · rw [split, append_assoc] at same
        exact append_cancel_left same.2

/-! ### Operations leave the receiving half alone -/

def StateConnected.receiving (s : StateConnected) : Bool × Nat × Bool :=
  (s.executingNotification, s.notificationPayloadSize, s.notificationWriter)

namespace StateConnected

variable (s : StateConnected)

@[simp] theorem receiving_processSendOperations :
    s.processSendOperations.receiving = s.receiving := by
  obtain ⟨_, _, same⟩ := processSendOperations_frame s
  rw [same]
  rfl

@[simp] theorem receiving_queueSendOperation (operation : Operation) :
    (s.queueSendOperation operation).receiving = s.receiving :=
  receiving_processSendOperations _

@[simp] theorem receiving_popFrontOperation : s.popFrontOperation.receiving = s.receiving :=
  receiving_processSendOperations _

@[simp] theorem receiving_handlePingReply : s.handlePingReply.receiving = s.receiving :=
  receiving_processSendOperations _

theorem receiving_sendOperation (operation : Operation) :
    (s.sendOperation operation).1.receiving = s.receiving := by
  cases operation with
  | publish | subscribe => rfl
  | pubAck | ping => exact receiving_processSendOperations _

theorem receiving_pubAckReceived (again : Bool) :
    (s.pubAckReceived again).receiving = s.receiving := by
  have handled : (if s.sendOperations.head? = some .publish then
      popFrontOperation (if again then publish s else s) else s).receiving = s.receiving := by
    split
    · cases again <;> simp [publish]
    · rfl
  exact handled

theorem receiving_subAckReceived (again : Bool) :
    (s.subAckReceived again).receiving = s.receiving := by
  have handled : (if s.sendOperations.head? = some .subscribe then
      popFrontOperation (if again then subscribe s else s) else s).receiving = s.receiving := by
    split
    · cases again <;> simp [subscribe]
    · rfl
  exact handled

variable {t : StateConnected}

theorem receiving_sendStreamAvailable {sent : Sent}
    (available : s.sendStreamAvailable = some (t, sent)) : t.receiving = s.receiving := by
  unfold sendStreamAvailable at available
  split at available
  next => cases available
  next operation _ _ =>
    have same := receiving_sendOperation { s with streamRequested := false } operation
    simp only [Option.some.injEq, Prod.mk.injEq] at available
    rw [← available.1]
    split
    · exact same
    · exact same

theorem receiving_pingTimerExpires (expires : s.pingTimerExpires = some t) :
    t.receiving = s.receiving := by
  unfold pingTimerExpires at expires
  split at expires
  next =>
    rw [← Option.some.inj expires]
    exact receiving_queueSendOperation _ _
  next => cases expires

end StateConnected

/-! ### Between two packets, or inside a payload -/

variable (notifications : List Notification)

theorem appendToLast_nil : appendToLast notifications [] = notifications := by
  induction notifications with
  | nil => rfl
  | cons first rest ih =>
    cases rest with
    | nil => simp [appendToLast]
    | cons second rest => rw [appendToLast, ih]

theorem appendToLast_append (front back : Bytes) :
    appendToLast (appendToLast notifications front) back =
      appendToLast notifications (front ++ back) := by
  induction notifications with
  | nil => rfl
  | cons first rest ih =>
    cases rest with
    | nil => simp [appendToLast]
    | cons second rest =>
      rw [appendToLast, appendToLast, ← ih]
      cases rest with
      | nil | cons third rest => rfl

theorem appendToLast_concat (last : Notification) (range : Bytes) :
    appendToLast (notifications ++ [last]) range =
      notifications ++ [{ last with payload := last.payload ++ range }] := by
  induction notifications with
  | nil => rfl
  | cons first rest ih =>
    cases rest with
    | nil => rfl
    | cons second rest =>
      simp only [cons_append, appendToLast] at ih ⊢
      rw [ih]

theorem appendToLast_ne_nil {notifications : List Notification} {range : Bytes}
    (begun : notifications ≠ []) : appendToLast notifications range ≠ [] := by
  fun_cases appendToLast notifications range with
  | case1 => exact absurd rfl begun
  | case2 | case3 => simp

/-- The packets `done` have been read, but for the bytes `missing` of the payload of the last;
the bytes to come are those and the packets `rest`. -/
structure Between (packets : List Packet) (pending : Bytes) (r : Receiver)
    (done rest : List Packet) (missing : Bytes) : Prop where
  split : packets = done ++ rest
  position : r.unread ++ pending = missing ++ rest.flatMap encode
  size : r.client.notificationPayloadSize = missing.length
  writer : missing ≠ [] → r.client.notificationWriter = true
  begun : missing ≠ [] → r.notifications ≠ []
  reported : appendToLast r.notifications missing = done.filterMap notification
  safe : r.assertionFailed = false

theorem eq_append_of_append_eq {front back whole tail : List α}
    (same : front ++ back = whole ++ tail) (long : whole.length ≤ front.length) :
    ∃ more, front = whole ++ more ∧ more ++ back = tail := by
  rcases append_eq_append_iff.mp same with ⟨more, split, rest⟩ | ⟨more, split, rest⟩
  · have none : more = [] := by
      apply eq_nil_of_length_eq_zero
      have := congrArg List.length split
      simp only [length_append] at this
      omega
    subst none
    exact ⟨[], by simpa using split.symm, by simpa using rest⟩
  · exact ⟨more, split, rest.symm⟩

theorem drop_position {unread pending missing tail : List α}
    (position : unread ++ pending = missing ++ tail) :
    unread.drop missing.length ++ pending = missing.drop unread.length ++ tail := by
  rcases Nat.le_total unread.length missing.length with short | long
  · have after := congrArg (List.drop unread.length) position
    rw [drop_left, drop_append_of_le_length short] at after
    rw [drop_eq_nil_of_le short, nil_append, after]
  · have after := congrArg (List.drop missing.length) position
    rw [drop_left, drop_append_of_le_length long] at after
    rw [after, drop_eq_nil_of_le long, nil_append]

/-- The packet has what the code takes every packet to have: a message has an identifier, and
a payload whose size fits 16 bits. -/
def Packet.Readable : Packet → Prop
  | .publish _ _ packetIdentifier _ payload =>
    packetIdentifier.isSome = true ∧ payload.length < 65536
  | _ => True

def Packet.Refused : Packet → Prop
  | .subAck packetIdentifier returnCode => packetIdentifier ≠ 1 ∨ returnCode = 0x80
  | _ => False

/-- After packets of other kinds the bytes end in a PUBLISH, after the size of its topic and
before its payload, which is not empty. -/
def endsInTopic : Nat → Bytes → Bool
  | 0, _ => false
  | fuel + 1, unread =>
    match mqttParser unread with
    | some (.publish, packetLength, high :: low :: stream) =>
      stream.length < fromBigEndian high low + 2 && fromBigEndian high low + 4 < packetLength
    | some (.publish, _, _) => false
    | some (packetType, packetLength, stream) =>
      if packetLength ≤ stream.length ∧ ¬ (packetType = .subAck ∧ Receiver.refused stream) then
        endsInTopic fuel (stream.drop packetLength)
      else false
    | none => false

namespace Receiver

variable {packets done rest : List Packet} {pending missing : Bytes} {r : Receiver}

theorem handleNotificationData_frame (r : Receiver) :
    (handleNotificationData r).client.executingNotification = r.client.executingNotification ∧
    (handleNotificationData r).aborted = r.aborted := by
  unfold handleNotificationData
  split
  · dsimp only
    split <;> exact ⟨rfl, rfl⟩
  · exact ⟨rfl, rfl⟩

theorem between_handleNotificationData (between : Between packets pending r done rest missing)
    (writes : r.client.notificationWriter = true) :
    Between packets pending (handleNotificationData r) done rest
      (missing.drop r.unread.length) ∧
    (handleNotificationData r).unread = r.unread.drop missing.length := by
  have taken : r.unread.take missing.length = missing.take r.unread.length := by
    have common := congrArg (List.take (min missing.length r.unread.length)) between.position
    rw [take_append_of_le_length (Nat.min_le_right _ _),
      take_append_of_le_length (Nat.min_le_left _ _)] at common
    rw [take_eq_take_min, common, Nat.min_comm, ← take_eq_take_min]
  have left : r.client.notificationPayloadSize - (r.unread.take missing.length).length =
      (missing.drop r.unread.length).length := by
    rw [between.size, length_take, length_drop]
    omega
  have nonempty : missing.drop r.unread.length ≠ [] → missing ≠ [] := by
    intro more none
    rw [none, drop_nil] at more
    exact more rfl
  constructor
  · simp only [handleNotificationData, writes, if_true, between.size] at left ⊢
    refine ⟨between.split, ?_, ?_, ?_, ?_, ?_, between.safe⟩
    · exact drop_position between.position
    · dsimp only
      split
      next zero => exact left ▸ zero.symm
      next => exact left
    · intro more
      have further : ¬ missing.length - (r.unread.take missing.length).length = 0 := by
        rw [left]
        exact fun none => more (eq_nil_of_length_eq_zero none)
      simp only [further, if_false]
    · intro more
      exact appendToLast_ne_nil (between.begun (nonempty more))
    · rw [appendToLast_append, taken, take_append_drop]
      exact between.reported
  · simp [handleNotificationData, writes, between.size]

theorem between_continueNotification (between : Between packets pending r done rest missing) :
    Between packets pending r.continueNotification done rest (missing.drop r.unread.length) ∧
    r.continueNotification.unread = r.unread.drop missing.length ∧
    r.continueNotification.client.executingNotification = r.client.executingNotification ∧
    r.continueNotification.aborted = r.aborted := by
  by_cases none : missing = []
  · have same : r.continueNotification = r := by
      simp [continueNotification, between.size, none]
    rw [same, none]
    exact ⟨by simpa [none] using between, rfl, rfl, rfl⟩
  · have further : r.client.notificationPayloadSize ≠ 0 := by
      rw [between.size]
      exact fun zero => none (eq_nil_of_length_eq_zero zero)
    have same : r.continueNotification = handleNotificationData r := if_pos further
    have frame := handleNotificationData_frame r
    have step := between_handleNotificationData between (between.writer none)
    rw [same]
    exact ⟨step.1, step.2, frame.1, frame.2⟩

variable {packet : Packet}

theorem between_of_silent {t : Receiver}
    (between : Between packets pending r done (packet :: rest) [])
    (silent : packet.notification = none) (frame : t.client.receiving = r.client.receiving)
    (told : t.notifications = r.notifications) (safe : t.assertionFailed = r.assertionFailed)
    (position : t.unread ++ pending = rest.flatMap encode) :
    Between packets pending t (done ++ [packet]) rest [] := by
  simp only [receiving, Prod.mk.injEq] at frame
  refine ⟨?_, position, ?_, nofun, nofun, ?_, ?_⟩
  · rw [between.split, append_assoc, singleton_append]
  · rw [frame.2.1, between.size]
  · rw [told, between.reported]
    simp [silent]
  · rw [safe, between.safe]

/-- The packet has been taken from the stream, or is not complete, or ends the connection. -/
structure Handled (packets : List Packet) (pending : Bytes) (r : Receiver) (stream : Bytes)
    (done rest : List Packet) (packet : Packet) (result : Receiver × Bool) : Prop where
  taken : result.2 = true → ∃ missing,
    Between packets pending result.1 (done ++ [packet]) rest missing ∧
    (missing ≠ [] → result.1.unread = []) ∧
    (result.1.client.executingNotification = true ∨
      packet.notification = none ∧
      result.1.unread = stream.drop packet.content.length ∧
      packet.content.length ≤ stream.length ∧
      ¬ (packet.type = .subAck ∧ refused stream)) ∧
    result.1.unread.length ≤ stream.length ∧ result.1.aborted = r.aborted
  stays : result.2 = false →
    Between packets pending result.1 done (packet :: rest) [] ∧
    result.1.unread = r.unread ∧
    (result.1.aborted = true ∨ stream.length < packet.content.length) ∧
    (result.1.aborted = r.aborted ∨ packet.Refused)

section

variable {packet : Packet} {stream : Bytes}

theorem Handled.of_silent {t : Receiver}
    (between : Between packets pending r done (packet :: rest) [])
    (arrived : stream ++ pending = packet.content ++ rest.flatMap encode)
    (whole : packet.content.length ≤ stream.length)
    (accepted : ¬ (packet.type = .subAck ∧ refused stream)) (silent : packet.notification = none)
    (frame : t.client.receiving = r.client.receiving)
    (told : t.notifications = r.notifications) (safe : t.assertionFailed = r.assertionFailed)
    (aborted : t.aborted = r.aborted) (unread : t.unread = stream.drop packet.content.length) :
    Handled packets pending r stream done rest packet (t, true) where
  taken := by
    intro _
    obtain ⟨more, split, position⟩ := eq_append_of_append_eq arrived whole
    have left : t.unread = more := by rw [unread, split, drop_left]
    refine ⟨[], between_of_silent between silent frame told safe (left ▸ position), nofun,
      .inr ⟨silent, unread, whole, accepted⟩, ?_, aborted⟩
    rw [unread, length_drop]
    omega
  stays := nofun

theorem Handled.of_short (between : Between packets pending r done (packet :: rest) [])
    (short : stream.length < packet.content.length) :
    Handled packets pending r stream done rest packet (r, false) where
  taken := nofun
  stays := fun _ => ⟨between, rfl, .inr short, .inl rfl⟩

variable {packetIdentifier : UInt16} {dup retain : Bool} {topic payload : Bytes}

variable (again : Bytes → Bool)

theorem handled_pubAck
    (between : Between packets pending r done (.pubAck packetIdentifier :: rest) [])
    (arrived : stream ++ pending = (Packet.pubAck packetIdentifier).content ++ rest.flatMap encode) :
    Handled packets pending r stream done rest (.pubAck packetIdentifier)
      (handlePubAck again r (Packet.pubAck packetIdentifier).content.length stream) := by
  have two : 2 ≤ (Packet.pubAck packetIdentifier).content.length := by
    simp [content, bigEndian]
  unfold handlePubAck
  split
  next whole =>
    exact .of_silent between arrived whole.2 nofun rfl
      (receiving_pubAckReceived _ _) rfl rfl rfl rfl
  next short => exact .of_short between (by omega)

variable {returnCode : UInt8} {tail : Bytes}

theorem refused_of_append
    (arrived : stream ++ pending = (Packet.subAck packetIdentifier returnCode).content ++ tail)
    (refusal : refused stream = true) : (Packet.subAck packetIdentifier returnCode).Refused := by
  unfold refused at refusal
  split at refusal
  next high low code _ =>
    simp only [content, bigEndian, cons_append, nil_append, List.cons.injEq] at arrived
    have identifier : fromBigEndian high low = packetIdentifier.toNat := by
      rw [arrived.1, arrived.2.1]
      exact fromBigEndian_bigEndian packetIdentifier.toNat_lt
    simp only [Bool.or_eq_true, decide_eq_true_eq, identifier] at refusal
    apply refusal.imp
    · intro other same
      exact other (by rw [same]; rfl)
    · intro code
      rw [← arrived.2.2.1, code]
  next => cases refusal

theorem handled_subAck
    (between : Between packets pending r done (.subAck packetIdentifier returnCode :: rest) [])
    (arrived : stream ++ pending =
      (Packet.subAck packetIdentifier returnCode).content ++ rest.flatMap encode) :
    Handled packets pending r stream done rest (.subAck packetIdentifier returnCode)
      (handleSubAck again r (Packet.subAck packetIdentifier returnCode).content.length stream) := by
  have three : 3 ≤ (Packet.subAck packetIdentifier returnCode).content.length := by
    simp [content, bigEndian]
  unfold handleSubAck
  split
  next whole =>
    split
    next refusal =>
      exact ⟨nofun, fun _ => ⟨⟨between.split, between.position, between.size, nofun, nofun,
        between.reported, between.safe⟩, rfl, .inl rfl,
        .inr (refused_of_append arrived refusal)⟩⟩
    next accepted =>
      exact .of_silent between arrived whole.2 (fun both => accepted both.2) rfl
        (receiving_subAckReceived _ _) rfl rfl rfl rfl
  next short => exact .of_short between (by omega)

theorem payloadSize_eq {topicSize payloadSize : Nat} (small : payloadSize < 65536) :
    ((((topicSize + 4 + payloadSize) % 65536 : Nat) - topicSize - 2 - 2 : Int) % 65536).toNat =
      payloadSize := by
  omega

theorem between_told {packetIdentifier : Option UInt16} {more : Bytes}
    (receivedPacketIdentifier : Nat)
    (between : Between packets pending r done
      (.publish dup retain packetIdentifier topic payload :: rest) [])
    (position : more ++ pending = payload ++ rest.flatMap encode) :
    Between packets pending { r with
        client := r.client.publishReceived receivedPacketIdentifier payload.length
        unread := more
        notifications := r.notifications ++ [{ topic, payloadSize := payload.length, payload := [] }] }
      (done ++ [.publish dup retain packetIdentifier topic payload]) rest payload where
  split := by rw [between.split, append_assoc, singleton_append]
  position := position
  size := rfl
  writer := fun _ => rfl
  begun := fun _ => by simp
  reported := by
    have before := between.reported
    rw [appendToLast_nil] at before
    rw [appendToLast_concat, before, filterMap_append]
    rfl
  safe := between.safe

theorem drop_eq_nil_of_drop_ne_nil {α : Type} {front back : List α}
    (more : front.drop back.length ≠ []) : back.drop front.length = [] := by
  apply drop_eq_nil_of_le
  by_contra long
  exact more (drop_eq_nil_of_le (by omega))

theorem length_content_publish (dup retain : Bool) (packetIdentifier : UInt16)
    (topic payload : Bytes) :
    (Packet.publish dup retain (some packetIdentifier) topic payload).content.length =
      topic.length + 4 + payload.length := by
  simp only [content, bigEndian, Option.elim_some, length_append, length_cons,
    length_nil]
  omega

theorem fromBigEndian_topicSize {packetIdentifier : Option UInt16} {high low : UInt8}
    (fits : topic.length ≤ maxTopicSize)
    (arrived : high :: low :: stream ++ pending =
      (Packet.publish dup retain packetIdentifier topic payload).content ++ tail) :
    fromBigEndian high low = topic.length := by
  simp only [content, bigEndian, cons_append, nil_append, append_assoc,
    List.cons.injEq] at arrived
  rw [arrived.1, arrived.2.1]
  apply fromBigEndian_bigEndian
  simp only [maxTopicSize] at fits
  omega

theorem handled_publish
    (between : Between packets pending r done
      (.publish dup retain (some packetIdentifier) topic payload :: rest) [])
    (fits : topic.length ≤ maxTopicSize) (narrow : payload.length < 65536)
    (uncut : ∀ high low topicStream, stream = high :: low :: topicStream →
      topicStream.length < fromBigEndian high low + 2 → payload = [])
    (arrived : stream ++ pending =
      (Packet.publish dup retain (some packetIdentifier) topic payload).content ++ rest.flatMap
      encode) :
    Handled packets pending r stream done rest
      (.publish dup retain (some packetIdentifier) topic payload)
      (handlePublish r
        (Packet.publish dup retain (some packetIdentifier) topic payload).content.length stream) := by
  have length := length_content_publish dup retain packetIdentifier topic payload
  match stream, arrived with
  | [], _ => exact .of_short between (by rw [length]; simp only [length_nil]; omega)
  | [_], _ => exact .of_short between (by rw [length]; simp only [length_singleton]; omega)
  | high :: low :: stream, arrived =>
    have size := fromBigEndian_topicSize fits arrived
    simp only [content, bigEndian, Option.elim_some, cons_append, nil_append,
      append_assoc, List.cons.injEq] at arrived
    have small : ¬ maxTopicSize < topic.length := by omega
    simp only [handlePublish, size, small, if_false, length, payloadSize_eq narrow]
    split
    next short =>
      have empty : payload = [] := uncut high low stream rfl (by rw [size]; exact short)
      refine ⟨nofun, fun _ => ⟨⟨between.split, between.position, ?_, nofun, nofun,
        between.reported, between.safe⟩, rfl, .inr ?_, .inl rfl⟩⟩
      · simp [empty]
      · rw [length]
        simp only [length_cons]
        omega
    next long =>
      have whole : stream ++ pending =
          (topic ++ bigEndian packetIdentifier.toNat) ++ (payload ++ rest.flatMap encode) := by
        simpa [bigEndian] using arrived.2.2
      obtain ⟨more, split, position⟩ := eq_append_of_append_eq whole
        (by simp only [length_append, bigEndian, length_cons, length_nil]; omega)
      have topicRead : stream.take topic.length = topic := by
        rw [split, append_assoc, take_left]
      have payloadLeft : stream.drop (topic.length + 2) = more := by
        rw [split]
        exact drop_left' (by simp [bigEndian])
      rw [topicRead, payloadLeft]
      have told := between_told
        (readOver r.client.receivedPacketIdentifier (stream.drop topic.length)) between position
      have written := between_handleNotificationData told rfl
      have frame := handleNotificationData_frame { r with
        client := r.client.publishReceived
          (readOver r.client.receivedPacketIdentifier (stream.drop topic.length)) payload.length
        unread := more
        notifications := r.notifications ++
          [{ topic, payloadSize := payload.length, payload := [] }] }
      refine ⟨fun _ => ⟨payload.drop more.length, written.1, ?_, .inl frame.1, ?_, frame.2⟩, nofun⟩
      · intro unfinished
        rw [written.2]
        exact drop_eq_nil_of_drop_ne_nil unfinished
      · rw [written.2, split]
        simp only [length_drop, length_cons, length_append]
        omega

theorem handled_handlePacket {fuel : Nat} (valid : packet.Valid) (readable : packet.Readable)
    (between : Between packets pending r done (packet :: rest) [])
    (parsed : mqttParser r.unread = some (packet.type, packet.content.length, stream))
    (uncut : endsInTopic (fuel + 1) r.unread = false)
    (arrived : stream ++ pending = packet.content ++ rest.flatMap encode) :
    Handled packets pending r stream done rest packet
      (handlePacket again r packet.type packet.content.length stream) := by
  cases packet with
  | publish dup retain packetIdentifier topic payload =>
    cases packetIdentifier with
    | none => cases readable.1
    | some packetIdentifier =>
      apply handled_publish between valid.2 readable.2 _ arrived
      intro high low topicStream split short
      simp only [endsInTopic, parsed, type, split, short, decide_true, Bool.true_and,
        decide_eq_false_iff_not, length_content_publish] at uncut
      rw [fromBigEndian_topicSize valid.2 (split ▸ arrived)] at uncut
      exact eq_nil_of_length_eq_zero (by omega)
  | pubAck packetIdentifier => exact handled_pubAck again between arrived
  | subAck packetIdentifier returnCode => exact handled_subAck again between arrived
  | pingResp =>
    exact .of_silent between arrived (Nat.zero_le _) nofun rfl
      (receiving_handlePingReply _) rfl rfl rfl rfl

/-- What is left unread when `HandleDataReceived` returns. -/
structure Settled (r : Receiver) (rest : List Packet) (missing : Bytes) : Prop where
  drained : missing ≠ [] → r.unread = []
  stuck : r.client.executingNotification = true ∨ r.aborted = true ∨
    ∀ packet more, rest = packet :: more →
      r.unread.length < missing.length + packet.encode.length

theorem settled_of_empty (empty : r.unread = []) : Settled r rest missing where
  drained := fun _ => empty
  stuck := by
    refine .inr (.inr fun packet more _ => ?_)
    rw [empty, encode]
    simp only [length_nil, length_cons]
    omega

end

theorem endsInTopic_nil (fuel : Nat) : endsInTopic fuel [] = false := by
  cases fuel <;> rfl

theorem endsInTopic_next {fuel : Nat} {unread stream : Bytes}
    (uncut : endsInTopic (fuel + 1) unread = false)
    (parsed : mqttParser unread = some (packet.type, packet.content.length, stream))
    (other : packet.notification = none) (whole : packet.content.length ≤ stream.length)
    (accepted : ¬ (packet.type = .subAck ∧ refused stream)) :
    endsInTopic fuel (stream.drop packet.content.length) = false := by
  cases packet with
  | publish => cases other
  | pubAck _ => simpa [endsInTopic, parsed, type, whole] using uncut
  | subAck _ _ =>
    simp only [type, true_and] at accepted
    simpa [endsInTopic, parsed, type, whole, accepted] using uncut
  | pingResp => simpa [endsInTopic, parsed, type, whole] using uncut

/-- The loop leaves the stream between two packets or inside a payload, and takes all that is
complete. -/
theorem settled_handleDataReceived (again : Bytes → Bool) (fuel : Nat)
    (valid : ∀ packet ∈ packets, packet.Valid) (readable : ∀ packet ∈ packets, packet.Readable)
    (between : Between packets pending r done rest missing) (enough : r.unread.length < fuel)
    (uncut : r.client.executingNotification = false →
      endsInTopic fuel (r.unread.drop missing.length) = false) :
    (∃ done rest missing,
      Between packets pending (handleDataReceived again fuel r) done rest missing ∧
      Settled (handleDataReceived again fuel r) rest missing) ∧
    ((handleDataReceived again fuel r).aborted = r.aborted ∨
      ∃ packet ∈ packets, packet.Refused) := by
  induction fuel generalizing r done rest missing with
  | zero => omega
  | succ fuel ih =>
    unfold handleDataReceived
    split
    next empty => exact ⟨⟨done, rest, missing, between, settled_of_empty empty⟩, .inl rfl⟩
    next nonempty =>
      obtain ⟨continued, unread, executing, aborted⟩ := between_continueNotification between
      have drained : missing.drop r.unread.length ≠ [] → r.continueNotification.unread = [] := by
        intro unfinished
        rw [unread]
        exact drop_eq_nil_of_drop_ne_nil unfinished
      dsimp only
      split
      next stops =>
        have busy : r.continueNotification.client.executingNotification = true := by
          simpa [continued.safe] using stops
        exact ⟨⟨done, rest, _, continued, drained, .inl busy⟩, .inl aborted⟩
      next goes =>
        have idle : r.client.executingNotification = false := by
          rw [← executing]
          simpa [continued.safe] using goes
        have uncut := uncut idle
        rw [← unread] at uncut
        by_cases more : r.continueNotification.unread = []
        · rw [more]
          exact ⟨⟨done, rest, _, continued, settled_of_empty more⟩, .inl aborted⟩
        · have finished : missing.drop r.unread.length = [] := by
            by_contra unfinished
            exact more (drained unfinished)
          rw [finished] at continued
          cases rest with
          | nil =>
            have := continued.position
            simp only [nil_append, flatMap_nil, append_eq_nil_iff] at this
            exact absurd this.1 more
          | cons packet rest =>
            have member : packet ∈ packets := by simp [continued.split]
            have position := continued.position
            rw [nil_append, flatMap_cons] at position
            cases mqttParser_of_append (valid packet member) position with
            | inl short =>
              rw [short.1]
              refine ⟨⟨done, packet :: rest, [], continued, nofun, .inr (.inr ?_)⟩,
                .inl aborted⟩
              intro first others same
              rw [← (List.cons.inj same).1, length_nil, Nat.zero_add]
              exact short.2
            | inr complete =>
              obtain ⟨stream, parsed, shorter, lengths, arrived⟩ := complete
              have handled := handled_handlePacket again (valid packet member)
                (readable packet member) continued parsed uncut arrived
              rw [parsed]
              dsimp only
              generalize handlePacket again _ _ _ _ = result at handled
              obtain ⟨next, succeeded⟩ := result
              cases succeeded with
              | false =>
                obtain ⟨stays, left, ends, refusal⟩ := handled.stays rfl
                refine ⟨⟨done, packet :: rest, [], stays, nofun, .inr ?_⟩,
                  refusal.imp (fun same => same.trans aborted) fun refusal =>
                    ⟨packet, member, refusal⟩⟩
                apply ends.imp id
                intro short first others same
                rw [← (List.cons.inj same).1, length_nil, left]
                omega
              | true =>
                obtain ⟨missing, after, read, still, length, same⟩ := handled.taken rfl
                rw [← aborted, ← same]
                apply ih after
                · have := congrArg List.length unread
                  simp only [length_drop] at this
                  dsimp only at length ⊢
                  omega
                · intro idle
                  cases still with
                  | inl busy => exact absurd (busy.symm.trans idle) nofun
                  | inr taken =>
                    by_cases none : missing = []
                    · rw [none, length_nil, drop_zero, taken.2.1]
                      exact endsInTopic_next uncut parsed taken.1 taken.2.2.1 taken.2.2.2
                    · rw [read none, drop_nil]
                      exact endsInTopic_nil fuel

end Receiver

/-! ### Runs -/

namespace Reception

variable {packets : List Packet} {r t : Reception}

def uncutAt (r : Receiver) : Prop :=
  r.client.executingNotification = false →
    endsInTopic (r.unread.length + 1) (r.unread.drop r.client.notificationPayloadSize) = false

instance (r : Receiver) : Decidable (uncutAt r) :=
  inferInstanceAs (Decidable (_ → _))

/-- The condition on a step: where `HandleDataReceived` looks for packets, what has arrived does
not end in a topic. -/
def Uncut (r : Reception) : Event → Prop
  | .arrives count _ => uncutAt (r.arrive count)
  | .dataReceived _ => uncutAt r.receiver
  | _ => True

instance (r : Reception) : DecidablePred (Uncut r) := by
  intro event
  unfold Uncut
  split <;> infer_instance

/-- The observer has been told of every message among the packets read, with its topic and
payload, and of nothing else. -/
structure Reported (packets : List Packet) (r : Reception) : Prop where
  boundary : ∃ done rest missing, Between packets r.pending r.receiver done rest missing
  accepted : r.receiver.aborted = true → ∃ packet ∈ packets, packet.Refused
  complete : r.pending = [] → r.scheduled = 0 →
    r.receiver.client.executingNotification = false → r.receiver.aborted = false →
    r.receiver.notifications = packets.filterMap notification

structure Sound (packets : List Packet) (r : Reception) (done rest : List Packet)
    (missing : Bytes) : Prop where
  between : Between packets r.pending r.receiver done rest missing
  drained : missing ≠ [] → r.receiver.unread = []
  waiting : r.scheduled = 0 → r.receiver.client.executingNotification = false →
    r.receiver.aborted = false → ∀ packet more, rest = packet :: more →
      r.receiver.unread.length < missing.length + packet.encode.length
  accepted : r.receiver.aborted = true → ∃ packet ∈ packets, packet.Refused

theorem sound_start (packets : List Packet) :
    Sound packets (start packets) [] packets [] where
  between := ⟨rfl, rfl, rfl, nofun, nofun, rfl, rfl⟩
  drained := fun _ => rfl
  waiting := by
    intro _ _ _ packet _ _
    exact Nat.succ_pos _
  accepted := nofun

variable {done rest : List Packet} {missing : Bytes}

theorem Sound.reported (sound : Sound packets r done rest missing) : Reported packets r where
  boundary := ⟨done, rest, missing, sound.between⟩
  accepted := sound.accepted
  complete := by
    intro arrived unscheduled idle connected
    have position := sound.between.position
    rw [arrived, append_nil] at position
    have none : missing = [] := by
      by_contra some
      rw [sound.drained some] at position
      exact some (append_eq_nil_iff.mp position.symm).1
    cases rest with
    | cons packet more =>
      have short := sound.waiting unscheduled idle connected packet more rfl
      have long := congrArg List.length position
      simp only [flatMap_cons, length_append] at long
      omega
    | nil =>
      have reported := sound.between.reported
      rw [none, appendToLast_nil] at reported
      rw [reported, sound.between.split, append_nil]

theorem sound_dataReceived {pending : Bytes} {scheduled : Nat} {receiver : Receiver}
    (again : Bytes → Bool) (valid : ∀ packet ∈ packets, packet.Valid)
    (readable : ∀ packet ∈ packets, packet.Readable)
    (between : Between packets pending receiver done rest missing)
    (connected : receiver.aborted = false) (uncut : uncutAt receiver) :
    ∃ done rest missing,
      Sound packets { receiver := receiver.dataReceived again, pending, scheduled }
        done rest missing := by
  have results := Receiver.settled_handleDataReceived again (receiver.unread.length + 1) valid
    readable between (Nat.lt_succ_self _) (by simpa [uncutAt, between.size] using uncut)
  obtain ⟨⟨done, rest, missing, after, settled⟩, aborts⟩ := results
  refine ⟨done, rest, missing, after, settled.drained, ?_, ?_⟩
  · intro _ idle stays packet more split
    cases settled.stuck with
    | inl busy => exact absurd (busy.symm.trans idle) nofun
    | inr stuck =>
      cases stuck with
      | inl aborted => exact absurd (aborted.symm.trans stays) nofun
      | inr short => exact short packet more split
  · intro aborted
    cases aborts with
    | inl same => exact absurd (aborted.symm.trans (same.trans connected)) nofun
    | inr refusal => exact refusal

theorem between_arrive (count : Nat)
    (between : Between packets r.pending r.receiver done rest missing) :
    Between packets (r.pending.drop count) (r.arrive count) done rest missing where
  split := between.split
  position := by
    simp only [arrive]
    rw [append_assoc, take_append_drop]
    exact between.position
  size := between.size
  writer := between.writer
  begun := between.begun
  reported := between.reported
  safe := between.safe

variable {client : StateConnected}

theorem between_withClient (between : Between packets r.pending r.receiver done rest missing)
    (size : client.notificationPayloadSize = r.receiver.client.notificationPayloadSize)
    (writer : client.notificationWriter = r.receiver.client.notificationWriter) :
    Between packets r.pending (r.withClient client).receiver done rest missing where
  split := between.split
  position := between.position
  size := size.trans between.size
  writer := fun unfinished => writer.trans (between.writer unfinished)
  begun := between.begun
  reported := between.reported
  safe := between.safe

theorem Sound.withClient (sound : Sound packets r done rest missing)
    (frame : client.receiving = r.receiver.client.receiving) :
    Sound packets (r.withClient client) done rest missing := by
  simp only [receiving, Prod.mk.injEq] at frame
  exact {
    between := between_withClient (r := r) sound.between frame.2.1 frame.2.2
    drained := sound.drained
    waiting := fun unscheduled idle => sound.waiting unscheduled (frame.1.symm.trans idle)
    accepted := sound.accepted }

theorem Sound.notificationDone (sound : Sound packets r done rest missing) :
    Sound packets { r.withClient r.receiver.client.notificationDone with
      scheduled := r.scheduled + 1 } done rest missing := by
  have frame := receiving_queueSendOperation
    { r.receiver.client with executingNotification := false } .pubAck
  simp only [receiving, Prod.mk.injEq] at frame
  exact {
    between := between_withClient (r := r) sound.between frame.2.1 frame.2.2
    drained := sound.drained
    waiting := nofun
    accepted := sound.accepted }

theorem sound_step {event : Event} (valid : ∀ packet ∈ packets, packet.Valid)
    (readable : ∀ packet ∈ packets, packet.Readable)
    (sound : ∃ done rest missing, Sound packets r done rest missing) (uncut : Uncut r event)
    (taken : step r event = some t) : ∃ done rest missing, Sound packets t done rest missing := by
  obtain ⟨done, rest, missing, sound⟩ := sound
  unfold step at taken
  split at taken
  · cases taken
  · next runs =>
    have connected : r.receiver.aborted = false := by simpa [sound.between.safe] using runs
    cases event with
    | arrives count again =>
      rw [← Option.some.inj taken]
      exact sound_dataReceived again valid readable (between_arrive count sound.between)
        connected uncut
    | dataReceived again =>
      dsimp only at taken
      split at taken
      · cases taken
      · rw [← Option.some.inj taken]
        exact sound_dataReceived again valid readable sound.between connected uncut
    | notificationDone =>
      dsimp only at taken
      split at taken
      · rw [← Option.some.inj taken]
        exact ⟨done, rest, missing, sound.notificationDone⟩
      · cases taken
    | publish | subscribe =>
      rw [← Option.some.inj taken]
      exact ⟨done, rest, missing,
        sound.withClient (receiving_queueSendOperation _ _)⟩
    | sendStreamAvailable =>
      dsimp only at taken
      split at taken
      · obtain ⟨⟨client, sent⟩, available, same⟩ := Option.map_eq_some_iff.mp taken
        rw [← same]
        exact ⟨done, rest, missing,
          sound.withClient (receiving_sendStreamAvailable _ available)⟩
      · cases taken
    | pingTimerExpires =>
      obtain ⟨client, expires, same⟩ := Option.map_eq_some_iff.mp taken
      rw [← same]
      exact ⟨done, rest, missing,
        sound.withClient (receiving_pingTimerExpires _ expires)⟩

theorem reports_every_publish {packets : List Packet} {r : Reception}
    (valid : ∀ packet ∈ packets, packet.Valid) (readable : ∀ packet ∈ packets, packet.Readable)
    (reached : Runs.Reachable step Uncut (start packets) r) : Reported packets r := by
  have invariant : ∃ done rest missing, Sound packets r done rest missing :=
    reached.invariant ⟨[], packets, [], sound_start packets⟩
      fun _ _ _ sound uncut taken => sound_step valid readable sound uncut taken
  obtain ⟨_, _, _, sound⟩ := invariant
  exact sound.reported

/-- A message with topic `a`, of which the payload comes in two arrivals, and a ping reply. -/
theorem reports_every_publish_cutInPayload :
    ∃ r, Runs.Reachable step Uncut
        (start [.publish false false (some 1) [0x61] [0x78, 0x79], .pingResp]) r ∧
      Reported [.publish false false (some 1) [0x61] [0x78, 0x79], .pingResp] r ∧
      r.receiver.notifications =
        [{ topic := [0x61], payloadSize := 2, payload := [0x78, 0x79] }] := by
  obtain ⟨r, reached, shows⟩ := Runs.exists_of_executeIf Uncut step
    (start [.publish false false (some 1) [0x61] [0x78, 0x79], .pingResp])
    [.arrives 8 fun _ => false, .arrives 2 fun _ => false, .notificationDone,
      .arrives 1 fun _ => false, .dataReceived fun _ => false]
    (fun r => r.receiver.notifications =
      [{ topic := [0x61], payloadSize := 2, payload := [0x78, 0x79] }]) (by decide +kernel)
  refine ⟨r, reached, reports_every_publish ?_ ?_ reached, of_decide_eq_true shows⟩
  · simp [Packet.Valid, Packet.content, Packet.bigEndian, Receiver.maxTopicSize]
  · simp [Packet.Readable]

/-- The first arrival ends in the topic; the second finds no writer for the payload. -/
theorem message_broken_cutInTopic :
    ¬ ∀ packets : List Packet, (∀ packet ∈ packets, packet.Valid) →
      ∀ r, Runs.Reachable step Runs.anyStep (start packets) r → Reported packets r := by
  intro claimed
  obtain ⟨r, reached, fails⟩ := Runs.exists_of_execute step
    (start [.publish false false (some 1) [0x61] [0x78]])
    [.arrives 5 fun _ => false, .arrives 3 fun _ => false]
    (fun r => r.receiver.assertionFailed) (by decide)
  have valid : ∀ packet ∈ [Packet.publish false false (some 1) [0x61] [0x78]], packet.Valid := by
    simp [Packet.Valid, Packet.content, Packet.bigEndian, Receiver.maxTopicSize]
  obtain ⟨_, _, _, between⟩ := (claimed _ valid r reached).boundary
  exact absurd (fails.symm.trans between.safe) nofun

end Reception

end Mqtt
