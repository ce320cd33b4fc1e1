import EmbeddedInfra.Mqtt.StateConnected

/-! `MqttFormatter`: the messages, and the sizes that are requested for them. -/

namespace Mqtt

open List

/-- The loop of `Header`. -/
def sizeBytes (size : Nat) : Bytes :=
  if size > 127 then UInt8.ofNat (size % 128 + 128) :: sizeBytes (size / 128)
  else [UInt8.ofNat size]
termination_by size

def makePacketType (packetType flags : Nat) : UInt8 := UInt8.ofNat (packetType * 16 + flags)

def header (packetType size flags : Nat) : Bytes := makePacketType packetType flags :: sizeBytes size

/-- A size with 7 bits in each byte, and what follows it. -/
def decodeSize : Bytes → Option (Nat × Bytes)
  | [] => none
  | byte :: rest =>
    if byte.toNat < 128 then some (byte.toNat, rest)
    else (decodeSize rest).map fun (size, rest) => (byte.toNat % 128 + 128 * size, rest)

/-- What the observer writes in `FillTopic` and in `FillPayload`. -/
structure Message where
  topic : Bytes
  payload : Bytes

def uint16 (value : Nat) : Bytes := [UInt8.ofNat (value / 256), UInt8.ofNat value]

variable (value clientId : Bytes) (message : Message)

def encodedLength : Nat := 2 + value.length

def addString : Bytes := uint16 value.length ++ value

def packetConnect (connectFlags keepAlive : Nat) : Bytes :=
  uint16 4 ++ [0x4d, 0x51, 0x54, 0x54, 4, UInt8.ofNat connectFlags] ++ uint16 keepAlive

def optionalLength : Nat := if value = [] then 0 else encodedLength value

def addOptional : Bytes := if value = [] then [] else addString value

/-- The `packetSize` of `MessageConnect`. -/
def connectSize (username password : Bytes) : Nat :=
  10 + encodedLength clientId + optionalLength username + optionalLength password

def messageConnect (username password : Bytes) (keepAlive : Nat) : Bytes :=
  let connectFlags := 0x02 + (if username = [] then 0 else 0x80) + (if password = [] then 0 else 0x40)
  header 1 (connectSize clientId username password) 0 ++ packetConnect connectFlags keepAlive ++
    addString clientId ++ addOptional username ++ addOptional password

def messageSizeConnect (username password : Bytes) : Nat :=
  5 + 10 + encodedLength clientId + encodedLength username + encodedLength password

def encodedTopicLength : Nat := 2 + message.topic.length

def payloadLength : Nat := message.payload.length

def addTopic : Bytes :=
  uint16 (encodedTopicLength message - 2) ++ message.topic

def messagePublish (packetIdentifier : Nat) : Bytes :=
  header 3 (encodedTopicLength message + payloadLength message + 2) 2 ++ addTopic message ++
    uint16 packetIdentifier ++ message.payload

def messageSizePublish : Nat :=
  5 + encodedTopicLength message + payloadLength message

def messageSubscribe : Bytes :=
  header 8 (encodedTopicLength message + 3) 2 ++ uint16 1 ++ addTopic message ++ [1]

def messageSizeSubscribe : Nat := 5 + 2 + encodedTopicLength message + 1

def messagePubAck (packetIdentifier : Nat) : Bytes := header 4 2 0 ++ uint16 packetIdentifier

def messageSizePubAck : Nat := 4

def messagePing : Bytes := header 12 0 0

def messageSizePing : Nat := 2

theorem decodeSize_sizeBytes (size : Nat) (rest : Bytes) :
    decodeSize (sizeBytes size ++ rest) = some (size, rest) := by
  induction size using Nat.strongRecOn with
  | ind size ih =>
    rw [sizeBytes]
    by_cases large : size > 127
    · have byte : (UInt8.ofNat (size % 128 + 128)).toNat = size % 128 + 128 := by
        rw [UInt8.toNat_ofNat']
        omega
      rw [if_pos large, cons_append, decodeSize, byte, if_neg (by omega),
        ih (size / 128) (by omega), Option.map_some]
      have whole : (size % 128 + 128) % 128 + 128 * (size / 128) = size := by omega
      exact congrArg (fun total => some (total, rest)) whole
    · have byte : (UInt8.ofNat size).toNat = size := by
        rw [UInt8.toNat_ofNat']
        omega
      rw [if_neg large, cons_append, nil_append, decodeSize, byte, if_pos (by omega)]

theorem length_sizeBytes_le (size k : Nat) :
    (sizeBytes size).length ≤ k + 1 ↔ size < 128 ^ (k + 1) := by
  induction k generalizing size with
  | zero =>
    rw [sizeBytes]
    by_cases large : size > 127
    · have more : 0 < (sizeBytes (size / 128)).length := by
        rw [sizeBytes]
        split <;> simp
      rw [if_pos large, length_cons]
      omega
    · rw [if_neg large, length_singleton]
      omega
  | succ k ih =>
    rw [sizeBytes]
    by_cases large : size > 127
    · rw [if_pos large, length_cons, Nat.add_le_add_iff_right, ih, Nat.div_lt_iff_lt_mul
        (by decide), Nat.pow_succ 128 (k + 1)]
    · have small : size < 128 ^ (k + 1 + 1) :=
        Nat.lt_of_lt_of_le (by omega) (Nat.le_self_pow (Nat.succ_ne_zero _) 128)
      rw [if_neg large, length_singleton]
      exact iff_of_true (by omega) small

/-- A message is within the size that was requested, and its header tells what follows. -/
def Announced (requested : Nat) (bytes : Bytes) : Prop :=
  bytes.length ≤ requested ∧ ∃ rest, decodeSize bytes.tail = some (rest.length, rest)

theorem announced_iff {packetType size flags requested k : Nat} {rest : Bytes}
    (following : rest.length = size) (room : requested = size + k + 2) :
    Announced requested (header packetType size flags ++ rest) ↔ size < 128 ^ (k + 1) := by
  have decodes : decodeSize (header packetType size flags ++ rest).tail = some (rest.length, rest) := by
    rw [header, cons_append, tail_cons, decodeSize_sizeBytes, following]
  rw [Announced, and_iff_left ⟨rest, decodes⟩, header, cons_append, length_cons,
    length_append, following, room, ← length_sizeBytes_le]
  omega

theorem length_addOptional : (addOptional value).length = optionalLength value := by
  rw [addOptional, optionalLength]
  split
  · rfl
  · simp [addString, uint16, encodedLength]
    omega

/-- How much of the requested size is not used for a value that is left out. -/
def spare : Nat := if value = [] then 2 else 0

theorem encodedLength_eq : encodedLength value = optionalLength value + spare value := by
  rw [optionalLength, spare]
  split
  · next nothing => rw [nothing]; rfl
  · rfl

/-- Every message is within its size with a short remaining length, which for a message that is
published means 2 bytes. -/
theorem announced_size_iff (clientId username password : Bytes) (keepAlive : Nat) (message : Message)
    (packetIdentifier : Nat) :
    (Announced (messageSizeConnect clientId username password)
        (messageConnect clientId username password keepAlive) ↔
      connectSize clientId username password < 128 ^ (4 + spare username + spare password)) ∧
    (Announced (messageSizePublish message) (messagePublish message packetIdentifier) ↔
      encodedTopicLength message + payloadLength message + 2 < 128 ^ 2) ∧
    (Announced (messageSizeSubscribe message) (messageSubscribe message) ↔
      encodedTopicLength message + 3 < 128 ^ 4) ∧
    Announced messageSizePubAck (messagePubAck packetIdentifier) ∧
    Announced messageSizePing messagePing := by
  refine ⟨?_, ?_, ?_, ?_, ?_⟩
  · rw [messageConnect, append_assoc, append_assoc, append_assoc]
    have exponent : 4 + spare username + spare password = 3 + spare username + spare password + 1 := by
      omega
    rw [exponent]
    refine announced_iff ?_ ?_
    · simp [packetConnect, addString, uint16, length_addOptional, connectSize, encodedLength]
      omega
    · rw [messageSizeConnect, connectSize, encodedLength_eq username, encodedLength_eq password]
      omega
  · rw [messagePublish, append_assoc, append_assoc]
    refine announced_iff ?_ ?_
    · simp [addTopic, uint16, encodedTopicLength, payloadLength]
      omega
    · rw [messageSizePublish]
      omega
  · rw [messageSubscribe, append_assoc, append_assoc]
    refine announced_iff ?_ ?_
    · simp [addTopic, uint16, encodedTopicLength]
      omega
    · rw [messageSizeSubscribe]
      omega
  · have following : (uint16 packetIdentifier).length = 2 := rfl
    exact (announced_iff (k := 0) following rfl).mpr (by decide)
  · have following : ([] : Bytes).length = 0 := rfl
    rw [messagePing, ← append_nil (header 12 0 0)]
    exact (announced_iff (k := 0) following rfl).mpr (by decide)

/-- A payload of 16384 bytes needs 3 bytes for its size. -/
theorem not_announced_large :
    ¬Announced (messageSizePublish ⟨[0x74], List.replicate 16384 0⟩)
      (messagePublish ⟨[0x74], List.replicate 16384 0⟩ 1) := by
  have following : (addTopic ⟨[0x74], List.replicate 16384 0⟩ ++ (uint16 1 ++
      List.replicate 16384 (0 : UInt8))).length = 16389 := by
    simp only [addTopic, uint16, length_append, length_cons, length_nil,
      length_replicate]
  have size : encodedTopicLength ⟨[0x74], List.replicate 16384 0⟩ +
      payloadLength ⟨[0x74], List.replicate 16384 0⟩ + 2 = 16389 := by
    simp only [encodedTopicLength, payloadLength, length_cons, length_nil,
      length_replicate]
  rw [messagePublish, size, append_assoc, append_assoc, announced_iff (k := 1) following]
  · decide
  · simp only [messageSizePublish, encodedTopicLength, payloadLength, length_cons,
      length_nil, length_replicate]

end Mqtt
