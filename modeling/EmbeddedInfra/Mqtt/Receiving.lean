import EmbeddedInfra.Mqtt.StateConnected

/-! What `MqttClientImpl` makes of the bytes it receives in the connected state. -/

namespace Mqtt

/-- The packet types that `HandleDataReceived` tells apart. -/
inductive PacketType
  | publish
  | pubAck
  | subAck
  | pingResp
  | other
  deriving DecidableEq

def fromBigEndian (high low : UInt8) : Nat := high.toNat * 256 + low.toNat

def extractType (combinedPacketType : UInt8) : PacketType :=
  match combinedPacketType.toNat / 16 with
  | 3 => .publish
  | 4 => .pubAck
  | 9 => .subAck
  | 13 => .pingResp
  | _ => .other

/-- `ExtractSize`; without a value when the stream fails. -/
def extractSize (size shift : Nat) : Bytes → Option (Nat × Bytes)
  | [] => none
  | sizeByte :: stream =>
    if sizeByte.toNat > 127 then
      extractSize ((size + sizeByte.toNat % 128 * 2 ^ shift) % 2 ^ 32) ((shift + 7) % 256) stream
    else some ((size + sizeByte.toNat * 2 ^ shift) % 2 ^ 32, stream)

def mqttParser : Bytes → Option (PacketType × Nat × Bytes)
  | [] => none
  | combinedPacketType :: stream =>
    (extractSize 0 0 stream).map fun (size, stream) =>
      (extractType combinedPacketType, size, stream)

/-- A call of `ReceivedNotification`, with what its writer has been given. -/
structure Notification where
  topic : Bytes
  payloadSize : Nat
  payload : Bytes
  deriving DecidableEq

/-- The connected state with the bytes that have arrived and are not acknowledged, and what the
observer has been told. -/
structure Receiver where
  client : StateConnected
  unread : Bytes
  notifications : List Notification
  aborted : Bool
  /-- An assertion has failed, or a null pointer has been followed. -/
  assertionFailed : Bool
  deriving DecidableEq

def appendToLast : List Notification → Bytes → List Notification
  | [], _ => []
  | [last], range => [{ last with payload := last.payload ++ range }]
  | first :: second :: rest, range => first :: appendToLast (second :: rest) range

namespace Receiver

variable (r : Receiver) (again : Bytes → Bool)

def handleNotificationData : Receiver :=
  if r.client.notificationWriter then
    let range := r.unread.take r.client.notificationPayloadSize
    let client :=
      { r.client with
        notificationPayloadSize := r.client.notificationPayloadSize - range.length }
    { r with
      client := if client.notificationPayloadSize = 0 then client.payloadWritten else client
      unread := r.unread.drop r.client.notificationPayloadSize
      notifications := appendToLast r.notifications range }
  else { r with assertionFailed := true }

/-- Each handler says whether the stream did not fail. -/
def handlePubAck (r : Receiver) (packetLength : Nat) (stream : Bytes) : Receiver × Bool :=
  if 2 ≤ packetLength ∧ packetLength ≤ stream.length then
    let unread := stream.drop packetLength
    ({ r with client := r.client.pubAckReceived (again unread), unread }, true)
  else (r, false)

/-- The subscription is not the one that was asked for, or has been refused. -/
def refused : Bytes → Bool
  | high :: low :: returnCode :: _ => fromBigEndian high low ≠ 1 || returnCode = 0x80
  | _ => false

def handleSubAck (r : Receiver) (packetLength : Nat) (stream : Bytes) : Receiver × Bool :=
  if 3 ≤ packetLength ∧ packetLength ≤ stream.length then
    if refused stream then ({ r with aborted := true }, false)
    else
      let unread := stream.drop packetLength
      ({ r with client := r.client.subAckReceived (again unread), unread }, true)
  else (r, false)

/-- The maximum size of `topic`. -/
def maxTopicSize : Nat := 128

/-- What a variable of 16 bits holds after bytes of the stream have been read over it, also when
they are too few, and its bytes have been swapped. -/
def readOver (old : Nat) : Bytes → Nat
  | [] => old % 256 * 256 + old / 256
  | [byte] => byte.toNat * 256 + old / 256
  | high :: low :: _ => fromBigEndian high low

def handlePublish (packetLength : Nat) : Bytes → Receiver × Bool
  | high :: low :: stream =>
    let topicSize := fromBigEndian high low
    if maxTopicSize < topicSize then ({ r with assertionFailed := true }, false)
    else
      let receivedPacketIdentifier :=
        readOver r.client.receivedPacketIdentifier (stream.drop topicSize)
      let notificationPayloadSize :=
        (((packetLength % 65536 : Nat) - topicSize - 2 - 2 : Int) % 65536).toNat
      if stream.length < topicSize + 2 then
        ({ r with
          client := { r.client with receivedPacketIdentifier, notificationPayloadSize } }, false)
      else
        (handleNotificationData { r with
          client := r.client.publishReceived receivedPacketIdentifier notificationPayloadSize
          unread := stream.drop (topicSize + 2)
          notifications := r.notifications ++
            [{ topic := stream.take topicSize
               payloadSize := notificationPayloadSize
               payload := [] }] }, true)
  | _ => (r, false)

def handlePacket (r : Receiver) (packetType : PacketType) (packetLength : Nat) (stream : Bytes) :
    Receiver × Bool :=
  match packetType with
  | .pubAck => handlePubAck again r packetLength stream
  | .subAck => handleSubAck again r packetLength stream
  | .publish => handlePublish r packetLength stream
  | .pingResp => ({ r with client := r.client.handlePingReply, unread := stream }, true)
  | .other => ({ r with aborted := true }, false)

/-- The start of a round of `HandleDataReceived`. -/
def continueNotification : Receiver :=
  if r.client.notificationPayloadSize ≠ 0 then handleNotificationData r else r

/-- The loop of `HandleDataReceived`; after a failure the stream is empty, which ends it.
`again` says whether the observer publishes or subscribes once more in the callback that comes
before the bytes given to it. -/
def handleDataReceived (again : Bytes → Bool) : Nat → Receiver → Receiver
  | 0, r => r
  | fuel + 1, r =>
    if r.unread = [] then r
    else
      let r := r.continueNotification
      if r.assertionFailed ∨ r.client.executingNotification then r
      else
        match mqttParser r.unread with
        | none => r
        | some (packetType, packetLength, stream) =>
          match handlePacket again r packetType packetLength stream with
          | (r, true) => handleDataReceived again fuel r
          | (r, false) => r

/-- Every round reads a byte at least. -/
def dataReceived (r : Receiver) : Receiver :=
  handleDataReceived again (r.unread.length + 1) r

end Receiver

/-- The packets of a server after CONNACK. A message has an identifier when its quality of
service is 1. -/
inductive Packet
  | publish (dup retain : Bool) (packetIdentifier : Option UInt16) (topic payload : Bytes)
  | pubAck (packetIdentifier : UInt16)
  | subAck (packetIdentifier : UInt16) (returnCode : UInt8)
  | pingResp
  deriving DecidableEq

namespace Packet

def bigEndian (n : Nat) : Bytes := [UInt8.ofNat (n / 256), UInt8.ofNat (n % 256)]

def header : Packet → UInt8
  | publish dup retain packetIdentifier _ _ =>
    UInt8.ofNat (48 + 8 * dup.toNat + 2 * packetIdentifier.isSome.toNat + retain.toNat)
  | pubAck _ => 0x40
  | subAck _ _ => 0x90
  | pingResp => 0xd0

/-- What follows the fixed header. -/
def content : Packet → Bytes
  | publish _ _ packetIdentifier topic payload =>
    bigEndian topic.length ++ topic ++
      (packetIdentifier.elim [] fun identifier => bigEndian identifier.toNat) ++ payload
  | pubAck packetIdentifier => bigEndian packetIdentifier.toNat
  | subAck packetIdentifier returnCode => bigEndian packetIdentifier.toNat ++ [returnCode]
  | pingResp => []

/-- A remaining length, in at most `more + 1` bytes. -/
def encodeSize : Nat → Nat → Bytes
  | 0, size => [UInt8.ofNat size]
  | more + 1, size =>
    if size < 128 then [UInt8.ofNat size]
    else UInt8.ofNat (size % 128 + 128) :: encodeSize more (size / 128)

def encode (packet : Packet) : Bytes :=
  packet.header :: (encodeSize 3 packet.content.length ++ packet.content)

/-- The topic fits, and so does the remaining length. -/
def Valid (packet : Packet) : Prop :=
  packet.content.length < 2 ^ 28 ∧
    match packet with
    | publish _ _ _ topic _ => topic.length ≤ Receiver.maxTopicSize
    | _ => True

def notification : Packet → Option Notification
  | publish _ _ _ topic payload => some { topic, payloadSize := payload.length, payload }
  | _ => none

end Packet

/-- A receiver, with the bytes that the server has sent and that have not arrived, and the number
of calls of `DataReceived` that `NotificationDone` has scheduled. -/
structure Reception where
  receiver : Receiver
  pending : Bytes
  scheduled : Nat
  deriving DecidableEq

namespace Reception

inductive Event
  | arrives (count : Nat) (again : Bytes → Bool)
  | dataReceived (again : Bytes → Bool)
  | notificationDone
  | publish
  | subscribe
  | sendStreamAvailable
  | pingTimerExpires

def start (packets : List Packet) : Reception :=
  { receiver :=
      { client := .construct
        unread := []
        notifications := []
        aborted := false
        assertionFailed := false }
    pending := packets.flatMap Packet.encode
    scheduled := 0 }

variable (r : Reception)

def arrive (count : Nat) : Receiver :=
  { r.receiver with unread := r.receiver.unread ++ r.pending.take count }

def withClient (client : StateConnected) : Reception :=
  { r with receiver := { r.receiver with client } }

/-- Nothing happens once the connection is aborted or an assertion has failed. -/
def step (event : Event) : Option Reception :=
  if r.receiver.aborted ∨ r.receiver.assertionFailed then none
  else
    match event with
    | .arrives count again =>
      some { r with
        receiver := (r.arrive count).dataReceived again
        pending := r.pending.drop count }
    | .dataReceived again =>
      if r.scheduled = 0 then none
      else some { r with
        receiver := r.receiver.dataReceived again
        scheduled := r.scheduled - 1 }
    | .notificationDone =>
      if r.receiver.client.executingNotification then
        some { r.withClient r.receiver.client.notificationDone with
          scheduled := r.scheduled + 1 }
      else none
    | .publish => some (r.withClient r.receiver.client.publish)
    | .subscribe => some (r.withClient r.receiver.client.subscribe)
    | .sendStreamAvailable =>
      if r.receiver.client.streamRequested then
        r.receiver.client.sendStreamAvailable.map fun (client, _) => r.withClient client
      else none
    | .pingTimerExpires => r.receiver.client.pingTimerExpires.map r.withClient

end Reception

end Mqtt
