import EmbeddedInfra.Runs
import Mathlib.Tactic

/-! The connected state of `MqttClientImpl`: the operations that wait for a send stream,
and what received packets do to them. -/

namespace Mqtt

abbrev Bytes := List UInt8

inductive Operation
  | publish
  | subscribe
  | pubAck
  | ping
  deriving DecidableEq

/-- What `pingTimer` does when it expires. -/
inductive PingTimer
  | sendPing
  | pingReplyTimeout
  deriving DecidableEq

structure StateConnected where
  operationTimeout : Bool
  receivedPacketIdentifier : Nat
  sendOperations : List Operation
  /-- An operation has been put in the deque when it was full, which its assertion denies. -/
  overflowed : Bool
  executingSend : Bool
  executingNotification : Bool
  notificationPayloadSize : Nat
  /-- Whether `notificationWriter` holds a writer. -/
  notificationWriter : Bool
  pingTimer : Option PingTimer
  packetIdentifier : Nat
  waitingForPingReply : Bool
  /-- `RequestSendStream` has been called, and `SendStreamAvailable` has not. -/
  streamRequested : Bool
  deriving DecidableEq

inductive Sent
  | publish (packetIdentifier : Nat)
  | subscribe
  | pubAck (packetIdentifier : Nat)
  | pingReq
  deriving DecidableEq

namespace StateConnected

/-- The constructor, which starts the ping timer. -/
def construct : StateConnected :=
  { operationTimeout := false
    receivedPacketIdentifier := 0
    sendOperations := []
    overflowed := false
    executingSend := false
    executingNotification := false
    notificationPayloadSize := 0
    notificationWriter := false
    pingTimer := some .sendPing
    packetIdentifier := 0
    waitingForPingReply := false
    streamRequested := false }

variable (s : StateConnected)

def startPing : StateConnected := { s with pingTimer := some .sendPing }

def processSendOperations : StateConnected :=
  if s.executingSend = false ∧ s.sendOperations ≠ [] then
    { s with executingSend := true, streamRequested := true }
  else s

section

variable (s : StateConnected)

theorem processSendOperations_frame :
    ∃ executingSend streamRequested,
      s.processSendOperations = { s with executingSend, streamRequested } := by
  unfold processSendOperations
  split <;> exact ⟨_, _, rfl⟩

@[simp] theorem processSendOperations_sendOperations :
    s.processSendOperations.sendOperations = s.sendOperations := by
  obtain ⟨_, _, same⟩ := processSendOperations_frame s
  rw [same]

@[simp] theorem processSendOperations_overflowed :
    s.processSendOperations.overflowed = s.overflowed := by
  obtain ⟨_, _, same⟩ := processSendOperations_frame s
  rw [same]

@[simp] theorem processSendOperations_executingNotification :
    s.processSendOperations.executingNotification = s.executingNotification := by
  obtain ⟨_, _, same⟩ := processSendOperations_frame s
  rw [same]

@[simp] theorem processSendOperations_receivedPacketIdentifier :
    s.processSendOperations.receivedPacketIdentifier = s.receivedPacketIdentifier := by
  obtain ⟨_, _, same⟩ := processSendOperations_frame s
  rw [same]

end

/-- The maximum size of `sendOperations`. -/
def maxSendOperations : Nat := 3

def queueSendOperation (operation : Operation) : StateConnected :=
  processSendOperations { s with
    sendOperations := s.sendOperations ++ [operation]
    overflowed := s.overflowed || decide (maxSendOperations ≤ s.sendOperations.length) }

def popFrontOperation : StateConnected :=
  processSendOperations { s with
    executingSend := false
    sendOperations := s.sendOperations.tail }

def generatePacketIdentifier (packetIdentifier : Nat) : Nat :=
  if (packetIdentifier + 1) % 65536 = 0 then 1 else (packetIdentifier + 1) % 65536

/-- `SendStreamAvailable` of an operation, with what it writes. -/
def sendOperation : Operation → StateConnected × Sent
  | .publish =>
    ({ s with
      operationTimeout := true
      packetIdentifier := generatePacketIdentifier s.packetIdentifier },
      .publish (generatePacketIdentifier s.packetIdentifier))
  | .subscribe => ({ s with operationTimeout := true }, .subscribe)
  | .pubAck => (popFrontOperation s, .pubAck s.receivedPacketIdentifier)
  | .ping =>
    (popFrontOperation { s with
      waitingForPingReply := true
      pingTimer := some .pingReplyTimeout }, .pingReq)

/-- `SendStreamAvailable`, which asserts that an operation is queued. -/
def sendStreamAvailable : Option (StateConnected × Sent) :=
  match s.sendOperations with
  | [] => none
  | operation :: _ =>
    let (next, sent) := sendOperation { s with streamRequested := false } operation
    some (if next.waitingForPingReply then next else startPing next, sent)

def publish (s : StateConnected) : StateConnected := queueSendOperation s .publish

def subscribe (s : StateConnected) : StateConnected := queueSendOperation s .subscribe

def sendPing : StateConnected := queueSendOperation s .ping

def notificationDone : StateConnected :=
  queueSendOperation { s with executingNotification := false } .pubAck

/-- The ping timer expires; without a reply the connection is aborted. -/
def pingTimerExpires : Option StateConnected :=
  match s.pingTimer with
  | some .sendPing => some (sendPing { s with pingTimer := none })
  | _ => none

/-- The end of `HandlePubAck`; the observer may publish again in `PublishDone`. -/
def pubAckReceived (again : Bool) : StateConnected :=
  let handled :=
    if s.sendOperations.head? = some .publish then
      popFrontOperation (if again then publish s else s)
    else s
  { handled with operationTimeout := false }

/-- The end of `HandleSubAck`; the observer may subscribe again in `SubscribeDone`. -/
def subAckReceived (again : Bool) : StateConnected :=
  let handled :=
    if s.sendOperations.head? = some .subscribe then
      popFrontOperation (if again then subscribe s else s)
    else s
  { handled with operationTimeout := false }

def handlePingReply : StateConnected :=
  processSendOperations (startPing { s with waitingForPingReply := false })

/-- `HandlePublish` up to the payload: the observer provides a writer. -/
def publishReceived (packetIdentifier payloadSize : Nat) : StateConnected :=
  { s with
    receivedPacketIdentifier := packetIdentifier
    notificationPayloadSize := payloadSize
    executingNotification := true
    notificationWriter := true }

/-- `HandleNotificationData` has written the whole payload. -/
def payloadWritten : StateConnected :=
  { s with notificationPayloadSize := 0, notificationWriter := false }

end StateConnected

end Mqtt
