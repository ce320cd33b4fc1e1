import EmbeddedInfra.Cobs
import EmbeddedInfra.Sesame.Windowed

/-! The COBS layer below the windowed one: the half that sends, the half that receives, and
the bytes that go from one to the other. -/

namespace Sesame

/-- The completion of the `SendData` that the serial communication works on, named after
the function that called it. -/
inductive SendCompletion
  | sendFirstDelimiter
  | sendFrame
  | sendData
  | sendLastDelimiter
  deriving DecidableEq

structure CobsSender where
  sendRequestedSize : Option Nat
  sendingFirstPacket : Bool
  sendingUserData : Bool
  resetting : Bool
  sendSizeEncoded : Nat
  sendStorage : Bytes
  /-- The limit of the writer that the observer holds. -/
  sendStream : Option Nat
  /-- Whether `Reset` replaced the action of `sendStream` while the writer was held. -/
  sendStreamDiscarded : Bool
  dataToSend : Bytes
  frameSize : Nat
  completion : Option SendCompletion
  /-- What was handed to `SendData` so far. -/
  serialData : Bytes
  /-- The sizes reported by `MessageSent` so far. -/
  messagesSent : List Nat
  deriving DecidableEq

namespace CobsSender

def construct : CobsSender :=
  { sendRequestedSize := none
    sendingFirstPacket := true
    sendingUserData := false
    resetting := false
    sendSizeEncoded := 0
    sendStorage := []
    sendStream := none
    sendStreamDiscarded := false
    dataToSend := []
    frameSize := 0
    completion := none
    serialData := []
    messagesSent := [] }

def maxSendMessageSize (maxSize : Nat) : Nat :=
  subSize (subSize maxSize 2) (subSize maxSize 2 / 255)

def messageSize (size : Nat) : Nat := size + size / 254 + 2

variable (s : CobsSender)

/-- `Emplace` asserts that the writer given out before was released. -/
def checkReadyToSendUserData : Option CobsSender :=
  match s.sendingUserData, s.sendRequestedSize with
  | false, some size =>
    if s.sendStream = none then some { s with sendRequestedSize := none, sendStream := some size }
    else none
  | _, _ => some s

def requestSendMessage (size : Nat) : Option CobsSender :=
  if s.sendRequestedSize = none then
    checkReadyToSendUserData { s with sendRequestedSize := some size }
  else none

def finishReset : Option CobsSender :=
  checkReadyToSendUserData
    { s with resetting := false, sendingUserData := false, sendSizeEncoded := 0 }

/-- The part of `Reset` that concerns sending. -/
def reset : Option CobsSender :=
  let s :=
    if s.sendStream = none then { s with sendStorage := [] }
    else { s with sendStreamDiscarded := true }
  let s := { s with sendingFirstPacket := true, sendRequestedSize := none }
  if s.sendingUserData then some { s with resetting := true } else s.finishReset

/-- The position of the first delimiter among the next 254 bytes, or how many there are. -/
def findDelimiter : Nat := ((s.dataToSend.take 254).takeWhile (· ≠ 0)).length

/-- `SendData` of the serial communication. -/
def send (data : Bytes) (completion : SendCompletion) : CobsSender :=
  { s with
    sendSizeEncoded := s.sendSizeEncoded + data.length
    completion := some completion
    serialData := s.serialData ++ data }

def sendFrame (s : CobsSender) : CobsSender :=
  let frameSize := s.findDelimiter + 1
  send { s with frameSize := frameSize } [UInt8.ofNat frameSize] .sendFrame

def sendFirstDelimiter (s : CobsSender) : CobsSender :=
  send { s with sendingFirstPacket := false } [0] .sendFirstDelimiter

def sendLastDelimiter (s : CobsSender) : CobsSender := s.send [0] .sendLastDelimiter

def sendData (s : CobsSender) (data : Bytes) : CobsSender := s.send data .sendData

def sendOrDone : Option CobsSender :=
  if s.resetting then s.finishReset
  else if s.dataToSend = [] then some s.sendLastDelimiter
  else some s.sendFrame

def sendFrameDone : Option CobsSender :=
  let rest := s.dataToSend.drop s.frameSize
  if rest = [] ∨ s.frameSize = 254 then sendOrDone { s with dataToSend := rest }
  else some (sendFrame { s with dataToSend := rest.tail })

def sendStreamFilled : Option CobsSender :=
  let s := { s with sendingUserData := true, dataToSend := s.sendStorage }
  if s.sendingFirstPacket then some s.sendFirstDelimiter else s.sendOrDone

def writeMessage (maxSize : Nat) (s : CobsSender) (contents : Bytes) : Option CobsSender :=
  match s.sendStream with
  | none => none
  | some limit =>
    if contents.length ≤ min limit (maxSize - s.sendStorage.length) then
      if s.sendStreamDiscarded then
        some { s with sendStream := none, sendStreamDiscarded := false, sendStorage := [] }
      else
        sendStreamFilled
          { s with sendStream := none, sendStorage := s.sendStorage ++ contents }
    else none

/-- The serial communication is done with what it was handed last. -/
def sendDone : Option CobsSender :=
  match s.completion with
  | none => none
  | some .sendFirstDelimiter => sendOrDone { s with completion := none }
  | some .sendFrame =>
    let s := { s with completion := none, frameSize := s.frameSize - 1 }
    if s.resetting then s.finishReset
    else if s.frameSize ≠ 0 then some (s.sendData (s.dataToSend.take s.frameSize))
    else s.sendFrameDone
  | some .sendData => sendFrameDone { s with completion := none }
  | some .sendLastDelimiter =>
    if s.resetting then finishReset { s with completion := none }
    else
      checkReadyToSendUserData
        { s with
          completion := none
          sendStorage := []
          dataToSend := []
          messagesSent := s.messagesSent ++ [s.sendSizeEncoded]
          sendSizeEncoded := 0
          sendingUserData := false }

end CobsSender

structure CobsReceiver where
  nextOverhead : Nat
  overheadPositionIsPseudo : Bool
  receivedMessage : Bytes
  receiveSizeEncoded : Nat
  currentMessageSize : Nat
  /-- How much of `receivedMessage` goes when the observer releases the reader it holds. -/
  receivedDataReader : Option Nat
  /-- What the observer was given by `ReceivedMessage` so far. -/
  messagesReceived : List (Bytes × Nat)
  deriving DecidableEq

/-- What a function on the range of received bytes leaves: the receiver, and the bytes
that it did not take. -/
abbrev Progress := Option (CobsReceiver × Bytes)

namespace CobsReceiver

def construct : CobsReceiver :=
  { nextOverhead := 1
    overheadPositionIsPseudo := true
    receivedMessage := []
    receiveSizeEncoded := 0
    currentMessageSize := 0
    receivedDataReader := none
    messagesReceived := [] }

/-- `receiveBufferSize`, the capacity of `receivedMessage`. -/
def receiveBufferSize (maxMessageSize : Nat) : Nat := maxMessageSize + maxMessageSize / 254 + 2

section

/- The capacity of `receivedMessage`, and whether the observer holds on to the reader of a
message, by the number of messages it received before. -/
variable (capacity : Nat) (keeps : Nat → Bool)

variable (s : CobsReceiver)

def receivedPayload (data : Bytes) : Option CobsReceiver :=
  if s.receivedMessage.length + data.length ≤ capacity then
    some { s with
      receivedMessage := s.receivedMessage ++ data
      currentMessageSize := s.currentMessageSize + data.length }
  else none

def finishMessage : Option CobsReceiver :=
  let messageSize := s.currentMessageSize
  let s := { s with currentMessageSize := 0 }
  if messageSize = 0 then some s
  else if s.receivedDataReader = none then
    let message := (s.receivedMessage.take messageSize, s.receiveSizeEncoded)
    let given :=
      { s with receiveSizeEncoded := 0, messagesReceived := s.messagesReceived ++ [message] }
    if keeps s.messagesReceived.length then some { given with receivedDataReader := some messageSize }
    else some { given with receivedMessage := s.receivedMessage.drop messageSize }
  else none

def messageBoundary (data : Bytes) : Progress :=
  (finishMessage keeps { s with receiveSizeEncoded := s.receiveSizeEncoded + 1 }).map fun s =>
    ({ s with nextOverhead := 1, overheadPositionIsPseudo := true }, data.tail)

def extractOverhead (data : Bytes) : Progress :=
  data.head?.bind fun overhead =>
    let s := { s with nextOverhead := overhead.toNat }
    if s.nextOverhead = 0 then s.messageBoundary keeps data
    else
      let s := { s with receiveSizeEncoded := s.receiveSizeEncoded + 1 }
      (if s.overheadPositionIsPseudo then some s else s.receivedPayload capacity [0]).map fun s =>
        ({ s with overheadPositionIsPseudo := s.nextOverhead = 255 }, data.tail)

def forwardData (contents data : Bytes) : Progress :=
  (s.receivedPayload capacity contents).map fun s =>
    ({ s with
      receiveSizeEncoded := s.receiveSizeEncoded + contents.length
      nextOverhead := s.nextOverhead - contents.length }, data.drop contents.length)

def extractData (data : Bytes) : Progress :=
  let range := data.take (s.nextOverhead - 1)
  let preDelimiter := range.takeWhile (· ≠ 0)
  let postDelimiter := range.dropWhile (· ≠ 0)
  (if preDelimiter = [] then some (s, data) else s.forwardData capacity preDelimiter data).bind
    fun (s, data) => if postDelimiter = [] then some (s, data) else s.messageBoundary keeps data

/-- The loop of `ReceivedData`, with a bound on its turns. -/
def receivedDataFor : Nat → CobsReceiver → Bytes → Progress
  | turns, s, data =>
    if data = [] then some (s, [])
    else
      match turns with
      | 0 => none
      | turns + 1 =>
        if s.nextOverhead = 1 then
          (s.extractOverhead capacity keeps data).bind fun (s, data) =>
            if s.receivedDataReader = none then receivedDataFor turns s data
            else some (s, data)
        else
          (s.extractData capacity keeps data).bind fun (s, data) =>
            receivedDataFor turns s data

/-- Every turn takes at least one byte. -/
def receivedData (data : Bytes) : Progress :=
  s.receivedDataFor capacity keeps data.length data

end

/-- The part of `Reset` that concerns receiving: the action of a reader that is held is
dropped. -/
def reset (s : CobsReceiver) : CobsReceiver :=
  { s with
    nextOverhead := 1
    overheadPositionIsPseudo := true
    receivedMessage := []
    receiveSizeEncoded := 0
    currentMessageSize := 0
    receivedDataReader := s.receivedDataReader.map fun _ => 0 }

/-- The action of `receivedDataReader`: the observer releases the reader it holds. -/
def readerReleased (s : CobsReceiver) : Option CobsReceiver :=
  s.receivedDataReader.map fun messageSize =>
    { s with receivedDataReader := none, receivedMessage := s.receivedMessage.drop messageSize }

end CobsReceiver

/-- One direction between two peers with the same maximum message size. -/
structure CobsLink where
  sender : CobsSender
  receiver : CobsReceiver
  /-- How many of the bytes sent the receiver took from its reader. -/
  acknowledged : Nat
  /-- The messages that the sender's observer wrote. -/
  written : List Bytes
  deriving DecidableEq

namespace CobsLink

def construct : CobsLink := ⟨.construct, .construct, 0, []⟩

/-- The bytes that the serial communication holds for the receiver. -/
def available (s : CobsLink) : Bytes := s.sender.serialData.drop s.acknowledged

inductive Action
  | requestSendMessage (size : Nat)
  | writeMessage (contents : Bytes)
  | sendDone
  | dataReceived (size : Nat)
  | readerReleased
  deriving DecidableEq

/-- One step of the link. `dataReceived` is a turn of the loop in `DataReceived`, for a
contiguous range of any size that is not empty: it is taken when no reader is held, and
what the receiver leaves of the range stays with the serial communication. -/
def step (maxMessageSize : Nat) (keeps : Nat → Bool) (s : CobsLink) : Action → Option CobsLink
  | .requestSendMessage size => (s.sender.requestSendMessage size).map ({ s with sender := · })
  | .writeMessage contents =>
    if contents = [] then none
    else (s.sender.writeMessage maxMessageSize contents).map fun sender =>
      { s with sender := sender, written := s.written ++ [contents] }
  | .sendDone => s.sender.sendDone.map ({ s with sender := · })
  | .dataReceived size =>
    let range := s.available.take size
    if range ≠ [] ∧ s.receiver.receivedDataReader = none then
      (s.receiver.receivedData (CobsReceiver.receiveBufferSize maxMessageSize) keeps range).map
        fun (receiver, rest) =>
          { s with
            receiver := receiver
            acknowledged := s.acknowledged + (range.length - rest.length) }
    else none
  | .readerReleased => s.receiver.readerReleased.map ({ s with receiver := · })

end CobsLink

end Sesame
