import EmbeddedInfra.Sesame.Windowed

/-! `MessageCommunicationWindowed`: messages pass an atomic deque that the receiving
interrupt fills and the event dispatcher empties. One peer, then two of them over a
reliable transport. -/

namespace MessageCommunication

open Function

open Sesame (Side Packet add16 sub16)

abbrev Bytes := List UInt8

/-- The room of the receive deque, and the largest message of the transport, whose
`SendMessageStream` takes a size as `uint16_t`. -/
structure Storage where
  maxSize : Nat
  maxSendMessageSize : Nat
  sizeFits : maxSendMessageSize < 65536

inductive State
  | sendingInit
  | sendingInitResponse
  | operational
  | sendingMessage
  | sendingReleaseWindow
  deriving DecidableEq

/-- What is scheduled on the event dispatcher. -/
inductive Scheduled
  | initialized
  | setNextState
  | processReceivedMessage
  deriving DecidableEq

/-- A stream of the transport: at the observer that writes a message of at most `size`
bytes, on its way out, or out, with `OnSent` still to be called. -/
inductive Transmission
  | idle
  | writing (size : Nat)
  | sending (packet : Packet Bytes)
  | sent (packet : Packet Bytes)
  deriving DecidableEq

structure Windowed where
  receivedData : Bytes
  initialized : Bool
  /-- The size of the message that the observer holds a reader of. -/
  reader : Option Nat
  notificationScheduled : Bool
  otherAvailableWindow : Nat
  releasedWindowBuffer : Nat
  releasedWindow : Nat
  sendInitResponse : Bool
  sending : Bool
  requestedSendMessageSize : Option Nat
  state : State
  transmission : Transmission
  scheduled : List Scheduled
  deriving DecidableEq

/-- The room that a message takes in the deque, as `uint16_t`. -/
def windowSize (messageSize : Nat) : Nat := add16 messageSize 2

/-- A `uint16_t` as it is stored in the deque. -/
def stored (size : Nat) : Bytes := [UInt8.ofNat size, UInt8.ofNat (size / 256)]

def completeMessage : Bytes → Option Nat
  | low :: high :: rest =>
    let size := low.toNat + 256 * high.toNat
    if size ≤ rest.length then some size else none
  | _ => none

namespace Windowed

variable (d : Storage)

def availableWindow (receivedData : Bytes) : Nat := (d.maxSize - receivedData.length) % 65536

/-- The constructor, whose `StateSendingInit` announces the window. -/
def construct : Windowed :=
  { receivedData := []
    initialized := false
    reader := none
    notificationScheduled := false
    otherAvailableWindow := 0
    releasedWindowBuffer := 0
    releasedWindow := 0
    sendInitResponse := false
    sending := true
    requestedSendMessageSize := none
    state := .sendingInit
    transmission := .sending (.init (availableWindow d []))
    scheduled := [] }

variable (s : Windowed)

/-- The last two alternatives of `SelectNextState`. -/
def releaseOrRest : Windowed :=
  if s.releasedWindow ≠ 0 then
    { s with
      state := .sendingReleaseWindow
      sending := true
      transmission := .sending (.releaseWindow s.releasedWindow)
      releasedWindow := 0 }
  else { s with state := .operational }

def selectNextState : Windowed :=
  if s.sendInitResponse then
    if s.receivedData = [] then
      { s with
        state := .sendingInitResponse
        sending := true
        transmission := .sending (.initResponse (availableWindow d s.receivedData))
        releasedWindow := 0
        sendInitResponse := false }
    else s
  else
    match s.requestedSendMessageSize with
    | some size =>
      if windowSize size ≤ s.otherAvailableWindow then
        { s with
          state := .sendingMessage
          sending := true
          transmission := .writing size
          requestedSendMessageSize := none }
      else releaseOrRest s
    | none => releaseOrRest s

/-- `switchingState` is set while states are switched only, which nothing interrupts here. -/
def setNextState : Windowed := if s.sending then s else selectNextState d s

/-- `State::RequestSendMessage`, overridden in `StateOperational`. -/
def requestSendMessage (size : Nat) : Windowed :=
  let requested := { s with requestedSendMessageSize := some size }
  if s.state = .operational then requested.setNextState d else requested

def writeMessage (contents : Bytes) : Option Windowed :=
  match s.transmission with
  | .writing size =>
    if contents.length ≤ size then some { s with transmission := .sending (.message contents) }
    else none
  | _ => none

def transmitted : Option (Windowed × Packet Bytes) :=
  match s.transmission with
  | .sending packet => some ({ s with transmission := .sent packet }, packet)
  | _ => none

/-- What `OnSent` of the state that sent the packet counts against the window. -/
def charge : Packet Bytes → Nat
  | .message contents => windowSize contents.length
  | _ => 0

def onSent : Option Windowed :=
  match s.transmission with
  | .sent packet =>
    some (setNextState d { s with
      otherAvailableWindow := sub16 s.otherAvailableWindow (charge packet)
      sending := false
      transmission := .idle })
  | _ => none

def evaluateReceiveMessage : Windowed × Bool :=
  if s.notificationScheduled = false ∧ s.reader = none ∧ (completeMessage s.receivedData).isSome then
    ({ s with
      notificationScheduled := true
      scheduled := s.scheduled ++ [.processReceivedMessage] }, true)
  else (s, false)

/-- `ReceivedMessage`, with its assertion that the deque has room. -/
def receivedMessage (contents : Bytes) : Option Windowed :=
  let size := contents.length % 65536
  if size + 2 ≤ d.maxSize - s.receivedData.length then
    some (evaluateReceiveMessage
      { s with receivedData := s.receivedData ++ (stored size ++ contents.take size) }).1
  else none

def schedule (actions : List Scheduled) : Windowed :=
  { s with scheduled := s.scheduled ++ actions }

def receivedMessageOnInterrupt (packet : Packet Bytes) : Option Windowed :=
  match packet with
  | .init window =>
    some (schedule { s with
      sendInitResponse := true
      otherAvailableWindow := window
      initialized := true } [.initialized, .setNextState])
  | .initResponse window =>
    some (schedule { s with
      otherAvailableWindow := window
      initialized := true } [.initialized, .setNextState])
  | .releaseWindow window =>
    if s.initialized then
      some (schedule { s with
        otherAvailableWindow := add16 s.otherAvailableWindow window } [.setNextState])
    else some (schedule s [.setNextState])
  | .message contents =>
    if s.initialized then
      (receivedMessage d s contents).map fun received => schedule received [.setNextState]
    else some (schedule s [.setNextState])

/-- The action of `reader.OnAllocatable`: the observer releases its reader. -/
def releaseReader : Option Windowed :=
  s.reader.map fun size =>
    let popped := { s with
      reader := none
      receivedData := s.receivedData.drop size
      releasedWindowBuffer := add16 s.releasedWindowBuffer (size + 2) }
    if popped.evaluateReceiveMessage.2 then popped.evaluateReceiveMessage.1
    else setNextState d { popped with
      releasedWindow := add16 popped.releasedWindow popped.releasedWindowBuffer
      releasedWindowBuffer := 0 }

/-- `ProcessReceivedMessage`, with the message that the observer gets a reader of.
The observer may release the reader before it returns. -/
def processReceivedMessage (releases : Bool) : Option (Windowed × Option Bytes) :=
  match completeMessage s.receivedData with
  | some size =>
    if s.reader = none then
      let reading := { s with receivedData := s.receivedData.drop 2, reader := some size }
      let returned := if releases then (reading.releaseReader d).getD reading else reading
      some ((evaluateReceiveMessage { returned with notificationScheduled := false }).1,
        some (reading.receivedData.take size))
    else none
  | none => some ((evaluateReceiveMessage { s with notificationScheduled := false }).1, none)

/-- The event dispatcher executes what has been scheduled first. -/
def execute (releases : Bool) : Option (Windowed × Option Bytes) :=
  match s.scheduled with
  | [] => none
  | .initialized :: rest => some ({ s with scheduled := rest }, none)
  | .setNextState :: rest => some (setNextState d { s with scheduled := rest }, none)
  | .processReceivedMessage :: rest => processReceivedMessage d { s with scheduled := rest } releases

end Windowed

/-- Two peers and, for each side, the packets in flight from it, the oldest first, with
the messages that have been sent by it and those that its observer got a reader of. -/
structure Connection where
  peer : Side → Windowed
  link : Side → List (Packet Bytes)
  sent : Side → List Bytes
  received : Side → List Bytes

def messageOf : Packet Bytes → List Bytes
  | .message contents => [contents]
  | _ => []

inductive Action
  | requestSendMessage (p : Side) (size : Nat)
  | writeMessage (p : Side) (contents : Bytes)
  | transmitted (p : Side)
  | onSent (p : Side)
  | deliver (p : Side)
  | execute (p : Side) (releases : Bool)
  | releaseReader (p : Side)
  | restart (p : Side)
  deriving DecidableEq

namespace Connection

def construct (d : Side → Storage) : Connection :=
  ⟨fun p => .construct (d p), fun _ => [], fun _ => [], fun _ => []⟩

variable (s : Connection)

def setPeer (p : Side) (peer : Windowed) : Connection :=
  { s with peer := update s.peer p peer }

def setLink (p : Side) (link : List (Packet Bytes)) : Connection :=
  { s with link := update s.link p link }

def logSent (p : Side) (messages : List Bytes) : Connection :=
  { s with sent := update s.sent p (s.sent p ++ messages) }

def logReceived (p : Side) (messages : List Bytes) : Connection :=
  { s with received := update s.received p (s.received p ++ messages) }

/-- One step. Interrupts and the event dispatcher take turns; a packet may be delivered
before the sender gets to its `OnSent`, and one that is not out is lost in a restart. -/
def step (d : Side → Storage) (s : Connection) : Action → Option Connection
  | .requestSendMessage p size =>
    if size + 1 ≤ (d p).maxSendMessageSize then
      some (s.setPeer p ((s.peer p).requestSendMessage (d p) size))
    else none
  | .writeMessage p contents => ((s.peer p).writeMessage contents).map (s.setPeer p)
  | .transmitted p =>
    (s.peer p).transmitted.map fun (peer, packet) =>
      ((s.setPeer p peer).setLink p (s.link p ++ [packet])).logSent p (messageOf packet)
  | .onSent p => ((s.peer p).onSent (d p)).map (s.setPeer p)
  | .deliver p =>
    match s.link p.other with
    | [] => none
    | packet :: rest =>
      ((s.peer p).receivedMessageOnInterrupt (d p) packet).map fun peer =>
        (s.setPeer p peer).setLink p.other rest
  | .execute p releases =>
    ((s.peer p).execute (d p) releases).map fun (peer, message) =>
      (s.setPeer p peer).logReceived p message.toList
  | .releaseReader p => ((s.peer p).releaseReader (d p)).map (s.setPeer p)
  | .restart p => some (s.setPeer p (.construct (d p)))

end Connection

end MessageCommunication
