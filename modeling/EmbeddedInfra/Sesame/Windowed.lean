import EmbeddedInfra.Runs
import Mathlib.Tactic

/-! The windowed Sesame layer: one peer, with the part of its delegate that the
flow control depends on. The contents of messages are left open (`β`). -/

namespace Sesame

open Function

abbrev Bytes := List UInt8

/-- What the windowed layer uses of its `SesameEncoded` delegate. -/
structure SesameEncoded where
  maxSendMessageSize : Nat
  messageSize : Nat → Nat
  /-- `ownBufferSize` and `releaseWindowSize` are stored as `uint16_t`. -/
  bufferFits : maxSendMessageSize < 65536
  releaseFits : messageSize 3 < 65536

inductive Packet (β : Type)
  | init (window : Nat)
  | initResponse (window : Nat)
  | releaseWindow (window : Nat)
  | message (contents : β)
  deriving DecidableEq

inductive WindowedState
  | sendingInit
  | sendingInitResponse
  | operational
  | sendingMessage (requestedSize : Nat)
  | sendingReleaseWindow
  deriving DecidableEq

/-- How far the delegate is with the message last requested from it: waiting for a
stream, with the stream at the observer, or with the packet on its way out. -/
inductive Transmission (β : Type)
  | idle
  | requested (size : Nat)
  | writing (size : Nat)
  | sending (packet : Packet β) (size : Nat)
  deriving DecidableEq

structure SesameWindowed (β : Type) where
  initialized : Bool
  /-- The encoded size of the message that the observer holds a reader of. -/
  receivedMessageReader : Option Nat
  otherAvailableWindow : Nat
  maxUsableBufferSize : Nat
  releasedWindow : Nat
  sendInitResponse : Bool
  sending : Bool
  requestedSendMessageSize : Option Nat
  state : WindowedState
  transmission : Transmission β
  deriving DecidableEq

variable (a : Nat) (p : Side)

/-- Addition and subtraction of `uint16_t`. -/
def add16 (b : Nat) : Nat := (a + b) % 65536
def sub16 (b : Nat) : Nat := (a + 65536 - b % 65536) % 65536

/-- Subtraction of `std::size_t`. -/
def subSize (b : Nat) : Nat := (a + 2 ^ 64 - b % 2 ^ 64) % 2 ^ 64

/-- A notification to the `SesameObserver`. -/
inductive Notification (β : Type)
  | initialized
  | receivedMessage (contents : β)
  deriving DecidableEq

namespace SesameWindowed

variable {β : Type}

/-- The constructor, which requests the stream for `init`. -/
def construct : SesameWindowed β :=
  { initialized := false
    receivedMessageReader := none
    otherAvailableWindow := 0
    maxUsableBufferSize := 0
    releasedWindow := 0
    sendInitResponse := false
    sending := true
    requestedSendMessageSize := none
    state := .sendingInit
    transmission := .requested 3 }

variable (d : SesameEncoded)

def ownBufferSize : Nat := d.maxSendMessageSize
def releaseWindowSize : Nat := d.messageSize 3

/-- The largest message when the other peer announced a buffer of `usable` bytes. -/
def maxMessageSize (usable : Nat) : Nat :=
  subSize (subSize (subSize (min (ownBufferSize d) usable) 1)
    (releaseWindowSize d)) (d.messageSize 1) / 2

variable (s : SesameWindowed β)

def maxSendMessageSize : Nat := maxMessageSize d s.maxUsableBufferSize

/-- `state.Emplace<..>(*this).Request()` for a state that sends `size` bytes. -/
def request (state : WindowedState) (size : Nat) : SesameWindowed β :=
  { s with state := state, sending := true, transmission := .requested size }

def setNextState : SesameWindowed β :=
  if s.sending = false ∧ s.initialized = true then
    if s.sendInitResponse then
      if s.receivedMessageReader = none then s.request .sendingInitResponse 3 else s
    else
      match s.requestedSendMessageSize with
      | some size =>
        if d.messageSize (size + 1) + releaseWindowSize d ≤ s.otherAvailableWindow then
          s.request (.sendingMessage (size + 1)) (size + 1)
        else if releaseWindowSize d < s.releasedWindow ∧
            releaseWindowSize d ≤ s.otherAvailableWindow then
          s.request .sendingReleaseWindow 3
        else { s with state := .operational }
      | none =>
        if releaseWindowSize d < s.releasedWindow ∧
            releaseWindowSize d ≤ s.otherAvailableWindow then
          s.request .sendingReleaseWindow 3
        else { s with state := .operational }
  else s

/-- `Reset`, with its assertion that the observer holds no reader. -/
def reset : Option (SesameWindowed β) :=
  if s.receivedMessageReader = none then some construct else none

/-- `State::RequestSendMessage`, overridden in `StateOperational`. -/
def requestSendMessage (size : Nat) : SesameWindowed β :=
  let stored := { s with requestedSendMessageSize := some size }
  if s.state = .operational then stored.setNextState d else stored

/-- `SendMessageStreamAvailable` of the states; the one of `StateOperational`
aborts. -/
def sendMessageStreamAvailable : Option (SesameWindowed β) :=
  match s.transmission with
  | .requested size =>
    match s.state with
    | .sendingInit => some { s with transmission := .sending (.init (ownBufferSize d)) size }
    | .sendingInitResponse =>
      some { s with
        transmission := .sending (.initResponse (ownBufferSize d)) size
        releasedWindow := 0
        sendInitResponse := false }
    | .sendingMessage _ =>
      some { s with transmission := .writing size, requestedSendMessageSize := none }
    | .sendingReleaseWindow =>
      some { s with
        transmission := .sending (.releaseWindow s.releasedWindow) size
        releasedWindow := 0 }
    | .operational => none
  | _ => none

def writeMessage (contents : β) : Option (SesameWindowed β) :=
  match s.transmission with
  | .writing size => some { s with transmission := .sending (.message contents) size }
  | _ => none

/-- `MessageSent` of the states: `init` does not count against the window. The
packet leaves the delegate with this call. -/
def messageSent (encodedSize : Nat) : Option (SesameWindowed β × Packet β) :=
  match s.transmission with
  | .sending packet _ =>
    let charged :=
      if s.state = .sendingInit then s.otherAvailableWindow
      else sub16 s.otherAvailableWindow encodedSize
    some (setNextState d
      { s with
        otherAvailableWindow := charged
        sending := false
        transmission := .idle }, packet)
  | _ => none

def receivedInitialize : SesameWindowed β :=
  { s with maxUsableBufferSize := s.otherAvailableWindow, initialized := true }

def receivedMessage (s : SesameWindowed β) (packet : Packet β) (encodedSize : Nat) :
    SesameWindowed β × Option (Notification β) :=
  match packet with
  | .init window =>
    (setNextState d (receivedInitialize
      { s with otherAvailableWindow := window, sendInitResponse := true }), some .initialized)
  | .initResponse window =>
    (setNextState d (receivedInitialize
      { s with otherAvailableWindow := window, releasedWindow := encodedSize % 65536 }),
      some .initialized)
  | .releaseWindow window =>
    if s.initialized then
      (setNextState d { s with
        releasedWindow := add16 s.releasedWindow encodedSize
        otherAvailableWindow := add16 s.otherAvailableWindow window }, none)
    else (setNextState d s, none)
  | .message contents =>
    if s.initialized then
      (setNextState d { s with receivedMessageReader := some (encodedSize % 65536) },
        some (.receivedMessage contents))
    else (setNextState d s, none)

/-- The action of `readerAccess`: the observer releases the reader it holds. -/
def readerReleased : Option (SesameWindowed β) :=
  s.receivedMessageReader.map fun encodedSize =>
    setNextState d { s with
      releasedWindow := add16 s.releasedWindow encodedSize
      receivedMessageReader := none }

end SesameWindowed

/-- The two ends of a connection. -/
inductive Side
  | left
  | right
  deriving DecidableEq

def Side.other : Side → Side
  | .left => .right
  | .right => .left

@[simp] theorem Side.other_other : p.other.other = p := by cases p <;> rfl
@[simp] theorem Side.other_ne : p.other ≠ p := by cases p <;> decide
@[simp] theorem Side.ne_other : p ≠ p.other := by cases p <;> decide

theorem Side.eq_or_other (q : Side) : q = p ∨ q = p.other := by
  cases p <;> cases q <;> decide

theorem Side.forall_of {P : Side → Prop} (self : P p) (other : P p.other) : ∀ r, P r := by
  intro r
  rcases Side.eq_or_other p r with rfl | rfl
  · exact self
  · exact other

/-- Two peers and, for each side, the packets in flight from it, with their encoded
sizes and the oldest first. -/
structure Connection (β : Type) where
  peer : Side → SesameWindowed β
  link : Side → List (Packet β × Nat)

namespace Connection

variable {β : Type}

def construct : Connection β := ⟨fun _ => .construct, fun _ => []⟩

variable (s : Connection β)

def setPeer (p : Side) (peer : SesameWindowed β) : Connection β :=
  { s with peer := update s.peer p peer }

def setLink (p : Side) (link : List (Packet β × Nat)) : Connection β :=
  { s with link := update s.link p link }

@[simp] theorem setPeer_peer (p : Side) (peer : SesameWindowed β) :
    (s.setPeer p peer).peer p = peer := update_self ..

@[simp] theorem setPeer_peer_other (p : Side) (peer : SesameWindowed β) :
    (s.setPeer p peer).peer p.other = s.peer p.other :=
  update_of_ne (Side.other_ne p) ..

@[simp] theorem setPeer_link (p : Side) (peer : SesameWindowed β) :
    (s.setPeer p peer).link = s.link := rfl

@[simp] theorem setLink_link (p : Side) (link : List (Packet β × Nat)) :
    (s.setLink p link).link p = link := update_self ..

@[simp] theorem setLink_link_other (p : Side) (link : List (Packet β × Nat)) :
    (s.setLink p link).link p.other = s.link p.other :=
  update_of_ne (Side.other_ne p) ..

@[simp] theorem setLink_other_link (p : Side) (link : List (Packet β × Nat)) :
    (s.setLink p.other link).link p = s.link p :=
  update_of_ne (Side.ne_other p) ..

@[simp] theorem setLink_peer (p : Side) (link : List (Packet β × Nat)) :
    (s.setLink p link).peer = s.peer := rfl

inductive Action (β : Type)
  | sendMessageStreamAvailable (p : Side)
  | writeMessage (p : Side) (contents : β)
  | messageSent (p : Side) (encodedSize : Nat)
  | deliver (p : Side)
  | readerReleased (p : Side)
  | requestSendMessage (p : Side) (size : Nat)
  | reset (p : Side)
  deriving DecidableEq

/-- The delegate encodes a message within the size it announced, with one more byte
for the delimiter before the first message, which is an `init`. -/
def encodedWithin (d : SesameEncoded) (peer : SesameWindowed β) (encodedSize : Nat) : Bool :=
  match peer.transmission with
  | .sending (.init _) size => decide (0 < encodedSize ∧ encodedSize ≤ d.messageSize size + 1)
  | .sending _ size => decide (0 < encodedSize ∧ encodedSize ≤ d.messageSize size)
  | _ => false

/-- One step of the connection. A packet is in flight from the moment the delegate
reports it as sent; the delegate of the receiver hands over the next packet only
when no reader is held, and `MaxSendMessageSize` may only be asked for, and a
message of at most that size requested, after initialization. -/
def step (d : Side → SesameEncoded) (s : Connection β) : Action β → Option (Connection β)
  | .sendMessageStreamAvailable p =>
    ((s.peer p).sendMessageStreamAvailable (d p)).map (s.setPeer p)
  | .writeMessage p contents => ((s.peer p).writeMessage contents).map (s.setPeer p)
  | .messageSent p encodedSize =>
    if encodedWithin (d p) (s.peer p) encodedSize then
      ((s.peer p).messageSent (d p) encodedSize).map fun (peer, packet) =>
        (s.setPeer p peer).setLink p (s.link p ++ [(packet, encodedSize)])
    else none
  | .deliver p =>
    match s.link p.other with
    | [] => none
    | (packet, encodedSize) :: rest =>
      if (s.peer p).receivedMessageReader = none then
        some ((s.setPeer p ((s.peer p).receivedMessage (d p) packet encodedSize).1).setLink
          p.other rest)
      else none
  | .readerReleased p => ((s.peer p).readerReleased (d p)).map (s.setPeer p)
  | .requestSendMessage p size =>
    if (s.peer p).initialized = true ∧ size ≤ (s.peer p).maxSendMessageSize (d p) then
      some (s.setPeer p ((s.peer p).requestSendMessage (d p) size))
    else none
  | .reset p => (s.peer p).reset.map (s.setPeer p)

end Connection

end Sesame
