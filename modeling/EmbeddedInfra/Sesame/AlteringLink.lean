import EmbeddedInfra.Sesame.InStep

/-! Two secured peers after their `Initialized`, over a link that may lose, repeat, reorder and
alter what is sent. -/

namespace Sesame

open Function

namespace SesameSecured

/-- The loop of `ReceivedMessage` with the buffer that it fills; `resize` asserts that there is
room. -/
def decryptInto (decryption : AesGcmEncryption) (maxSize : Nat) :
    Nat → decryption.Session → Bytes → Bytes → Option (decryption.Session × Bytes)
  | 0, session, receiveBuffer, _ => some (session, receiveBuffer)
  | rounds + 1, session, receiveBuffer, encrypted =>
    if encrypted = [] then some (session, receiveBuffer)
    else
      let part := encrypted.take blockSize
      if maxSize < receiveBuffer.length + part.length then none
      else
        let (next, processed) := decryption.update session part
        decryptInto decryption maxSize rounds next (receiveBuffer ++ processed)
          (encrypted.drop blockSize)

/-- `ReceivedMessage` with a receive buffer of this `max_size()`. -/
def receivedMessageInto (cipher : AesGcm) (maxSize : Nat) (s : SesameSecured) (message : Bytes) :
    Option (SesameSecured × Reception) :=
  if message.length < blockSize then some (s, .tooShort)
  else
    let encrypted := message.take (message.length - blockSize)
    let receivedMac := message.drop (message.length - blockSize)
    let session := cipher.decryption.start s.receiveKey s.receiveIv
    (decryptInto cipher.decryption maxSize encrypted.length session [] encrypted).map
      fun (session, receiveBuffer) =>
        if (cipher.decryption.finish session).2.val = receivedMac then
          ({ s with receiveIv := increaseIv s.receiveIv }, .received receiveBuffer)
        else (s, .integrityCheckFailed)

end SesameSecured

/-- What each side has sent, what its observer was given, and how often it was told
`IntegrityCheckFailed`. -/
structure SecuredLink where
  peer : Side → SesameSecured
  receiveBufferSize : Side → Nat
  sent : Side → List Encryption
  received : Side → List Bytes
  failures : Side → Nat

namespace SecuredLink

/-- Both sides have just been notified `Initialized`. -/
def initialized (peer : Side → SesameSecured) (receiveBufferSize : Side → Nat) : SecuredLink where
  peer p := (peer p).initialized
  receiveBufferSize := receiveBufferSize
  sent _ := []
  received _ := []
  failures _ := 0

inductive Event
  | requestSendMessage (p : Side) (delegateMax size : Nat)
  | sendMessageStreamAvailable (p : Side)
  | sendMessageStreamReleased (p : Side) (contents : Bytes)
  | receivedMessage (p : Side) (frame : Bytes)
  deriving DecidableEq

def report (s : SecuredLink) (p : Side) : SesameSecured × SesameSecured.Reception → SecuredLink
  | (_, .tooShort) => s
  | (_, .integrityCheckFailed) =>
    { s with failures := update s.failures p (s.failures p + 1) }
  | (peer, .received contents) =>
    { s with
      peer := update s.peer p peer
      received := update s.received p (s.received p ++ [contents]) }

/-- The link hands any bytes to a peer. -/
def step (cipher : AesGcm) (s : SecuredLink) : Event → Option SecuredLink
  | .requestSendMessage p delegateMax size =>
    ((s.peer p).requestSendMessage delegateMax size).map fun (peer, _) =>
      { s with peer := update s.peer p peer }
  | .sendMessageStreamAvailable p =>
    some { s with peer := update s.peer p (s.peer p).sendMessageStreamAvailable }
  | .sendMessageStreamReleased p contents =>
    if (s.peer p).sendWriter = true ∧ contents.length ≤ (s.peer p).requestedSendSize then
      ((s.peer p).sendMessageStreamReleased cipher contents).map fun (peer, _) =>
        { s with
          peer := update s.peer p peer
          sent := update s.sent p (s.sent p ++
            [⟨contents, (s.peer p).sendEncryption.key, (s.peer p).sendIv⟩]) }
    else none
  | .receivedMessage p frame =>
    ((s.peer p).receivedMessageInto cipher (s.receiveBufferSize p) frame).map (s.report p)

end SecuredLink

end Sesame
