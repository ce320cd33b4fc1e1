import EmbeddedInfra.Sesame.Windowed

/-! The secured Sesame layer: AES-GCM over messages, with one key and one
initialisation vector for each direction. The cipher is a parameter. -/

namespace Sesame

def keySize : Nat := 16
def blockSize : Nat := 16

/-- `std::array<uint8_t, size>`. -/
abbrev Block (size : Nat) := { bytes : Bytes // bytes.length = size }

abbrev KeyType := Block keySize
abbrev IvType := Block blockSize
abbrev MacType := Block blockSize

/-- The operations of `AesGcmEncryption` between `Start` and `Finish`, for one
direction. `update` and `finish` return the bytes they write. -/
structure AesGcmEncryption where
  Session : Type
  start : KeyType → IvType → Session
  update : Session → Bytes → Session × Bytes
  finish : Session → Bytes × MacType

/-- The cipher used with `EncryptWithKey` and with `DecryptWithKey`. -/
structure AesGcm where
  encryption : AesGcmEncryption
  decryption : AesGcmEncryption

/-- The loop of `IncreaseIv`, with `index` one past the byte to increase. -/
def increaseFrom : Nat → Bytes → Bytes
  | 0, iv => iv
  | index + 1, iv =>
    let increased := iv.set index (iv.getD index 0 + 1)
    if increased.getD index 0 ≠ 0 then increased else increaseFrom index increased

theorem length_increaseFrom (index : Nat) (iv : Bytes) :
    (increaseFrom index iv).length = iv.length := by
  induction index generalizing iv with
  | zero => rfl
  | succ index ih =>
    simp only [increaseFrom]
    split
    · simp
    · simp [ih]

def increaseIv (iv : IvType) : IvType :=
  ⟨increaseFrom (iv.val.length / 2) iv.val, by rw [length_increaseFrom, iv.property]⟩

structure KeyMaterial where
  sendKey : KeyType
  sendIv : IvType
  receiveKey : KeyType
  receiveIv : IvType
  deriving DecidableEq

/-- `ReverseDirection`: the key material of the peer. -/
def reverseDirection (keys : KeyMaterial) : KeyMaterial :=
  ⟨keys.receiveKey, keys.receiveIv, keys.sendKey, keys.sendIv⟩

/-- The object `sendEncryption`: the key it was last given, and the pairs that
`Start` was called with so far, in order. -/
structure SendEncryption where
  key : KeyType
  started : List (KeyType × IvType)
  deriving DecidableEq

structure SesameSecured where
  initialKeys : KeyMaterial
  sendEncryption : SendEncryption
  sendIv : IvType
  receiveKey : KeyType
  receiveIv : IvType
  /-- `sendBuffer.max_size()`. -/
  sendBufferSize : Nat
  requestedSendSize : Nat
  /-- Whether `sendWriter` holds a stream of the layer below. -/
  sendWriter : Bool
  deriving DecidableEq

namespace SesameSecured

variable (s : SesameSecured)

def setSendKey (newSendKey : KeyType) (newSendIv : IvType) : SesameSecured :=
  { s with
    sendEncryption := { s.sendEncryption with key := newSendKey }
    sendIv := newSendIv }

def setReceiveKey (newReceiveKey : KeyType) (newReceiveIv : IvType) : SesameSecured :=
  { s with receiveKey := newReceiveKey, receiveIv := newReceiveIv }

def construct (keys : KeyMaterial) (sendBufferSize : Nat) : SesameSecured :=
  { initialKeys := keys
    sendEncryption := ⟨keys.sendKey, []⟩
    sendIv := keys.sendIv
    receiveKey := keys.receiveKey
    receiveIv := keys.receiveIv
    sendBufferSize := sendBufferSize
    requestedSendSize := 0
    sendWriter := false }

def initialized : SesameSecured :=
  (s.setSendKey s.initialKeys.sendKey s.initialKeys.sendIv).setReceiveKey
    s.initialKeys.receiveKey s.initialKeys.receiveIv

def maxSendMessageSize (delegateMax : Nat) : Nat :=
  subSize (min delegateMax s.sendBufferSize) blockSize

def requestSendMessage (delegateMax size : Nat) : Option (SesameSecured × Nat) :=
  if size ≤ s.maxSendMessageSize delegateMax then
    some ({ s with requestedSendSize := size }, size + blockSize)
  else none

def sendMessageStreamAvailable : SesameSecured :=
  { s with sendWriter := true }

/-- `SendMessageStreamReleased`: the application has written `sendBuffer`. Also
returns the bytes written to the stream of the layer below. -/
def sendMessageStreamReleased (cipher : AesGcm) (s : SesameSecured) (sendBuffer : Bytes) :
    Option (SesameSecured × Bytes) :=
  let session := cipher.encryption.start s.sendEncryption.key s.sendIv
  let (session, processed) := cipher.encryption.update session sendBuffer
  let (moreProcessed, mac) := cipher.encryption.finish session
  if processed.length + moreProcessed.length = sendBuffer.length then
    some ({ s with
      sendEncryption := { s.sendEncryption with
        started := s.sendEncryption.started ++ [(s.sendEncryption.key, s.sendIv)] }
      sendIv := increaseIv s.sendIv
      sendWriter := false }, processed ++ moreProcessed ++ mac.val)
  else none

/-- What `ReceivedMessage` reports to the observers. -/
inductive Reception
  | tooShort
  | integrityCheckFailed
  | received (contents : Bytes)
  deriving DecidableEq

/-- The loop of `ReceivedMessage` over parts of at most `blockSize` bytes. Every
part has at least one byte, so as many rounds as there are bytes are enough. -/
def decryptParts (decryption : AesGcmEncryption) :
    Nat → decryption.Session → Bytes → decryption.Session × Bytes
  | 0, session, _ => (session, [])
  | rounds + 1, session, encrypted =>
    if encrypted = [] then (session, [])
    else
      let (next, part) := decryption.update session (encrypted.take blockSize)
      let (last, rest) := decryptParts decryption rounds next (encrypted.drop blockSize)
      (last, part ++ rest)

def receivedMessage (cipher : AesGcm) (s : SesameSecured) (message : Bytes) :
    SesameSecured × Reception :=
  if message.length < blockSize then (s, .tooShort)
  else
    let encrypted := message.take (message.length - blockSize)
    let receivedMac := message.drop (message.length - blockSize)
    let session := cipher.decryption.start s.receiveKey s.receiveIv
    let (session, receiveBuffer) := decryptParts cipher.decryption encrypted.length session encrypted
    let (_, computedMac) := cipher.decryption.finish session
    if computedMac.val = receivedMac then
      ({ s with receiveIv := increaseIv s.receiveIv }, .received receiveBuffer)
    else (s, .integrityCheckFailed)

end SesameSecured

end Sesame
