import EmbeddedInfra.Sesame.Secured
import EmbeddedInfra.Sesame.WindowAccounting

/-! Two secured peers on top of the windowed layer, from their construction on: every
order of start-up steps, without a `Reset`. -/

namespace Sesame

open Function

structure Encryption where
  contents : Bytes
  key : KeyType
  iv : IvType
  deriving DecidableEq

structure SecuredConnection where
  windowed : Connection Bytes
  secured : Side → SesameSecured
  /-- The messages that each side encrypted, in order. -/
  encrypted : Side → List Encryption
  /-- How many of them it had encrypted when it was last notified `Initialized`. -/
  encryptedBefore : Side → Nat
  /-- What each side reported of the messages it received, with the key and the IV it
  used, in order. -/
  receptions : Side → List (SesameSecured.Reception × KeyType × IvType)

namespace SecuredConnection

def construct (keys : KeyMaterial) (sendBufferSize : Side → Nat) : SecuredConnection where
  windowed := .construct
  secured
    | .left => .construct keys (sendBufferSize .left)
    | .right => .construct (reverseDirection keys) (sendBufferSize .right)
  encrypted _ := []
  encryptedBefore _ := 0
  receptions _ := []

inductive Action
  | sendMessageStreamAvailable (p : Side)
  | writeMessage (p : Side) (contents : Bytes)
  | messageSent (p : Side) (encodedSize : Nat)
  | deliver (p : Side)
  | readerReleased (p : Side)
  | requestSendMessage (p : Side) (size : Nat)
  deriving DecidableEq

/-- The secured layer of `p` is notified by the windowed one. -/
def notify (cipher : AesGcm) (s : SecuredConnection) (p : Side) :
    Option (Notification Bytes) → SecuredConnection
  | none => s
  | some .initialized =>
    { s with
      secured := update s.secured p (s.secured p).initialized
      encryptedBefore := update s.encryptedBefore p (s.encrypted p).length }
  | some (.receivedMessage message) =>
    let (secured, reception) := (s.secured p).receivedMessage cipher message
    { s with
      secured := update s.secured p secured
      receptions := update s.receptions p (s.receptions p ++
        [(reception, (s.secured p).receiveKey, (s.secured p).receiveIv)]) }

def notification (d : Side → SesameEncoded) (s : SecuredConnection) (p : Side) :
    Option (Notification Bytes) :=
  match s.windowed.link p.other with
  | [] => none
  | (packet, encodedSize) :: _ =>
    ((s.windowed.peer p).receivedMessage (d p) packet encodedSize).2

def step (d : Side → SesameEncoded) (cipher : AesGcm) (s : SecuredConnection) :
    Action → Option SecuredConnection
  | .sendMessageStreamAvailable p =>
    (s.windowed.step d (.sendMessageStreamAvailable p)).map fun windowed =>
      match (windowed.peer p).transmission with
      | .writing _ =>
        { s with
          windowed := windowed
          secured := update s.secured p (s.secured p).sendMessageStreamAvailable }
      | _ => { s with windowed := windowed }
  | .writeMessage p contents =>
    if (s.secured p).sendWriter = true ∧ contents.length ≤ (s.secured p).requestedSendSize then
      ((s.secured p).sendMessageStreamReleased cipher contents).bind fun (secured, message) =>
        (s.windowed.step d (.writeMessage p message)).map fun windowed =>
          { s with
            windowed := windowed
            secured := update s.secured p secured
            encrypted := update s.encrypted p (s.encrypted p ++
              [⟨contents, (s.secured p).sendEncryption.key, (s.secured p).sendIv⟩]) }
    else none
  | .messageSent p encodedSize =>
    (s.windowed.step d (.messageSent p encodedSize)).map ({ s with windowed := · })
  | .deliver p =>
    (s.windowed.step d (.deliver p)).map fun windowed =>
      { s.notify cipher p (s.notification d p) with windowed := windowed }
  | .readerReleased p =>
    (s.windowed.step d (.readerReleased p)).map ({ s with windowed := · })
  | .requestSendMessage p size =>
    ((s.secured p).requestSendMessage ((s.windowed.peer p).maxSendMessageSize (d p)) size).bind
      fun (secured, requested) =>
        (s.windowed.step d (.requestSendMessage p requested)).map fun windowed =>
          { s with windowed := windowed, secured := update s.secured p secured }

end SecuredConnection

end Sesame
