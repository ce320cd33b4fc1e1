import EmbeddedInfra.Sesame.AlteringLink

/-! Whatever the link does, the observers are given a prefix of what was sent. -/

namespace Sesame

open Runs List Function

/-- `Update` writes at most as many bytes as it is given. -/
def AesGcm.WithinSize (cipher : AesGcm) : Prop :=
  ∀ session part, (cipher.decryption.update session part).2.length ≤ part.length

namespace SesameSecured

variable {cipher : AesGcm}

theorem decryptInto_eq (within : cipher.WithinSize) {maxSize : Nat} (rounds : Nat)
    (session : cipher.decryption.Session) (receiveBuffer encrypted : Bytes)
    (room : receiveBuffer.length + encrypted.length ≤ maxSize) :
    decryptInto cipher.decryption maxSize rounds session receiveBuffer encrypted =
      some ((decryptParts cipher.decryption rounds session encrypted).1,
        receiveBuffer ++ (decryptParts cipher.decryption rounds session encrypted).2) := by
  induction rounds generalizing session receiveBuffer encrypted with
  | zero => simp [decryptInto, decryptParts]
  | succ rounds ih =>
    by_cases empty : encrypted = []
    · simp [decryptInto, decryptParts, empty]
    · have split : (encrypted.take blockSize).length + (encrypted.drop blockSize).length =
          encrypted.length := by
        rw [← length_append, take_append_drop]
      have fits : ¬ maxSize < receiveBuffer.length + (encrypted.take blockSize).length := by omega
      have processed := within session (encrypted.take blockSize)
      have room : (receiveBuffer ++ (cipher.decryption.update session
          (encrypted.take blockSize)).2).length + (encrypted.drop blockSize).length ≤ maxSize := by
        rw [length_append]
        omega
      rw [decryptInto, if_neg empty, if_neg fits, decryptParts, if_neg empty]
      refine (ih _ _ _ room).trans ?_
      simp only [append_assoc]

theorem receivedMessageInto_eq (within : cipher.WithinSize) {maxSize : Nat} (s : SesameSecured)
    {frame : Bytes} (fits : frame.length ≤ maxSize + blockSize) :
    s.receivedMessageInto cipher maxSize frame = some (s.receivedMessage cipher frame) := by
  rw [receivedMessageInto, receivedMessage]
  by_cases short : frame.length < blockSize
  · rw [if_pos short, if_pos short]
  · rw [if_neg short, if_neg short]
    have room : ([] : Bytes).length + (frame.take (frame.length - blockSize)).length ≤ maxSize := by
      rw [length_nil, length_take]
      omega
    simp only [decryptInto_eq within _ _ _ _ room, Option.map_some, nil_append]

end SesameSecured

namespace SecuredLink

variable {cipher : AesGcm}

/-- The MAC that a peer computes for a frame. -/
def computedMac (cipher : AesGcm) (peer : SesameSecured) (frame : Bytes) : MacType :=
  let encrypted := frame.take (frame.length - blockSize)
  let session := cipher.decryption.start peer.receiveKey peer.receiveIv
  (cipher.decryption.finish
    (SesameSecured.decryptParts cipher.decryption encrypted.length session encrypted).1).2

/-- Ideal authenticated encryption: the computed MAC is the one received only for a ciphertext that
one of the peers made with the same key and IV. -/
def Ideal (cipher : AesGcm) (s : SecuredLink) : Event → Prop
  | .receivedMessage p frame =>
    blockSize ≤ frame.length →
      (computedMac cipher (s.peer p) frame).val = frame.drop (frame.length - blockSize) →
        ∃ e ∈ s.sent p ++ s.sent p.other, e.key = (s.peer p).receiveKey ∧
          e.iv = (s.peer p).receiveIv ∧ frame = e.sealed cipher
  | _ => True

/-- A frame fits the receive buffer, and is none that its receiver itself made with the key and IV
at hand; fewer messages are sent than the counter of the IV has values. -/
def Undisturbed (cipher : AesGcm) (s : SecuredLink) : Event → Prop
  | .receivedMessage p frame =>
    frame.length ≤ s.receiveBufferSize p + blockSize ∧
      ∀ e ∈ s.sent p, e.key = (s.peer p).receiveKey → e.iv = (s.peer p).receiveIv →
        frame ≠ e.sealed cipher
  | .sendMessageStreamReleased p _ => (s.sent p).length + 1 < counterRange
  | _ => True

def Sound (cipher : AesGcm) (s : SecuredLink) (event : Event) : Prop :=
  Ideal cipher s event ∧ Undisturbed cipher s event

instance (s : SecuredLink) : DecidablePred (Sound cipher s) := fun event => by
  cases event <;> unfold Sound Ideal Undisturbed <;> infer_instance

def nextFrame (cipher : AesGcm) (s : SecuredLink) (p : Side) : Option Bytes :=
  ((s.sent p.other)[(s.received p).length]?).map (Encryption.sealed cipher)

/-- What the observers are given is a prefix of what was sent; the next frame is given to the
observer, and any other one changes nothing but the reports. -/
structure Delivers (cipher : AesGcm) (ok : SecuredLink → Event → Prop) (s : SecuredLink) : Prop where
  inOrder : ∀ p, s.received p <+: (s.sent p.other).map Encryption.contents
  next : ∀ p e, (s.sent p.other)[(s.received p).length]? = some e →
    ok s (.receivedMessage p (e.sealed cipher)) →
    s.step cipher (.receivedMessage p (e.sealed cipher)) = some { s with
      peer := update s.peer p { s.peer p with receiveIv := increaseIv (s.peer p).receiveIv }
      received := update s.received p (s.received p ++ [e.contents]) }
  other : ∀ p frame, nextFrame cipher s p ≠ some frame → ok s (.receivedMessage p frame) →
    s.step cipher (.receivedMessage p frame) = some (if frame.length < blockSize then s
      else { s with failures := update s.failures p (s.failures p + 1) })

/-- The two counters of one direction stand for what was sent and what was received. -/
structure Direction (initial : KeyMaterial) (sender receiver : SesameSecured)
    (sent : List Encryption) (received : List Bytes) : Prop where
  sendKey : sender.sendEncryption.key = initial.sendKey
  sendIv : sender.sendIv = increaseIv^[sent.length] initial.sendIv
  receiveKey : receiver.receiveKey = initial.sendKey
  receiveIv : receiver.receiveIv = increaseIv^[received.length] initial.sendIv
  numbered : ∀ i e, sent[i]? = some e →
    e.key = initial.sendKey ∧ e.iv = increaseIv^[i] initial.sendIv
  received : received = (sent.take received.length).map Encryption.contents
  few : sent.length < counterRange

namespace Direction

variable {initial : KeyMaterial} {sender receiver sender' receiver' : SesameSecured}
  {sent : List Encryption} {received : List Bytes}

section

variable (direction : Direction initial sender receiver sent received)

include direction

theorem length_le : received.length ≤ sent.length := by
  have length := congrArg List.length direction.received
  rw [length_map, length_take] at length
  omega

theorem congr (sendKey : sender'.sendEncryption.key = sender.sendEncryption.key)
    (sendIv : sender'.sendIv = sender.sendIv)
    (receiveKey : receiver'.receiveKey = receiver.receiveKey)
    (receiveIv : receiver'.receiveIv = receiver.receiveIv) :
    Direction initial sender' receiver' sent received where
  sendKey := sendKey.trans direction.sendKey
  sendIv := sendIv.trans direction.sendIv
  receiveKey := receiveKey.trans direction.receiveKey
  receiveIv := receiveIv.trans direction.receiveIv
  numbered := direction.numbered
  received := direction.received
  few := direction.few

theorem send (contents : Bytes) (few : sent.length + 1 < counterRange) {next : SesameSecured}
    (sendKey : next.sendEncryption.key = sender.sendEncryption.key)
    (sendIv : next.sendIv = increaseIv sender.sendIv) :
    Direction initial next receiver
      (sent ++ [⟨contents, sender.sendEncryption.key, sender.sendIv⟩]) received where
  sendKey := sendKey.trans direction.sendKey
  sendIv := by
    rw [sendIv, direction.sendIv, length_append, length_singleton,
      iterate_succ_apply']
  receiveKey := direction.receiveKey
  receiveIv := direction.receiveIv
  numbered := by
    intro i e found
    rcases Nat.lt_or_ge i sent.length with inside | beyond
    · rw [getElem?_append_left inside] at found
      exact direction.numbered i e found
    · rw [getElem?_append_right beyond] at found
      have position := (List.getElem?_eq_some_iff.mp found).1
      rw [length_singleton] at position
      obtain rfl : i = sent.length := by omega
      rw [Nat.sub_self, getElem?_cons_zero, Option.some.injEq] at found
      subst found
      exact ⟨direction.sendKey, direction.sendIv⟩
  received := by
    rw [take_append_of_le_length direction.length_le]
    exact direction.received
  few := by
    rw [length_append]
    exact few

theorem receive {e : Encryption} (found : sent[received.length]? = some e)
    (receiveKey : receiver'.receiveKey = receiver.receiveKey)
    (receiveIv : receiver'.receiveIv = increaseIv receiver.receiveIv) :
    Direction initial sender receiver' sent (received ++ [e.contents]) where
  sendKey := direction.sendKey
  sendIv := direction.sendIv
  receiveKey := receiveKey.trans direction.receiveKey
  receiveIv := by
    rw [receiveIv, direction.receiveIv, length_append, length_singleton,
      iterate_succ_apply']
  numbered := direction.numbered
  received := by
    rw [length_append, length_singleton, take_add_one, found, map_append,
      ← direction.received]
    rfl
  few := direction.few

theorem position_of_iv {e : Encryption} (member : e ∈ sent) (iv : e.iv = receiver.receiveIv) :
    sent[received.length]? = some e := by
  obtain ⟨i, found⟩ := mem_iff_getElem?.mp member
  have inside := (List.getElem?_eq_some_iff.mp found).1
  have few := direction.few
  have length := direction.length_le
  have same : increaseIv^[i] initial.sendIv = increaseIv^[received.length] initial.sendIv :=
    calc
      increaseIv^[i] initial.sendIv = e.iv := (direction.numbered i e found).2.symm
      _ = receiver.receiveIv := iv
      _ = increaseIv^[received.length] initial.sendIv := direction.receiveIv
  have residues := (iterate_increaseIv_eq_iff initial.sendIv i received.length).mp same
  rw [Nat.mod_eq_of_lt (by omega), Nat.mod_eq_of_lt (by omega)] at residues
  rw [← residues]
  exact found

end

end Direction

/-- The peers of a run, with the key material that the left one has. -/
def InStep (initial : Side → KeyMaterial) (s : SecuredLink) : Prop :=
  ∀ p, Direction (initial p) (s.peer p) (s.peer p.other) (s.sent p) (s.received p.other)

variable {initial : Side → KeyMaterial} {s : SecuredLink} {p : Side} {frame : Bytes}

theorem receivedMessage_next (faithful : cipher.Faithful) (inStep : s.InStep initial)
    {e : Encryption} (found : (s.sent p.other)[(s.received p).length]? = some e) :
    (s.peer p).receivedMessage cipher (e.sealed cipher) =
      ({ s.peer p with receiveIv := increaseIv (s.peer p).receiveIv }, .received e.contents) := by
  have direction := inStep p.other
  rw [Side.other_other] at direction
  obtain ⟨key, iv⟩ := direction.numbered _ _ found
  exact SesameSecured.receivedMessage_sealed faithful _ e (direction.receiveKey.trans key.symm)
    (direction.receiveIv.trans iv.symm)

theorem passes_only_next (inStep : s.InStep initial)
    (sound : Sound cipher s (.receivedMessage p frame)) (long : blockSize ≤ frame.length)
    (passes : (computedMac cipher (s.peer p) frame).val = frame.drop (frame.length - blockSize)) :
    nextFrame cipher s p = some frame := by
  obtain ⟨ideal, _, own⟩ := sound
  obtain ⟨e, member, key, iv, same⟩ := ideal long passes
  rcases mem_append.mp member with mine | others
  · exact absurd same (own e mine key iv)
  · have direction := inStep p.other
    rw [Side.other_other] at direction
    rw [nextFrame, direction.position_of_iv others iv, Option.map_some, same]

theorem receivedMessage_other (inStep : s.InStep initial)
    (sound : Sound cipher s (.receivedMessage p frame))
    (other : nextFrame cipher s p ≠ some frame) :
    (s.peer p).receivedMessage cipher frame =
      (s.peer p, if frame.length < blockSize then .tooShort else .integrityCheckFailed) := by
  rw [SesameSecured.receivedMessage]
  split
  next => rfl
  next long =>
    have fails := mt (passes_only_next inStep sound (Nat.le_of_not_lt long)) other
    exact if_neg fails

theorem step_received (within : cipher.WithinSize)
    (fits : frame.length ≤ s.receiveBufferSize p + blockSize) :
    s.step cipher (.receivedMessage p frame) =
      some (s.report p ((s.peer p).receivedMessage cipher frame)) := by
  rw [step, SesameSecured.receivedMessageInto_eq within _ fits, Option.map_some]

theorem step_other (within : cipher.WithinSize) (inStep : s.InStep initial)
    (sound : Sound cipher s (.receivedMessage p frame))
    (other : nextFrame cipher s p ≠ some frame) :
    s.step cipher (.receivedMessage p frame) = some (if frame.length < blockSize then s
      else { s with failures := update s.failures p (s.failures p + 1) }) := by
  rw [step_received within sound.2.1, receivedMessage_other inStep sound other]
  split <;> rfl

theorem delivers (faithful : cipher.Faithful) (within : cipher.WithinSize)
    (inStep : s.InStep initial) :
    Delivers cipher (Sound cipher) s where
  inOrder p := by
    have direction := inStep p.other
    rw [Side.other_other] at direction
    rw [direction.received]
    exact (List.take_prefix _ _).map _
  next p e found sound := by
    rw [step_received within sound.2.1, receivedMessage_next faithful inStep found]
    rfl
  other p frame other sound := step_other within inStep sound other

theorem inStep_of_same (inStep : s.InStep initial) {peer : SesameSecured}
    (sendKey : peer.sendEncryption.key = (s.peer p).sendEncryption.key)
    (sendIv : peer.sendIv = (s.peer p).sendIv)
    (receiveKey : peer.receiveKey = (s.peer p).receiveKey)
    (receiveIv : peer.receiveIv = (s.peer p).receiveIv) :
    ({ s with peer := update s.peer p peer } : SecuredLink).InStep initial := by
  have same : ∀ q, (update s.peer p peer q).sendEncryption.key =
        (s.peer q).sendEncryption.key ∧ (update s.peer p peer q).sendIv = (s.peer q).sendIv ∧
      (update s.peer p peer q).receiveKey = (s.peer q).receiveKey ∧
        (update s.peer p peer q).receiveIv = (s.peer q).receiveIv := by
    intro q
    by_cases here : q = p
    · subst here
      rw [update_self]
      exact ⟨sendKey, sendIv, receiveKey, receiveIv⟩
    · rw [update_of_ne here]
      exact ⟨rfl, rfl, rfl, rfl⟩
  intro q
  exact (inStep q).congr (same q).1 (same q).2.1 (same q.other).2.2.1 (same q.other).2.2.2

theorem released_inStep (faithful : cipher.Faithful) {t : SecuredLink} {contents : Bytes}
    (inStep : s.InStep initial) (few : (s.sent p).length + 1 < counterRange)
    (steps : s.step cipher (.sendMessageStreamReleased p contents) = some t) :
    t.InStep initial := by
  simp only [step] at steps
  split at steps
  next =>
    rw [SesameSecured.sendMessageStreamReleased_eq faithful, Option.map_some] at steps
    cases steps
    intro q
    by_cases here : q = p
    · subst here
      simp only [update_self, update_of_ne (Side.other_ne q)]
      exact (inStep q).send contents few rfl rfl
    · have there : q.other = p := by
        cases q <;> cases p <;> simp_all [Side.other]
      simp only [update_of_ne here, there, update_self]
      have direction := inStep q
      rw [there] at direction
      exact direction.congr rfl rfl rfl rfl
  next => cases steps

theorem received_inStep (faithful : cipher.Faithful) (within : cipher.WithinSize) {t : SecuredLink}
    (inStep : s.InStep initial) (sound : Sound cipher s (.receivedMessage p frame))
    (steps : s.step cipher (.receivedMessage p frame) = some t) : t.InStep initial := by
  by_cases awaited : nextFrame cipher s p = some frame
  · obtain ⟨e, found, same⟩ := Option.map_eq_some_iff.mp awaited
    subst same
    rw [(delivers faithful within inStep).next p e found sound] at steps
    cases steps
    intro q
    by_cases here : q.other = p
    · have there : q ≠ p := fun same => Side.other_ne q (here.trans same.symm)
      simp only [update_of_ne there, here, update_self]
      have direction := inStep q
      rw [here] at direction
      have sender : p.other = q := by rw [← here, Side.other_other]
      rw [sender] at found
      exact direction.receive found rfl rfl
    · have there : q = p := by
        cases q <;> cases p <;> simp_all [Side.other]
      simp only [there, update_self, update_of_ne (Side.other_ne p)]
      exact (inStep p).congr rfl rfl rfl rfl
  · rw [step_other within inStep sound awaited] at steps
    split at steps
    · cases steps
      exact inStep
    · cases steps
      exact inStep

theorem step_inStep (faithful : cipher.Faithful) (within : cipher.WithinSize) (s : SecuredLink)
    (event : Event) (t : SecuredLink) (inStep : s.InStep initial) (sound : Sound cipher s event)
    (steps : s.step cipher event = some t) : t.InStep initial := by
  cases event with
  | requestSendMessage p delegateMax size =>
    simp only [step, SesameSecured.requestSendMessage] at steps
    split at steps
    next =>
      cases steps
      exact inStep_of_same inStep rfl rfl rfl rfl
    next => cases steps
  | sendMessageStreamAvailable p =>
    cases steps
    exact inStep_of_same inStep rfl rfl rfl rfl
  | sendMessageStreamReleased p contents =>
    exact released_inStep faithful inStep sound.2 steps
  | receivedMessage p frame => exact received_inStep faithful within inStep sound steps

theorem initialized_inStep (peer : Side → SesameSecured) (receiveBufferSize : Side → Nat)
    (shared : (peer .right).initialKeys = reverseDirection (peer .left).initialKeys) :
    (initialized peer receiveBufferSize).InStep fun p => (peer p).initialKeys := by
  intro p
  have keys : (peer p.other).initialKeys = reverseDirection (peer p).initialKeys := by
    cases p with
    | left => exact shared
    | right => exact congrArg reverseDirection shared.symm
  exact
    { sendKey := rfl
      sendIv := rfl
      receiveKey := congrArg KeyMaterial.receiveKey keys
      receiveIv := congrArg KeyMaterial.receiveIv keys
      numbered := fun _ _ found => by cases found
      received := rfl
      few := show 0 < counterRange by decide }

/-- Two peers that share their keys, from their `Initialized` on, over any link. -/
theorem delivers_prefix (cipher : AesGcm) (faithful : cipher.Faithful) (within : cipher.WithinSize)
    (peer : Side → SesameSecured) (receiveBufferSize : Side → Nat)
    (shared : (peer .right).initialKeys = reverseDirection (peer .left).initialKeys)
    (s : SecuredLink)
    (reached : Reachable (step cipher) (Sound cipher) (initialized peer receiveBufferSize) s) :
    Delivers cipher (Sound cipher) s :=
  delivers faithful within
    (reached.invariant (initialized_inStep peer receiveBufferSize shared)
      (step_inStep faithful within))

theorem within_plainCipher : plainCipher.WithinSize := fun _ _ => le_rfl

def zeroPeers : Side → SesameSecured
  | .left => .construct zeroKeys 64
  | .right => .construct (reverseDirection zeroKeys) 64

def firstFrame : Bytes := 1 :: List.replicate 16 0

/-- A message is sent. The link hands over a frame that is too short, an altered one, the message,
and the message again. -/
def alteredAndRepeated : List Event :=
  [.requestSendMessage .left 64 1, .sendMessageStreamAvailable .left,
    .sendMessageStreamReleased .left [1], .receivedMessage .right [5],
    .receivedMessage .right (1 :: List.replicate 16 9), .receivedMessage .right firstFrame,
    .receivedMessage .right firstFrame]

def givenOnce (s : SecuredLink) : Bool :=
  s.received .right = [[1]] ∧ s.failures .right = 2

theorem delivers_prefix_alteredAndRepeated :
    ∃ s, Reachable (step plainCipher) (Sound plainCipher) (initialized zeroPeers fun _ => 17) s ∧
      givenOnce s = true ∧ Delivers plainCipher (Sound plainCipher) s := by
  obtain ⟨s, reached, given⟩ := exists_of_executeIf (Sound plainCipher) (step plainCipher)
    (initialized zeroPeers fun _ => 17) alteredAndRepeated givenOnce (by decide)
  exact ⟨s, reached, given,
    delivers_prefix plainCipher SecuredConnection.faithful_plainCipher within_plainCipher zeroPeers _ rfl s reached⟩

/-- A frame of 34 bytes comes to a receive buffer of 17. -/
theorem aborts_longFrame :
    ¬ ∀ s, Reachable (step plainCipher) (Ideal plainCipher) (initialized zeroPeers fun _ => 17) s →
      Delivers plainCipher (Ideal plainCipher) s := by
  intro all
  have delivers := all _ .refl
  have ideal : Ideal plainCipher (initialized zeroPeers fun _ => 17)
      (.receivedMessage .right (List.replicate 34 9)) := by
    intro _ passes
    exact absurd passes (by decide)
  have taken := delivers.other .right (List.replicate 34 9) (by decide) ideal
  have aborts : ((initialized zeroPeers fun _ => 17).step plainCipher
      (.receivedMessage .right (List.replicate 34 9))).isNone = true := by decide
  rw [taken] at aborts
  cases aborts

end SecuredLink

end Sesame
