import EmbeddedInfra.Sesame.SecuredConnection
import EmbeddedInfra.Sesame.StartUpOrder
import EmbeddedInfra.Sesame.NonceUse

/-! Two secured peers stay in step: what one of them encrypts the other one decrypts with
the same key and IV, once and in order. -/

namespace Sesame

open List Function Side

/-- The encrypted message and its MAC. -/
def encryptMessage (cipher : AesGcm) (key : KeyType) (iv : IvType) (contents : Bytes) :
    Bytes × MacType :=
  let (session, processed) := cipher.encryption.update (cipher.encryption.start key iv) contents
  let (moreProcessed, mac) := cipher.encryption.finish session
  (processed ++ moreProcessed, mac)

/-- What the secured layer relies on of AES-GCM: encryption keeps the length; the parts of
a message may be decrypted one after the other; and decryption with the same key and IV
gives the message and the MAC back. -/
structure AesGcm.Faithful (cipher : AesGcm) : Prop where
  length : ∀ key iv contents, (encryptMessage cipher key iv contents).1.length = contents.length
  update_nil : ∀ session, cipher.decryption.update session [] = (session, [])
  update_append : ∀ session front back,
    cipher.decryption.update session (front ++ back) =
      let (middle, first) := cipher.decryption.update session front
      let (last, second) := cipher.decryption.update middle back
      (last, first ++ second)
  decrypts : ∀ key iv contents, (cipher.decryption.update (cipher.decryption.start key iv)
    (encryptMessage cipher key iv contents).1).2 = contents
  authenticates : ∀ key iv contents, (cipher.decryption.finish (cipher.decryption.update
    (cipher.decryption.start key iv) (encryptMessage cipher key iv contents).1).1).2 =
      (encryptMessage cipher key iv contents).2

def Encryption.sealed (cipher : AesGcm) (e : Encryption) : Bytes :=
  (encryptMessage cipher e.key e.iv e.contents).1 ++ (encryptMessage cipher e.key e.iv e.contents).2.val

/-- What the receiver reports when it decrypts with the same key and IV. -/
def Encryption.received (e : Encryption) : SesameSecured.Reception × KeyType × IvType :=
  (.received e.contents, e.key, e.iv)

namespace SesameSecured

variable {cipher : AesGcm}

theorem decryptParts_eq (faithful : cipher.Faithful) (rounds : Nat)
    (session : cipher.decryption.Session) (encrypted : Bytes)
    (enough : encrypted.length ≤ rounds) :
    decryptParts cipher.decryption rounds session encrypted =
      cipher.decryption.update session encrypted := by
  induction rounds generalizing session encrypted with
  | zero =>
    obtain rfl : encrypted = [] := length_eq_zero_iff.mp (by omega)
    rw [faithful.update_nil]
    rfl
  | succ rounds ih =>
    by_cases empty : encrypted = []
    · subst empty
      rw [faithful.update_nil]
      rfl
    · have shorter : (encrypted.drop blockSize).length ≤ rounds := by
        have positive := length_pos_iff.mpr empty
        rw [length_drop]
        simp only [blockSize]
        omega
      have whole := faithful.update_append session (encrypted.take blockSize)
        (encrypted.drop blockSize)
      rw [take_append_drop] at whole
      rw [whole, decryptParts, if_neg empty]
      simp only [ih _ _ shorter]

theorem sendMessageStreamReleased_eq (faithful : cipher.Faithful) (s : SesameSecured)
    (contents : Bytes) :
    s.sendMessageStreamReleased cipher contents = some ({ s with
        sendEncryption := { s.sendEncryption with
          started := s.sendEncryption.started ++ [(s.sendEncryption.key, s.sendIv)] }
        sendIv := increaseIv s.sendIv
        sendWriter := false },
      Encryption.sealed cipher ⟨contents, s.sendEncryption.key, s.sendIv⟩) := by
  have length := faithful.length s.sendEncryption.key s.sendIv contents
  simp only [encryptMessage, length_append] at length
  simp only [sendMessageStreamReleased, length, if_true, Encryption.sealed, encryptMessage]

theorem receivedMessage_sealed (faithful : cipher.Faithful) (s : SesameSecured) (e : Encryption)
    (key : s.receiveKey = e.key) (iv : s.receiveIv = e.iv) :
    s.receivedMessage cipher (e.sealed cipher) =
      ({ s with receiveIv := increaseIv s.receiveIv }, .received e.contents) := by
  have mac := (encryptMessage cipher e.key e.iv e.contents).2.property
  have size : (e.sealed cipher).length - blockSize =
      (encryptMessage cipher e.key e.iv e.contents).1.length := by
    simp only [Encryption.sealed, length_append, mac]
    omega
  have long : ¬ (e.sealed cipher).length < blockSize := by
    simp only [Encryption.sealed, length_append, mac]
    omega
  have body : (e.sealed cipher).take ((e.sealed cipher).length - blockSize) =
      (encryptMessage cipher e.key e.iv e.contents).1 := by
    rw [size, Encryption.sealed, take_left]
  have tail : (e.sealed cipher).drop ((e.sealed cipher).length - blockSize) =
      (encryptMessage cipher e.key e.iv e.contents).2.val := by
    rw [size, Encryption.sealed, drop_left]
  have contents := faithful.decrypts e.key e.iv e.contents
  have same := faithful.authenticates e.key e.iv e.contents
  unfold receivedMessage
  rw [if_neg long]
  simp only [body, tail, key, iv, decryptParts_eq faithful _ _ _ le_rfl, same, contents, if_true]

end SesameSecured

/-- The sender and the receiver of one direction, with what was encrypted, what was reported
and what is in flight. -/
structure Synced (cipher : AesGcm) (sender receiver : SesameSecured)
    (encrypted : List Encryption) (before : Nat)
    (receptions : List (SesameSecured.Reception × KeyType × IvType))
    (inFlight : List Bytes) : Prop where
  sendKey : sender.sendEncryption.key = sender.initialKeys.sendKey
  initialReceiveKey : receiver.initialKeys.receiveKey = sender.initialKeys.sendKey
  initialReceiveIv : receiver.initialKeys.receiveIv = sender.initialKeys.sendIv
  receiveKey : receiver.receiveKey = sender.initialKeys.sendKey
  receiveIv : receiver.receiveIv = increaseIv^[receptions.length] sender.initialKeys.sendIv
  sendIv : before = 0 → sender.sendIv = increaseIv^[encrypted.length] sender.initialKeys.sendIv
  numbered : ∀ i e, encrypted[i]? = some e →
    e.key = sender.initialKeys.sendKey ∧ e.iv = increaseIv^[i] sender.initialKeys.sendIv
  received : receptions = (encrypted.take receptions.length).map Encryption.received
  waiting : inFlight = (encrypted.drop receptions.length).map (Encryption.sealed cipher)

namespace Synced

variable {cipher : AesGcm} {sender receiver sender' receiver' : SesameSecured}
  {encrypted : List Encryption} {before : Nat}
  {receptions : List (SesameSecured.Reception × KeyType × IvType)} {inFlight : List Bytes}

section

variable (synced : Synced cipher sender receiver encrypted before receptions inFlight)

include synced

theorem length_le : receptions.length ≤ encrypted.length := by
  have length := congrArg List.length synced.received
  rw [length_map, length_take] at length
  omega

theorem congr (senderKeys : sender'.initialKeys = sender.initialKeys)
    (sendKey : sender'.sendEncryption.key = sender.sendEncryption.key)
    (sendIv : sender'.sendIv = sender.sendIv)
    (receiverKeys : receiver'.initialKeys = receiver.initialKeys)
    (receiveKey : receiver'.receiveKey = receiver.receiveKey)
    (receiveIv : receiver'.receiveIv = receiver.receiveIv) :
    Synced cipher sender' receiver' encrypted before receptions inFlight where
  sendKey := by rw [sendKey, senderKeys, synced.sendKey]
  initialReceiveKey := by rw [receiverKeys, senderKeys, synced.initialReceiveKey]
  initialReceiveIv := by rw [receiverKeys, senderKeys, synced.initialReceiveIv]
  receiveKey := by rw [receiveKey, senderKeys, synced.receiveKey]
  receiveIv := by rw [receiveIv, senderKeys, synced.receiveIv]
  sendIv := by rw [sendIv, senderKeys]; exact synced.sendIv
  numbered := by rw [senderKeys]; exact synced.numbered
  received := synced.received
  waiting := synced.waiting

theorem encrypt (first : before = 0) (contents : Bytes)
    (senderKeys : sender'.initialKeys = sender.initialKeys)
    (sendKey : sender'.sendEncryption.key = sender.sendEncryption.key)
    (sendIv : sender'.sendIv = increaseIv sender.sendIv) (receiverSame : receiver' = receiver) :
    Synced cipher sender' receiver'
      (encrypted ++ [⟨contents, sender.sendEncryption.key, sender.sendIv⟩]) before receptions
      (inFlight ++ [Encryption.sealed cipher
        ⟨contents, sender.sendEncryption.key, sender.sendIv⟩]) where
  sendKey := by rw [sendKey, senderKeys, synced.sendKey]
  initialReceiveKey := by rw [receiverSame, senderKeys, synced.initialReceiveKey]
  initialReceiveIv := by rw [receiverSame, senderKeys, synced.initialReceiveIv]
  receiveKey := by rw [receiverSame, senderKeys, synced.receiveKey]
  receiveIv := by rw [receiverSame, senderKeys, synced.receiveIv]
  sendIv _ := by
    rw [sendIv, senderKeys, synced.sendIv first, length_append, length_singleton,
      iterate_succ_apply']
  numbered := by
    intro i e found
    rw [senderKeys]
    rcases Nat.lt_or_ge i encrypted.length with inside | beyond
    · rw [getElem?_append_left inside] at found
      exact synced.numbered i e found
    · rw [getElem?_append_right beyond] at found
      have position := (List.getElem?_eq_some_iff.mp found).1
      rw [length_singleton] at position
      obtain rfl : i = encrypted.length := by omega
      rw [Nat.sub_self, getElem?_cons_zero, Option.some.injEq] at found
      subst found
      exact ⟨synced.sendKey, synced.sendIv first⟩
  received := by
    rw [take_append_of_le_length synced.length_le]
    exact synced.received
  waiting := by
    rw [drop_append_of_le_length synced.length_le, map_append, ← synced.waiting]
    rfl

end

theorem next {message : Bytes} {rest : List Bytes}
    (synced : Synced cipher sender receiver encrypted before receptions (message :: rest)) :
    ∃ e, encrypted[receptions.length]? = some e ∧ message = e.sealed cipher ∧
      receiver.receiveKey = e.key ∧ receiver.receiveIv = e.iv := by
  have waiting := synced.waiting
  have inside : receptions.length < encrypted.length := by
    by_contra beyond
    rw [drop_of_length_le (by omega)] at waiting
    cases waiting
  rw [drop_eq_getElem_cons inside, map_cons, List.cons.injEq] at waiting
  have found := getElem?_eq_getElem inside
  obtain ⟨key, iv⟩ := synced.numbered _ _ found
  exact ⟨_, found, waiting.1, synced.receiveKey.trans key.symm, synced.receiveIv.trans iv.symm⟩

theorem decrypt {message : Bytes} {rest : List Bytes}
    (synced : Synced cipher sender receiver encrypted before receptions (message :: rest))
    (e : Encryption) (found : encrypted[receptions.length]? = some e)
    (senderSame : sender' = sender)
    (receiverKeys : receiver'.initialKeys = receiver.initialKeys)
    (receiveKey : receiver'.receiveKey = receiver.receiveKey)
    (receiveIv : receiver'.receiveIv = increaseIv receiver.receiveIv) :
    Synced cipher sender' receiver' encrypted before (receptions ++ [e.received]) rest where
  sendKey := by rw [senderSame, synced.sendKey]
  initialReceiveKey := by rw [receiverKeys, senderSame, synced.initialReceiveKey]
  initialReceiveIv := by rw [receiverKeys, senderSame, synced.initialReceiveIv]
  receiveKey := by rw [receiveKey, senderSame, synced.receiveKey]
  receiveIv := by
    rw [receiveIv, senderSame, synced.receiveIv, length_append, length_singleton,
      iterate_succ_apply']
  sendIv := by rw [senderSame]; exact synced.sendIv
  numbered := by rw [senderSame]; exact synced.numbered
  received := by
    rw [length_append, length_singleton, take_add_one, found, map_append,
      ← synced.received]
    rfl
  waiting := by
    have waiting := synced.waiting
    obtain ⟨inside, value⟩ := List.getElem?_eq_some_iff.mp found
    rw [drop_eq_getElem_cons inside, map_cons, List.cons.injEq] at waiting
    rw [length_append, length_singleton]
    exact waiting.2

theorem senderInitialized
    (synced : Synced cipher sender receiver encrypted before receptions inFlight)
    (receiverSame : receiver' = receiver) :
    Synced cipher sender.initialized receiver' encrypted encrypted.length receptions inFlight where
  sendKey := rfl
  initialReceiveKey := by rw [receiverSame]; exact synced.initialReceiveKey
  initialReceiveIv := by rw [receiverSame]; exact synced.initialReceiveIv
  receiveKey := by rw [receiverSame]; exact synced.receiveKey
  receiveIv := by rw [receiverSame]; exact synced.receiveIv
  sendIv none := by rw [none]; rfl
  numbered := synced.numbered
  received := synced.received
  waiting := synced.waiting

theorem receiverInitialized
    (synced : Synced cipher sender receiver encrypted before receptions inFlight)
    (nothing : receptions = []) (senderSame : sender' = sender) :
    Synced cipher sender' receiver.initialized encrypted before receptions inFlight := by
  subst senderSame nothing
  exact { synced with
    receiveKey := synced.initialReceiveKey
    receiveIv := synced.initialReceiveIv }

end Synced

namespace SecuredConnection

open SesameWindowed (Coherent coherent_construct setNextState_initialized afterInit
  afterInitResponse afterReleaseWindow afterMessage)
open Connection hiding construct step Action

variable {d : Side → SesameEncoded} {cipher : AesGcm} {s t : SecuredConnection}

structure Matched (d : Side → SesameEncoded) (cipher : AesGcm) (s : SecuredConnection) :
    Prop where
  coherent : ∀ r, Coherent (d r) (s.windowed.peer r)
  ordered : Ordered s.windowed
  quiet : ∀ r, s.receptions r.other ≠ [] → Settling s.windowed r
  synced : ∀ r, Synced cipher (s.secured r) (s.secured r.other) (s.encrypted r)
    (s.encryptedBefore r) (s.receptions r.other) (messagesInFlight s.windowed r)

theorem matched_construct (keys : KeyMaterial) (sendBufferSize : Side → Nat) :
    Matched d cipher (construct keys sendBufferSize) where
  coherent _ := coherent_construct
  ordered := ordered_construct
  quiet _ received := absurd rfl received
  synced r := by
    cases r with
    | left | right =>
      exact ⟨rfl, rfl, rfl, rfl, rfl, fun _ => rfl, by simp [construct], rfl, rfl⟩

/-- A message is only encrypted by a peer that encrypted none before it was last notified
`Initialized`. -/
def encryptsInOneEpoch (s : SecuredConnection) : Action → Bool
  | .writeMessage p _ => s.encryptedBefore p == 0
  | _ => true

variable {windowed : Connection Bytes} {p : Side} {rest : List (Packet Bytes × Nat)}

theorem matched_of_same {a : Connection.Action Bytes} {secured : Side → SesameSecured}
    (matched : Matched d cipher s) (taken : s.windowed.step d a = some windowed)
    (noReset : ∀ p, a ≠ .reset p)
    (inFlight : ∀ r, messagesInFlight windowed r = messagesInFlight s.windowed r)
    (same : ∀ r, (secured r).initialKeys = (s.secured r).initialKeys ∧
      (secured r).sendEncryption.key = (s.secured r).sendEncryption.key ∧
      (secured r).sendIv = (s.secured r).sendIv ∧
      (secured r).receiveKey = (s.secured r).receiveKey ∧
      (secured r).receiveIv = (s.secured r).receiveIv) :
    Matched d cipher { s with windowed := windowed, secured := secured } where
  coherent := coherent_step matched.coherent (step_outcome taken)
  ordered := ordered_step matched.coherent matched.ordered noReset (step_outcome taken)
  quiet r received := settling_step matched.coherent matched.ordered noReset
    (step_outcome taken) r (matched.quiet r received)
  synced r := by
    obtain ⟨keys, sendKey, sendIv, _, _⟩ := same r
    obtain ⟨otherKeys, _, _, receiveKey, receiveIv⟩ := same r.other
    rw [inFlight r]
    exact (matched.synced r).congr keys sendKey sendIv otherKeys receiveKey receiveIv

theorem same_update {peer : SesameSecured} (keys : peer.initialKeys = (s.secured p).initialKeys)
    (sendKey : peer.sendEncryption.key = (s.secured p).sendEncryption.key)
    (sendIv : peer.sendIv = (s.secured p).sendIv)
    (receiveKey : peer.receiveKey = (s.secured p).receiveKey)
    (receiveIv : peer.receiveIv = (s.secured p).receiveIv) (r : Side) :
    (update s.secured p peer r).initialKeys = (s.secured r).initialKeys ∧
      (update s.secured p peer r).sendEncryption.key =
        (s.secured r).sendEncryption.key ∧
      (update s.secured p peer r).sendIv = (s.secured r).sendIv ∧
      (update s.secured p peer r).receiveKey = (s.secured r).receiveKey ∧
      (update s.secured p peer r).receiveIv = (s.secured r).receiveIv := by
  rcases eq_or_other p r with rfl | rfl
  · rw [update_self]
    exact ⟨keys, sendKey, sendIv, receiveKey, receiveIv⟩
  · rw [update_of_ne (other_ne p)]
    exact ⟨rfl, rfl, rfl, rfl, rfl⟩

theorem matched_writeMessage (faithful : cipher.Faithful) {contents : Bytes}
    (matched : Matched d cipher s) (first : s.encryptedBefore p = 0)
    (taken : s.step d cipher (.writeMessage p contents) = some t) : Matched d cipher t := by
  simp only [step] at taken
  split at taken
  next =>
    rw [SesameSecured.sendMessageStreamReleased_eq faithful] at taken
    obtain ⟨windowed, written, rfl⟩ := Option.map_eq_some_iff.mp taken
    have outcome := step_outcome written
    obtain ⟨own, other⟩ := messagesInFlight_writeMessage outcome
    refine ⟨coherent_step matched.coherent outcome,
      ordered_step matched.coherent matched.ordered (by simp) outcome,
      fun r received => settling_step matched.coherent matched.ordered (by simp) outcome r
        (matched.quiet r received), ?_⟩
    refine forall_of p ?_ ?_
    · simp only [update_self, update_of_ne (other_ne p), own]
      exact (matched.synced p).encrypt first contents rfl rfl rfl rfl
    · have synced := matched.synced p.other
      rw [other_other] at synced
      simp only [other_other, update_self, update_of_ne (other_ne p),
        other]
      exact synced.congr rfl rfl rfl rfl rfl rfl
  next => cases taken

theorem notification_of {packet : Packet Bytes} {encodedSize : Nat}
    (oldest : s.windowed.link p.other = (packet, encodedSize) :: rest) :
    s.notification d p =
      ((s.windowed.peer p).receivedMessage (d p) packet encodedSize).2 := by
  simp only [notification, oldest]

theorem nothing_received {packet : Packet Bytes × Nat} (matched : Matched d cipher s)
    (oldest : s.windowed.link p.other = packet :: rest) (announced : announces packet = true) :
    s.receptions p = [] := by
  by_contra received
  have settling := matched.quiet p.other (by rwa [other_other])
  have silent := settling.2 packet (by rw [oldest]; exact .head _)
  cases announced.symm.trans silent

theorem matched_initialized (matched : Matched d cipher s)
    (delivered : s.windowed.step d (.deliver p) = some windowed) (nothing : s.receptions p = [])
    (inFlight : ∀ r, messagesInFlight windowed r = messagesInFlight s.windowed r) :
    Matched d cipher { s.notify cipher p (some .initialized) with windowed := windowed } where
  coherent := coherent_step matched.coherent (step_outcome delivered)
  ordered := ordered_step matched.coherent matched.ordered (by simp) (step_outcome delivered)
  quiet r received := settling_step matched.coherent matched.ordered (by simp)
    (step_outcome delivered) r (matched.quiet r received)
  synced := by
    refine forall_of p ?_ ?_
    · simp only [notify, update_self, update_of_ne (other_ne p), inFlight]
      exact (matched.synced p).senderInitialized rfl
    · have synced := matched.synced p.other
      rw [other_other] at synced
      simp only [notify, other_other, update_self,
        update_of_ne (other_ne p), inFlight]
      exact synced.receiverInitialized nothing rfl

theorem matched_received (faithful : cipher.Faithful) {message : Bytes}
    (matched : Matched d cipher s) (delivered : s.windowed.step d (.deliver p) = some windowed)
    (settled : Settling windowed p.other)
    (own : messagesInFlight windowed p = messagesInFlight s.windowed p)
    (other : messagesInFlight s.windowed p.other = message :: messagesInFlight windowed p.other) :
    Matched d cipher
      { s.notify cipher p (some (.receivedMessage message)) with windowed := windowed } := by
  have synced := matched.synced p.other
  rw [other_other, other] at synced
  obtain ⟨e, found, rfl, key, iv⟩ := synced.next
  have received := SesameSecured.receivedMessage_sealed faithful (s.secured p) e key iv
  refine ⟨coherent_step matched.coherent (step_outcome delivered),
    ordered_step matched.coherent matched.ordered (by simp) (step_outcome delivered), ?_, ?_⟩
  · refine forall_of p ?_ ?_
    · intro before
      refine settling_step matched.coherent matched.ordered (by simp) (step_outcome delivered) p
        (matched.quiet p ?_)
      simpa only [notify, received, update_of_ne (other_ne p)] using before
    · exact fun _ => settled
  · refine forall_of p ?_ ?_
    · simp only [notify, received, update_self, update_of_ne (other_ne p),
        own]
      exact (matched.synced p).congr rfl rfl rfl rfl rfl rfl
    · have decrypted : Synced cipher (s.secured p.other)
          { s.secured p with receiveIv := increaseIv (s.secured p).receiveIv } _ _ _ _ :=
        synced.decrypt e found rfl rfl rfl rfl
      simpa only [notify, received, other_other, update_self,
        update_of_ne (other_ne p), Encryption.received, key, iv] using decrypted

theorem delivered_silently {peer : SesameWindowed Bytes} {packet : Packet Bytes × Nat}
    (oldest : s.windowed.link p.other = packet :: rest) (silent : messageContents packet = none)
    (same : outgoing peer = outgoing (s.windowed.peer p)) (r : Side) :
    messagesInFlight ((s.windowed.setPeer p peer).setLink p.other rest) r =
      messagesInFlight s.windowed r := by
  obtain ⟨other, own⟩ := messagesInFlight_deliver oldest same
  rcases eq_or_other p r with rfl | rfl
  · exact own
  · rw [other, silent]
    rfl

theorem matched_deliver (faithful : cipher.Faithful) (matched : Matched d cipher s)
    (taken : s.step d cipher (.deliver p) = some t) :
    Matched d cipher t := by
  obtain ⟨windowed, delivered, rfl⟩ := Option.map_eq_some_iff.mp taken
  have idle := (matched.coherent p).idle
  have outcome := step_outcome delivered
  cases outcome with
  | deliverInit _ window encodedSize rest oldest released =>
    rw [notification_of oldest]
    exact matched_initialized matched delivered (nothing_received matched oldest rfl)
      (delivered_silently oldest rfl
        (outgoing_setNextState (d p) ((s.windowed.peer p).afterInit window) idle))
  | deliverInitResponse _ window encodedSize rest oldest released =>
    rw [notification_of oldest]
    exact matched_initialized matched delivered (nothing_received matched oldest rfl)
      (delivered_silently oldest rfl (outgoing_setNextState (d p)
        ((s.windowed.peer p).afterInitResponse window encodedSize) idle))
  | deliverReleaseWindow _ window encodedSize rest oldest released started =>
    have silent : s.notification d p = none := by
      simp [notification_of oldest, SesameWindowed.receivedMessage, started]
    rw [silent]
    exact matched_of_same matched delivered (by simp)
      (delivered_silently oldest rfl (outgoing_setNextState (d p)
        ((s.windowed.peer p).afterReleaseWindow window encodedSize) idle))
      fun _ => ⟨rfl, rfl, rfl, rfl, rfl⟩
  | deliverMessage _ message encodedSize rest oldest released started =>
    have heard : s.notification d p = some (.receivedMessage message) := by
      simp [notification_of oldest, SesameWindowed.receivedMessage, started]
    have order := matched.ordered p.other
    rw [oldest] at order
    obtain ⟨_, talking, plain⟩ := order_later order (by simp)
    obtain ⟨other, own⟩ := messagesInFlight_deliver oldest (outgoing_setNextState (d p)
      ((s.windowed.peer p).afterMessage encodedSize) idle)
    rw [heard]
    refine matched_received faithful matched delivered ⟨?_, ?_⟩ own other
    · simpa using talking
    · simpa [Plain] using plain
  | drop _ packet encodedSize rest oldest kind fresh =>
    have order := matched.ordered p.other
    rw [other_other, oldest] at order
    have later : ∀ window, packet ≠ .init window := by
      rcases kind with ⟨_, rfl⟩ | ⟨_, rfl⟩ <;> simp
    cases fresh.symm.trans (order_later order later).1

theorem matched_step (faithful : cipher.Faithful) {a : Action} (matched : Matched d cipher s)
    (meets : encryptsInOneEpoch s a = true) (taken : s.step d cipher a = some t) :
    Matched d cipher t := by
  cases a with
  | sendMessageStreamAvailable p =>
    obtain ⟨windowed, available, rfl⟩ := Option.map_eq_some_iff.mp taken
    have inFlight := messagesInFlight_streamAvailable (step_outcome available)
    split
    · exact matched_of_same matched available (by simp) inFlight
        (same_update rfl rfl rfl rfl rfl)
    · exact matched_of_same matched available (by simp) inFlight
        fun _ => ⟨rfl, rfl, rfl, rfl, rfl⟩
  | writeMessage p contents =>
    exact matched_writeMessage faithful matched (beq_iff_eq.mp meets) taken
  | messageSent p encodedSize =>
    obtain ⟨windowed, sent, rfl⟩ := Option.map_eq_some_iff.mp taken
    exact matched_of_same matched sent (by simp)
      (messagesInFlight_messageSent (step_outcome sent)) fun _ => ⟨rfl, rfl, rfl, rfl, rfl⟩
  | deliver p => exact matched_deliver faithful matched taken
  | readerReleased p =>
    obtain ⟨windowed, released, rfl⟩ := Option.map_eq_some_iff.mp taken
    exact matched_of_same matched released (by simp)
      (messagesInFlight_readerReleased matched.coherent (step_outcome released))
      fun _ => ⟨rfl, rfl, rfl, rfl, rfl⟩
  | requestSendMessage p size =>
    obtain ⟨⟨secured, requested⟩, allowed, taken⟩ := Option.bind_eq_some_iff.mp taken
    obtain ⟨windowed, asked, rfl⟩ := Option.map_eq_some_iff.mp taken
    have inFlight := messagesInFlight_request matched.coherent (step_outcome asked)
    unfold SesameSecured.requestSendMessage at allowed
    split at allowed <;> cases allowed
    exact matched_of_same matched asked (by simp) inFlight (same_update rfl rfl rfl rfl rfl)

/-- What each side reported is what the other one encrypted, in order, with the same key and
IV, and the rest is in flight. -/
structure InStep (s : SecuredConnection) : Prop where
  reported : ∀ p, s.receptions p.other =
    ((s.encrypted p).take (s.receptions p.other).length).map Encryption.received
  inFlight : ∀ p, (s.encrypted p).length =
    (s.receptions p.other).length + (messagesInFlight s.windowed p).length

theorem faithful_plainCipher : plainCipher.Faithful where
  length _ _ contents := by simp [encryptMessage, plainCipher, plainEncryption]
  update_nil _ := rfl
  update_append _ _ _ := rfl
  decrypts _ _ contents := by simp [encryptMessage, plainCipher, plainEncryption]
  authenticates _ _ _ := rfl

theorem releaseFits_wideEnds : 3 + 3 / 254 + 2 < 65536 := by decide

/-- Both ends encode with COBS, over a buffer of 100 bytes. -/
def wideEnds : Side → SesameEncoded := fun _ =>
  { maxSendMessageSize := 100
    messageSize := fun size => size + size / 254 + 2
    bufferFits := by decide
    releaseFits := releaseFits_wideEnds }

/-- `p` sends `contents`, in a packet of `encodedSize` bytes. -/
def sendMessage (p : Side) (contents : Bytes) (encodedSize : Nat) : List Action :=
  [.requestSendMessage p contents.length, .sendMessageStreamAvailable p,
    .writeMessage p contents, .messageSent p encodedSize]

def announce (p : Side) (encodedSize : Nat) : List Action :=
  [.sendMessageStreamAvailable p, .messageSent p encodedSize]

/-- The left peer talks after both announcements of the right one arrived. -/
def talkAfterStartUp : List Action :=
  announce .left 6 ++ announce .right 6 ++ [.deliver .left, .deliver .right] ++
    announce .left 5 ++ announce .right 5 ++ [.deliver .left, .deliver .right] ++
    sendMessage .left [1] 20 ++ sendMessage .left [2] 20 ++
    [.deliver .right, .readerReleased .right]

/-- The left peer talks as soon as it is notified, and again when it is notified again. -/
def talkAtOnce : List Action :=
  announce .left 6 ++ announce .right 6 ++ [.deliver .left] ++ announce .left 5 ++
    sendMessage .left [1] 20 ++
    [.deliver .right] ++ announce .right 5 ++ [.deliver .right, .deliver .right,
      .readerReleased .right, .deliver .left] ++
    sendMessage .left [2] 20 ++ [.deliver .right]

end SecuredConnection

end Sesame
