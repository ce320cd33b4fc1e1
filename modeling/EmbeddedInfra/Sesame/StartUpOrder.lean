import EmbeddedInfra.Sesame.WindowAccounting

/-! The order of packets at start-up: without a `Reset` each peer sends one `init`, then one
`initResponse`, and only then anything else. -/

namespace Sesame

open List

namespace SesameWindowed

variable {β : Type} {d : SesameEncoded} {s : SesameWindowed β}

/-- The peer is still sending its `init`. -/
def Initiating (s : SesameWindowed β) : Prop :=
  s.sending = true ∧ s.state = .sendingInit ∧
    (s.initialized = true → s.sendInitResponse = true)

/-- The peer has sent its `init`, and not yet its `initResponse`. -/
def Responding (s : SesameWindowed β) : Prop :=
  (s.sending = false ∧ (s.initialized = false ∨ s.sendInitResponse = true)) ∨
    (s.sending = true ∧ s.state = .sendingInitResponse ∧ s.initialized = true ∧
      ((∃ size, s.transmission = .requested size) ∨ s.sendInitResponse = false))

def Talking (s : SesameWindowed β) : Prop :=
  s.initialized = true ∧ s.sendInitResponse = false ∧
    s.state ≠ .sendingInit ∧ s.state ≠ .sendingInitResponse

theorem Initiating.setNextState (phase : Initiating s) : Initiating (s.setNextState d) := by
  rw [setNextState_of_busy (.inl phase.1)]
  exact phase

theorem Responding.setNextState (phase : Responding s) : Responding (s.setNextState d) := by
  have outcome := setNextState_outcome d s
  generalize s.setNextState d = next at outcome
  cases outcome with
  | busy | readerHeld => exact phase
  | initResponse free started due => exact .inr ⟨rfl, rfl, started, .inl ⟨3, rfl⟩⟩
  | message size free started noResponse | releaseWindow free started noResponse
  | operational free started noResponse =>
    rcases phase with ⟨_, fresh | due⟩ | ⟨sending, _⟩
    · cases started.symm.trans fresh
    · cases noResponse.symm.trans due
    · cases free.symm.trans sending

theorem talking_setNextState (free : s.sending = false) (started : s.initialized = true)
    (noResponse : s.sendInitResponse = false) : Talking (s.setNextState d) := by
  have outcome := setNextState_outcome d s
  generalize s.setNextState d = next at outcome
  cases outcome with
  | busy occupied =>
    rcases occupied with sending | fresh
    · cases free.symm.trans sending
    · cases started.symm.trans fresh
  | readerHeld _ _ due | initResponse _ _ due => cases noResponse.symm.trans due
  | message | releaseWindow | operational =>
    exact ⟨started, noResponse, by simp [request], by simp [request]⟩

theorem Talking.setNextState (phase : Talking s) : Talking (s.setNextState d) := by
  cases sending : s.sending with
  | true =>
    rw [setNextState_of_busy (.inl sending)]
    exact phase
  | false => exact talking_setNextState sending phase.1 phase.2.1

end SesameWindowed

open SesameWindowed

variable {β : Type}

/-- Before its receiver has heard of it, the `init` is what it will hear of first. -/
def InitDue (heard : Bool) (link : List (Packet β × Nat)) : Prop :=
  if heard then link = [] else ∃ window encodedSize, link = [(.init window, encodedSize)]

def Plain (link : List (Packet β × Nat)) : Prop := ∀ packet ∈ link, announces packet = false

/-- What is in flight from a peer, when its receiver is initialized or not. -/
inductive Order (heard : Bool) (s : SesameWindowed β) : List (Packet β × Nat) → Prop
  | initiating (phase : Initiating s) (fresh : heard = false) : Order heard s []
  | responding {link : List (Packet β × Nat)} (phase : Responding s)
      (due : InitDue heard link) : Order heard s link
  | talking (front rest : List (Packet β × Nat)) (phase : Talking s)
      (due : InitDue heard front)
      (order : Plain rest ∨ ∃ window encodedSize tail,
        rest = (.initResponse window, encodedSize) :: tail ∧ Plain tail) :
      Order heard s (front ++ rest)

section Heads

variable {heard : Bool} {s : SesameWindowed β} {rest : List (Packet β × Nat)}

theorem initDue_cons {packet : Packet β × Nat} (due : InitDue heard (packet :: rest)) :
    heard = false ∧ rest = [] ∧ ∃ window, packet.1 = .init window := by
  cases heard with
  | true => cases due
  | false =>
    obtain ⟨window, encodedSize, same⟩ := due
    cases same
    exact ⟨rfl, rfl, window, rfl⟩

variable {encodedSize : Nat}

theorem order_init {window : Nat} (order : Order heard s ((.init window, encodedSize) :: rest)) :
    heard = false ∧ Order true s rest := by
  generalize same : (Packet.init window, encodedSize) :: rest = link at order
  cases order with
  | initiating => cases same
  | responding phase due =>
    subst same
    obtain ⟨fresh, rfl, _⟩ := initDue_cons due
    exact ⟨fresh, .responding phase rfl⟩
  | talking front tail phase due order =>
    cases front with
    | nil =>
      rw [nil_append] at same
      subst same
      rcases order with plain | ⟨_, _, _, other, _⟩
      · cases plain _ (.head _)
      · cases other
    | cons packet more =>
      obtain ⟨fresh, rfl, _⟩ := initDue_cons due
      cases same
      exact ⟨fresh, .talking [] tail phase rfl order⟩

/-- After an `initResponse`, or anything else than the two announcements, nothing is
announced. -/
theorem order_later {packet : Packet β} (order : Order heard s ((packet, encodedSize) :: rest))
    (later : ∀ window, packet ≠ .init window) :
    heard = true ∧ Talking s ∧ Plain rest := by
  generalize same : (packet, encodedSize) :: rest = link at order
  cases order with
  | initiating => cases same
  | responding phase due =>
    subst same
    obtain ⟨_, _, window, kind⟩ := initDue_cons due
    exact absurd kind (later window)
  | talking front tail phase due order =>
    cases front with
    | nil =>
      have started : heard = true := by
        cases heard with
        | true => rfl
        | false =>
          obtain ⟨_, _, missing⟩ := due
          cases missing
      refine ⟨started, phase, ?_⟩
      rw [nil_append] at same
      subst same
      rcases order with plain | ⟨_, _, tail, other, plain⟩
      · intro other member
        exact plain other (.tail _ member)
      · cases other
        exact plain
    | cons first more =>
      obtain ⟨_, rfl, window, kind⟩ := initDue_cons due
      cases same
      exact absurd kind (later window)

theorem Plain.order (plain : Plain rest) (phase : Talking s) : Order true s rest :=
  .talking [] rest phase rfl (.inl plain)

end Heads

namespace Connection

variable {d : Side → SesameEncoded} {s t : Connection β}

def Ordered (s : Connection β) : Prop :=
  ∀ r, Order (s.peer r.other).initialized (s.peer r) (s.link r)

theorem ordered_construct : Ordered (construct : Connection β) :=
  fun _ => .initiating ⟨rfl, rfl, fun started => by cases started⟩ rfl

variable {peer : SesameWindowed β} {p : Side} {rest : List (Packet β × Nat)}

theorem Order.of_phase {heard : Bool} {next : SesameWindowed β} {link : List (Packet β × Nat)}
    (order : Order heard peer link) (initiating : Initiating peer → Initiating next)
    (responding : Responding peer → Responding next) (talking : Talking peer → Talking next) :
    Order heard next link := by
  cases order with
  | initiating phase fresh => exact .initiating (initiating phase) fresh
  | responding phase due => exact .responding (responding phase) due
  | talking front rest phase due order => exact .talking front rest (talking phase) due order

theorem ordered_setPeer (ordered : Ordered s) (started : peer.initialized = (s.peer p).initialized)
    (initiating : Initiating (s.peer p) → Initiating peer)
    (responding : Responding (s.peer p) → Responding peer)
    (talking : Talking (s.peer p) → Talking peer) : Ordered (s.setPeer p peer) := by
  refine Side.forall_of p ?_ ?_
  · rw [setPeer_peer_other, setPeer_peer, setPeer_link]
    exact Order.of_phase (ordered p) initiating responding talking
  · rw [Side.other_other, setPeer_peer, setPeer_peer_other, setPeer_link, started]
    simpa only [Side.other_other] using ordered p.other

theorem ordered_deliver (own : Order (s.peer p.other).initialized peer (s.link p))
    (other : Order peer.initialized (s.peer p.other) rest) :
    Ordered ((s.setPeer p peer).setLink p.other rest) := by
  refine Side.forall_of p ?_ ?_
  · simpa using own
  · simpa using other

variable {size encodedSize : Nat} {a : Action β} {r : Side} {packet : Packet β × Nat}

theorem ordered_messageSent {packet : Packet β} (coherent : Coherent (d p) (s.peer p))
    (ordered : Ordered s) (sending : (s.peer p).transmission = .sending packet size) :
    Ordered ((s.setPeer p (setNextState (d p) ((s.peer p).afterSent encodedSize))).setLink
      p (s.link p ++ [(packet, encodedSize)])) := by
  have phase := coherent.phase
  simp only [InPhase, sending] at phase
  obtain ⟨busy, _, carries⟩ := phase
  refine Side.forall_of p ?_ ?_
  · rw [setLink_peer, setPeer_peer_other, setPeer_peer, setLink_link]
    have order := ordered p
    generalize s.link p = link at order
    cases order with
    | initiating phase fresh =>
      obtain ⟨window, rfl⟩ : ∃ window, packet = .init window := by
        have state := phase.2.1
        cases packet <;> simp_all [Carries]
      refine .responding (Responding.setNextState (.inl ⟨rfl, ?_⟩)) ?_
      · cases started : (s.peer p).initialized with
        | false => exact .inl started
        | true => exact .inr (phase.2.2 started)
      · rw [fresh]
        exact ⟨window, encodedSize, rfl⟩
    | responding phase due =>
      rcases phase with ⟨free, _⟩ | ⟨_, state, started, requested | noResponse⟩
      · cases busy.symm.trans free
      · obtain ⟨size, requested⟩ := requested
        cases sending.symm.trans requested
      · obtain ⟨window, rfl⟩ : ∃ window, packet = .initResponse window := by
          cases packet <;> simp_all [Carries]
        refine .talking link [_] (talking_setNextState rfl started noResponse) due ?_
        exact .inr ⟨window, encodedSize, [], rfl, by simp [Plain]⟩
    | talking front rest phase due order =>
      have silent : announces (packet, encodedSize) = false := by
        obtain ⟨_, _, notInit, notResponse⟩ := phase
        cases packet <;> simp_all [Carries, announces]
      have concat : ∀ link : List (Packet β × Nat), Plain link →
          Plain (link ++ [(packet, encodedSize)]) := by
        intro link plain other member
        rcases mem_append.mp member with old | new
        · exact plain other old
        · rw [mem_singleton.mp new]
          exact silent
      have still : Talking ((s.peer p).afterSent encodedSize) := phase
      rw [append_assoc]
      refine .talking front _ still.setNextState due ?_
      rcases order with plain | ⟨window, bytes, tail, rfl, plain⟩
      · exact .inl (concat rest plain)
      · exact .inr ⟨window, bytes, _, rfl, concat tail plain⟩
  · simpa using ordered p.other

theorem ordered_step (coherent : ∀ r, Coherent (d r) (s.peer r)) (ordered : Ordered s)
    (noReset : ∀ p, a ≠ .reset p) (outcome : Outcome d s a t) :
    Ordered t := by
  cases outcome with
  | sendInit p size available state =>
    have sending := (coherent p).sending (by simp [available])
    refine ordered_setPeer ordered rfl id ?_ id
    rintro (⟨free, _⟩ | ⟨_, other, _⟩)
    · cases free.symm.trans sending
    · cases state.symm.trans other
  | sendInitResponse p size available state =>
    have sending := (coherent p).sending (by simp [available])
    refine ordered_setPeer ordered rfl ?_ ?_ ?_
    · rintro ⟨_, other, _⟩
      cases state.symm.trans other
    · rintro (⟨free, _⟩ | ⟨_, _, started, _⟩)
      · cases free.symm.trans sending
      · exact .inr ⟨sending, state, started, .inr rfl⟩
    · rintro ⟨_, _, _, other⟩
      exact absurd state other
  | beginMessage p size requested available state | sendReleaseWindow p size available state =>
    have sending := (coherent p).sending (by simp [available])
    refine ordered_setPeer ordered rfl ?_ ?_ id
    · rintro ⟨_, other, _⟩
      cases state.symm.trans other
    · rintro (⟨free, _⟩ | ⟨_, other, _⟩)
      · cases free.symm.trans sending
      · cases state.symm.trans other
  | writeMessage p contents size writing =>
    have phase := (coherent p).phase
    simp only [InPhase, writing] at phase
    refine ordered_setPeer ordered rfl ?_ ?_ id
    · rintro ⟨_, other, _⟩
      cases phase.2.symm.trans other
    · rintro (⟨free, _⟩ | ⟨_, other, _⟩)
      · cases free.symm.trans phase.1
      · cases phase.2.symm.trans other
  | messageSent p packet size encodedSize sending within =>
    exact ordered_messageSent (coherent p) ordered sending
  | deliverInit p window encodedSize rest oldest released =>
    have order := ordered p.other
    rw [Side.other_other, oldest] at order
    obtain ⟨fresh, later⟩ := order_init order
    refine ordered_deliver ?_ ?_
    · have own := ordered p
      generalize s.link p = link at own
      cases own with
      | initiating phase unheard =>
        exact .initiating (Initiating.setNextState ⟨phase.1, phase.2.1, fun _ => rfl⟩) unheard
      | responding phase due =>
        refine .responding (Responding.setNextState ?_) due
        rcases phase with ⟨free, _⟩ | ⟨_, _, started, _⟩
        · exact .inl ⟨free, .inr rfl⟩
        · cases fresh.symm.trans started
      | talking _ _ phase => cases fresh.symm.trans phase.1
    · rw [setNextState_initialized]
      exact later
  | deliverInitResponse p window encodedSize rest oldest released =>
    have order := ordered p.other
    rw [Side.other_other, oldest] at order
    obtain ⟨started, talking, plain⟩ := order_later order (by simp)
    refine ordered_deliver (Order.of_phase (ordered p) ?_ ?_ ?_) ?_
    · intro phase
      exact Initiating.setNextState ⟨phase.1, phase.2.1, fun _ => phase.2.2 started⟩
    · intro phase
      refine Responding.setNextState ?_
      rcases phase with ⟨free, fresh | due⟩ | ⟨sending, state, _, response⟩
      · cases fresh.symm.trans started
      · exact .inl ⟨free, .inr due⟩
      · exact .inr ⟨sending, state, rfl, response⟩
    · intro phase
      have still : Talking ((s.peer p).afterInitResponse window encodedSize) :=
        ⟨rfl, phase.2⟩
      exact still.setNextState
    · rw [setNextState_initialized]
      exact plain.order talking
  | deliverReleaseWindow p window encodedSize rest oldest released active =>
    have order := ordered p.other
    rw [Side.other_other, oldest] at order
    obtain ⟨started, talking, plain⟩ := order_later order (by simp)
    refine ordered_deliver (Order.of_phase (ordered p) ?_ ?_ ?_) ?_
    · exact Initiating.setNextState (s := (s.peer p).afterReleaseWindow window encodedSize)
    · exact Responding.setNextState (s := (s.peer p).afterReleaseWindow window encodedSize)
    · exact Talking.setNextState (s := (s.peer p).afterReleaseWindow window encodedSize)
    · rw [setNextState_initialized, afterReleaseWindow_initialized, active]
      exact plain.order talking
  | deliverMessage p contents encodedSize rest oldest released active =>
    have order := ordered p.other
    rw [Side.other_other, oldest] at order
    obtain ⟨started, talking, plain⟩ := order_later order (by simp)
    refine ordered_deliver (Order.of_phase (ordered p) ?_ ?_ ?_) ?_
    · exact Initiating.setNextState (s := (s.peer p).afterMessage encodedSize)
    · exact Responding.setNextState (s := (s.peer p).afterMessage encodedSize)
    · exact Talking.setNextState (s := (s.peer p).afterMessage encodedSize)
    · rw [setNextState_initialized, afterMessage_initialized, active]
      exact plain.order talking
  | drop p packet encodedSize rest oldest kind fresh =>
    have order := ordered p.other
    rw [Side.other_other, oldest] at order
    have later : ∀ window, packet ≠ .init window := by
      rcases kind with ⟨_, rfl⟩ | ⟨_, rfl⟩ <;> simp
    cases fresh.symm.trans (order_later order later).1
  | readerReleased p encodedSize held =>
    exact ordered_setPeer ordered (by simp [afterReader])
      (Initiating.setNextState (s := (s.peer p).afterReader encodedSize))
      (Responding.setNextState (s := (s.peer p).afterReader encodedSize))
      (Talking.setNextState (s := (s.peer p).afterReader encodedSize))
  | requestNow p size started small state =>
    exact ordered_setPeer ordered (by simp [afterRequest])
      (Initiating.setNextState (s := (s.peer p).afterRequest size))
      (Responding.setNextState (s := (s.peer p).afterRequest size))
      (Talking.setNextState (s := (s.peer p).afterRequest size))
  | requestLater p size started small state => exact ordered_setPeer ordered rfl id id id
  | reset p released => exact absurd rfl (noReset p)

def Settling (s : Connection β) (r : Side) : Prop := Talking (s.peer r) ∧ Plain (s.link r)

theorem settling_setPeer (settling : Settling s r) (talking : Talking (s.peer p) → Talking peer) :
    Settling (s.setPeer p peer) r := by
  refine ⟨?_, settling.2⟩
  rcases Side.eq_or_other p r with rfl | rfl
  · rw [setPeer_peer]
    exact talking settling.1
  · rw [setPeer_peer_other]
    exact settling.1

theorem settling_deliver (settling : Settling s r) (oldest : s.link p.other = packet :: rest)
    (talking : Talking (s.peer p) → Talking peer) :
    Settling ((s.setPeer p peer).setLink p.other rest) r := by
  obtain ⟨phase, plain⟩ := settling_setPeer settling talking
  refine ⟨phase, ?_⟩
  rcases Side.eq_or_other p r with rfl | rfl
  · rw [setLink_other_link]
    exact plain
  · rw [setLink_link]
    intro other member
    exact plain other (by rw [setPeer_link, oldest]; exact .tail _ member)

theorem settling_step (coherent : ∀ r, Coherent (d r) (s.peer r)) (ordered : Ordered s)
    (noReset : ∀ p, a ≠ .reset p) (outcome : Outcome d s a t) (r : Side) (settling : Settling s r) :
    Settling t r := by
  cases outcome with
  | sendInit p size available state =>
    exact settling_setPeer settling fun phase => absurd state phase.2.2.1
  | sendInitResponse p size available state =>
    exact settling_setPeer settling fun phase => absurd state phase.2.2.2
  | beginMessage | sendReleaseWindow | writeMessage | requestLater =>
    exact settling_setPeer settling id
  | messageSent p packet size encodedSize sending within =>
    have phase := (coherent p).phase
    simp only [InPhase, sending] at phase
    have still : Talking (s.peer p) → Talking (setNextState (d p)
        ((s.peer p).afterSent encodedSize)) := Talking.setNextState
          (s := (s.peer p).afterSent encodedSize)
    obtain ⟨talking, plain⟩ := settling_setPeer settling still
    refine ⟨talking, ?_⟩
    rcases Side.eq_or_other p r with rfl | rfl
    · rw [setLink_link]
      intro other member
      rcases mem_append.mp member with old | new
      · exact plain other old
      · have carries := phase.2.2
        obtain ⟨_, _, notInit, notResponse⟩ := settling.1
        rw [mem_singleton.mp new]
        cases packet <;> simp_all [Carries, announces]
    · rw [setLink_link_other]
      exact plain
  | deliverInit p window encodedSize rest oldest released =>
    have order := ordered p.other
    rw [Side.other_other, oldest] at order
    have fresh := (order_init order).1
    exact settling_deliver settling oldest fun phase => by cases fresh.symm.trans phase.1
  | deliverInitResponse p window encodedSize rest oldest released =>
    refine settling_deliver settling oldest fun phase => ?_
    have still : Talking ((s.peer p).afterInitResponse window encodedSize) := ⟨rfl, phase.2⟩
    exact still.setNextState
  | deliverReleaseWindow p window encodedSize rest oldest released active =>
    exact settling_deliver settling oldest
      (Talking.setNextState (s := (s.peer p).afterReleaseWindow window encodedSize))
  | deliverMessage p contents encodedSize rest oldest released active =>
    exact settling_deliver settling oldest
      (Talking.setNextState (s := (s.peer p).afterMessage encodedSize))
  | drop p packet encodedSize rest oldest kind fresh =>
    have kept : Talking (s.peer p) → Talking (s.peer p) := id
    have dropped := settling_deliver settling oldest kept
    rwa [setPeer_self] at dropped
  | readerReleased p encodedSize held =>
    exact settling_setPeer settling
      (Talking.setNextState (s := (s.peer p).afterReader encodedSize))
  | requestNow p size started small state =>
    exact settling_setPeer settling (Talking.setNextState (s := (s.peer p).afterRequest size))
  | reset p released => exact absurd rfl (noReset p)

def messageContents : Packet β × Nat → Option β
  | (.message contents, _) => some contents
  | _ => none

def outgoing (s : SesameWindowed β) : List β :=
  match s.transmission with
  | .sending (.message contents) _ => [contents]
  | _ => []

def messagesInFlight (s : Connection β) (r : Side) : List β :=
  (s.link r).filterMap messageContents ++ outgoing (s.peer r)

theorem outgoing_setNextState (d : SesameEncoded) (peer : SesameWindowed β)
    (idle : peer.sending = false → peer.transmission = .idle) :
    outgoing (peer.setNextState d) = outgoing peer := by
  have outcome := setNextState_outcome d peer
  generalize peer.setNextState d = next at outcome
  cases outcome with
  | busy | readerHeld => rfl
  | initResponse free | message size free | releaseWindow free | operational free =>
    simp [outgoing, request, idle free]

theorem messagesInFlight_setPeer (same : outgoing peer = outgoing (s.peer p)) (r : Side) :
    messagesInFlight (s.setPeer p peer) r = messagesInFlight s r := by
  rcases Side.eq_or_other p r with rfl | rfl
  · simp [messagesInFlight, same]
  · simp [messagesInFlight]

theorem messagesInFlight_streamAvailable (outcome : Outcome d s (.sendMessageStreamAvailable p) t)
    (r : Side) :
    messagesInFlight t r = messagesInFlight s r := by
  cases outcome with
  | sendInit _ size available | sendInitResponse _ size available
  | beginMessage _ size requested available | sendReleaseWindow _ size available =>
    exact messagesInFlight_setPeer (by simp [outgoing, available]) r

theorem messagesInFlight_request (coherent : ∀ r, Coherent (d r) (s.peer r))
    (outcome : Outcome d s (.requestSendMessage p size) t) (r : Side) :
    messagesInFlight t r = messagesInFlight s r := by
  cases outcome with
  | requestNow =>
    exact messagesInFlight_setPeer
      (outgoing_setNextState (d p) ((s.peer p).afterRequest size) (coherent p).idle) r
  | requestLater =>
    have same : outgoing ((s.peer p).afterRequest size) = outgoing (s.peer p) := rfl
    exact messagesInFlight_setPeer same r

theorem messagesInFlight_readerReleased (coherent : ∀ r, Coherent (d r) (s.peer r))
    (outcome : Outcome d s (.readerReleased p) t) (r : Side) :
    messagesInFlight t r = messagesInFlight s r := by
  cases outcome with
  | readerReleased _ encodedSize =>
    exact messagesInFlight_setPeer
      (outgoing_setNextState (d p) ((s.peer p).afterReader encodedSize) (coherent p).idle) r

theorem messagesInFlight_messageSent (outcome : Outcome d s (.messageSent p encodedSize) t)
    (r : Side) :
    messagesInFlight t r = messagesInFlight s r := by
  cases outcome with
  | messageSent _ packet size _ sending within =>
    have cleared : outgoing (setNextState (d p) ((s.peer p).afterSent encodedSize)) = [] :=
      outgoing_setNextState (d p) ((s.peer p).afterSent encodedSize) fun _ => rfl
    have before : outgoing (s.peer p) = (messageContents (packet, encodedSize)).toList := by
      cases packet <;> simp [outgoing, sending, messageContents]
    rcases Side.eq_or_other p r with rfl | rfl
    · simp only [messagesInFlight, setLink_link, setLink_peer, setPeer_peer, cleared, before,
        filterMap_append, append_nil]
      cases contents : messageContents (packet, encodedSize) <;> simp [contents]
    · simp [messagesInFlight]

theorem messagesInFlight_writeMessage {contents : β}
    (outcome : Outcome d s (.writeMessage p contents) t) :
    messagesInFlight t p = messagesInFlight s p ++ [contents] ∧
      messagesInFlight t p.other = messagesInFlight s p.other := by
  cases outcome with
  | writeMessage _ _ size writing => simp [messagesInFlight, outgoing, writing]

theorem messagesInFlight_deliver (oldest : s.link p.other = packet :: rest)
    (same : outgoing peer = outgoing (s.peer p)) :
    messagesInFlight s p.other = (messageContents packet).toList ++
        messagesInFlight ((s.setPeer p peer).setLink p.other rest) p.other ∧
      messagesInFlight ((s.setPeer p peer).setLink p.other rest) p = messagesInFlight s p := by
  constructor
  · cases contents : messageContents packet <;>
      simp [messagesInFlight, oldest, contents]
  · simp [messagesInFlight, same]

end Connection

end Sesame
