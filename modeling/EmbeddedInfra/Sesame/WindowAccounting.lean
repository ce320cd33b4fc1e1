import EmbeddedInfra.Sesame.WindowSteps

/-! Window accounting: what a sender may still send, together with everything it has
sent and did not get back yet, stays within the buffer of the receiver. -/

namespace Sesame

namespace SesameWindowed

variable {β : Type} {d : SesameEncoded} {s : SesameWindowed β}

def stateSize : WindowedState → Nat
  | .sendingMessage size => size
  | _ => 3

/-- The packets that a state sends. -/
def Carries (d : SesameEncoded) : WindowedState → Packet β → Prop
  | .sendingInit, .init window => window = ownBufferSize d
  | .sendingInitResponse, .initResponse window => window = ownBufferSize d
  | .sendingMessage _, .message _ => True
  | .sendingReleaseWindow, .releaseWindow _ => True
  | _, _ => False

/-- The transmission fits the state that requested it. -/
def InPhase (d : SesameEncoded) (s : SesameWindowed β) : Prop :=
  match s.transmission with
  | .idle => s.sending = false
  | .requested size => s.sending = true ∧ size = stateSize s.state ∧ s.state ≠ .operational
  | .writing size => s.sending = true ∧ s.state = .sendingMessage size
  | .sending packet size =>
    s.sending = true ∧ size = stateSize s.state ∧ Carries d s.state packet

structure Coherent (d : SesameEncoded) (s : SesameWindowed β) : Prop where
  phase : InPhase d s
  fresh : s.initialized = false →
    s.otherAvailableWindow = 0 ∧ s.releasedWindow = 0 ∧ s.receivedMessageReader = none ∧
      s.sendInitResponse = false ∧ s.state = .sendingInit

theorem coherent_construct : Coherent d (construct : SesameWindowed β) :=
  ⟨⟨rfl, rfl, by simp [construct]⟩, fun _ => ⟨rfl, rfl, rfl, rfl, rfl⟩⟩

theorem Coherent.idle (coherent : Coherent d s) (free : s.sending = false) :
    s.transmission = .idle := by
  have phase := coherent.phase
  unfold InPhase at phase
  split at phase
  next idle => exact idle
  all_goals simp [free] at phase

theorem Coherent.sending (coherent : Coherent d s) (busy : s.transmission ≠ .idle) :
    s.sending = true := by
  have phase := coherent.phase
  unfold InPhase at phase
  split at phase
  next idle => exact absurd idle busy
  all_goals exact phase.1

theorem Coherent.setNextState (coherent : Coherent d s) :
    Coherent d (s.setNextState d) := by
  have outcome := setNextState_outcome d s
  generalize s.setNextState d = next at outcome
  cases outcome with
  | busy | readerHeld => exact coherent
  | initResponse free started | message size free started | releaseWindow free started =>
    exact ⟨⟨rfl, rfl, by simp [request]⟩, fun fresh => by simp [request, started] at fresh⟩
  | operational free started =>
    refine ⟨?_, fun fresh => by simp [started] at fresh⟩
    have idle := coherent.idle free
    simpa only [InPhase, idle] using free

/-- The encoded size of the message that the observer holds. -/
def heldSize (s : SesameWindowed β) : Nat := s.receivedMessageReader.getD 0

/-- The window that a release packet on its way out of the delegate gives back. -/
def pendingRelease (s : SesameWindowed β) : Nat :=
  match s.transmission with
  | .sending (.releaseWindow window) _ => window
  | _ => 0

/-- What the init response needs that is still to be requested. -/
def followUp (d : SesameEncoded) (s : SesameWindowed β) : Nat :=
  if s.sendInitResponse then releaseWindowSize d else 0

/-- The window that what is being sent may still use. -/
def reserved (d : SesameEncoded) (s : SesameWindowed β) : Nat :=
  match s.transmission, s.state with
  | .idle, _ => followUp d s
  | _, .sendingInit => followUp d s
  | .requested _, .sendingInitResponse => releaseWindowSize d
  | _, .sendingMessage size => d.messageSize size + releaseWindowSize d
  | _, _ => releaseWindowSize d + followUp d s

def Enough (d : SesameEncoded) (s : SesameWindowed β) : Prop :=
  reserved d s ≤ s.otherAvailableWindow

theorem followUp_le : followUp d s ≤ releaseWindowSize d := by
  unfold followUp
  split <;> omega

theorem reserved_le_of_announced {t : SesameWindowed β} {window : Nat}
    (before : reserved d s ≤ window) (room : 2 * releaseWindowSize d ≤ window)
    (transmission : t.transmission = s.transmission) (state : t.state = s.state) :
    reserved d t ≤ window := by
  have small := followUp_le (d := d) (s := t)
  have twice : releaseWindowSize d + followUp d t ≤ window := by omega
  unfold reserved at before ⊢
  rw [transmission, state]
  split <;> simp_all <;> omega

/-- What the peer received and did not give back yet. -/
def retained (s : SesameWindowed β) : Nat := heldSize s + s.releasedWindow + pendingRelease s

theorem retained_setNextState_le : retained (s.setNextState d) ≤ retained s := by
  have smaller : pendingRelease (s.setNextState d) ≤ pendingRelease s := by
    have outcome := setNextState_outcome d s
    generalize s.setNextState d = next at outcome
    cases outcome <;> simp [pendingRelease, request]
  simp only [retained, heldSize, setNextState_receivedMessageReader,
    setNextState_releasedWindow]
  omega

theorem Enough.setNextState (idle : s.sending = false → s.transmission = .idle)
    (enough : Enough d s) : Enough d (s.setNextState d) := by
  unfold Enough at enough ⊢
  rw [setNextState_otherAvailableWindow]
  have outcome := setNextState_outcome d s
  generalize s.setNextState d = next at outcome
  cases outcome with
  | busy | readerHeld => exact enough
  | initResponse free started due =>
    simpa [reserved, request, followUp, idle free, due] using enough
  | message size free started noResponse pending fits => simpa [reserved, request] using fits
  | releaseWindow free started noResponse waits due =>
    simpa [reserved, request, followUp, noResponse] using due.2
  | operational free => simpa [reserved, followUp, idle free] using enough

end SesameWindowed

open SesameWindowed

/-- What a packet counts against the window of its receiver. -/
def charge {β : Type} : Packet β × Nat → Nat
  | (.init _, _) => 0
  | (_, encodedSize) => encodedSize

/-- The window that a packet gives back. -/
def grant {β : Type} : Packet β × Nat → Nat
  | (.releaseWindow window, _) => window
  | _ => 0

def charges {β : Type} (link : List (Packet β × Nat)) : Nat := (link.map charge).sum
def grants {β : Type} (link : List (Packet β × Nat)) : Nat := (link.map grant).sum

/-- The packets that make their receiver notify `Initialized`. -/
def announces {β : Type} : Packet β × Nat → Bool
  | (.init _, _) => true
  | (.initResponse _, _) => true
  | _ => false

/-- The packets that the receiver will take into account: before it is initialized it
drops everything up to the first announcement. -/
def expected {β : Type} (initialized : Bool) (link : List (Packet β × Nat)) :
    List (Packet β × Nat) :=
  if initialized then link else link.dropWhile fun packet => !announces packet

section Lists

variable {β : Type} (link : List (Packet β × Nat)) (packet : Packet β × Nat)

@[simp] theorem charges_nil : charges ([] : List (Packet β × Nat)) = 0 := rfl
@[simp] theorem grants_nil : grants ([] : List (Packet β × Nat)) = 0 := rfl

@[simp] theorem charges_cons : charges (packet :: link) = charge packet + charges link := by
  simp [charges]

@[simp] theorem grants_cons : grants (packet :: link) = grant packet + grants link := by
  simp [grants]

@[simp] theorem charges_concat : charges (link ++ [packet]) = charges link + charge packet := by
  simp [charges]

@[simp] theorem grants_concat : grants (link ++ [packet]) = grants link + grant packet := by
  simp [grants]

@[simp] theorem expected_true : expected true link = link := rfl

theorem expected_false_of_announces (announced : announces packet = true) :
    expected false (packet :: link) = packet :: link := by
  simp [expected, announced]

theorem expected_false_of_not_announces (silent : announces packet = false) :
    expected false (packet :: link) = expected false link := by
  simp [expected, silent]

theorem charges_expected_le (initialized : Bool) :
    charges (expected initialized link) ≤ charges link := by
  cases initialized with
  | true => exact le_rfl
  | false =>
    induction link with
    | nil => exact le_rfl
    | cons first rest ih =>
      cases silent : announces first with
      | true => rw [expected_false_of_announces _ _ silent]
      | false =>
        rw [expected_false_of_not_announces _ _ silent, charges_cons]
        omega

theorem charges_expected_concat_le (initialized : Bool) :
    charges (expected initialized (link ++ [packet])) ≤
      charges (expected initialized link) + charge packet := by
  cases initialized with
  | true => simp
  | false =>
    induction link with
    | nil => simpa [expected] using charges_expected_le [packet] false
    | cons first rest ih =>
      cases silent : announces first with
      | true =>
        rw [List.cons_append, expected_false_of_announces _ _ silent,
          expected_false_of_announces _ _ silent]
        simp [Nat.add_assoc]
      | false =>
        rw [List.cons_append, expected_false_of_not_announces _ _ silent,
          expected_false_of_not_announces _ _ silent]
        exact ih

end Lists

namespace Connection

variable {β : Type} {d : Side → SesameEncoded} {s t : Connection β}

/-- What `p` sent and did not get back yet: in flight, held, or not yet announced. -/
def unacknowledged (s : Connection β) (p : Side) : Nat :=
  charges (s.link p) + retained (s.peer p.other) + grants (s.link p.other)

/-- The part of it that the receiver counts, or will count once it is initialized. -/
def outstanding (s : Connection β) (p : Side) : Nat :=
  charges (expected (s.peer p.other).initialized (s.link p)) + retained (s.peer p.other) +
    grants (s.link p.other)

variable {p : Side} {peer : SesameWindowed β} {a : Action β} {packet : Packet β}
  {size encodedSize : Nat}

theorem forall_setPeer {P : Side → SesameWindowed β → Prop} (all : ∀ r, P r (s.peer r))
    (new : P p peer) :
    ∀ r, P r ((s.setPeer p peer).peer r) := by
  intro r
  rcases Side.eq_or_other p r with rfl | rfl
  · simpa using new
  · simpa using all p.other

theorem coherent_step (coherent : ∀ r, Coherent (d r) (s.peer r)) (outcome : Outcome d s a t) :
    ∀ r, Coherent (d r) (t.peer r) := by
  cases outcome with
  | sendInit p size available state =>
    have phase := (coherent p).phase
    simp only [InPhase, available] at phase
    exact forall_setPeer coherent
      ⟨⟨phase.1, phase.2.1, by simp [Carries, state]⟩, (coherent p).fresh⟩
  | sendInitResponse p size available state =>
    have phase := (coherent p).phase
    simp only [InPhase, available] at phase
    refine forall_setPeer coherent
      ⟨⟨phase.1, phase.2.1, by simp [Carries, state]⟩, fun fresh => ?_⟩
    have fresh := (coherent p).fresh fresh
    simp [state] at fresh
  | beginMessage p size requested available state =>
    have phase := (coherent p).phase
    simp only [InPhase, available, state, stateSize] at phase
    exact forall_setPeer coherent
      ⟨⟨phase.1, by simp [state, phase.2.1]⟩, (coherent p).fresh⟩
  | sendReleaseWindow p size available state =>
    have phase := (coherent p).phase
    simp only [InPhase, available] at phase
    refine forall_setPeer coherent
      ⟨⟨phase.1, phase.2.1, by simp [Carries, state]⟩, fun fresh => ?_⟩
    have fresh := (coherent p).fresh fresh
    simp [state] at fresh
  | writeMessage p contents size writing =>
    have phase := (coherent p).phase
    simp only [InPhase, writing] at phase
    exact forall_setPeer coherent
      ⟨⟨phase.1, by simp [phase.2, stateSize], by simp [Carries, phase.2]⟩,
        (coherent p).fresh⟩
  | messageSent p packet size encodedSize sending within =>
    simp only [setLink_peer]
    refine forall_setPeer coherent (Coherent.setNextState ⟨rfl, fun fresh => ?_⟩)
    obtain ⟨window, released, reader, noResponse, state⟩ := (coherent p).fresh fresh
    exact ⟨by simp [afterSent, state, window], released, reader, noResponse, state⟩
  | deliverInit p window encodedSize rest oldest released
  | deliverInitResponse p window encodedSize rest oldest released =>
    simp only [setLink_peer]
    exact forall_setPeer coherent
      (Coherent.setNextState ⟨(coherent p).phase, fun fresh => by cases fresh⟩)
  | deliverReleaseWindow p window encodedSize rest oldest released started
  | deliverMessage p contents encodedSize rest oldest released started =>
    simp only [setLink_peer]
    exact forall_setPeer coherent (Coherent.setNextState
      ⟨(coherent p).phase, fun fresh => by cases started.symm.trans fresh⟩)
  | drop p packet encodedSize rest oldest kind fresh => simpa using coherent
  | readerReleased p encodedSize held =>
    refine forall_setPeer coherent (Coherent.setNextState
      ⟨(coherent p).phase, fun fresh => ?_⟩)
    have fresh := (coherent p).fresh fresh
    simp [held] at fresh
  | requestNow p size started small state =>
    exact forall_setPeer coherent (Coherent.setNextState
      ⟨(coherent p).phase, fun fresh => by cases started.symm.trans fresh⟩)
  | requestLater p size started small state =>
    exact forall_setPeer coherent
      ⟨(coherent p).phase, fun fresh => by cases started.symm.trans fresh⟩
  | reset p released => exact forall_setPeer coherent coherent_construct

/-- Both announcements of a peer carry the size of its own buffer. -/
def Announced (d : Side → SesameEncoded) (s : Connection β) : Prop :=
  ∀ r, ∀ packet ∈ s.link r, ∀ window,
    packet.1 = .init window ∨ packet.1 = .initResponse window → window = ownBufferSize (d r)

theorem announced_setLink_concat (announced : Announced d s) (coherent : Coherent (d p) (s.peer p))
    (sending : (s.peer p).transmission = .sending packet size) :
    Announced d ((s.setPeer p peer).setLink p (s.link p ++ [(packet, encodedSize)])) := by
  intro r other member window kind
  rcases Side.eq_or_other p r with rfl | rfl
  · rw [setLink_link, List.mem_append, List.mem_singleton] at member
    rcases member with old | rfl
    · exact announced r other old window kind
    · have phase := coherent.phase
      simp only [InPhase, sending] at phase
      rcases kind with rfl | rfl
      all_goals
        have carries := phase.2.2
        unfold Carries at carries
        split at carries <;> simp_all
  · rw [setLink_link_other] at member
    exact announced p.other other (by simpa using member) window kind

theorem announced_setLink_tail {packet : Packet β × Nat} {rest : List (Packet β × Nat)}
    (peer : SesameWindowed β) (announced : Announced d s)
    (oldest : s.link p.other = packet :: rest) :
    Announced d ((s.setPeer p peer).setLink p.other rest) := by
  intro r other member window kind
  rcases Side.eq_or_other p r with rfl | rfl
  · rw [setLink_other_link] at member
    exact announced r other (by simpa using member) window kind
  · rw [setLink_link] at member
    exact announced p.other other (by rw [oldest]; exact .tail _ member) window kind

theorem announced_step (announced : Announced d s) (coherent : ∀ r, Coherent (d r) (s.peer r))
    (outcome : Outcome d s a t) :
    Announced d t := by
  cases outcome with
  | messageSent p packet size encodedSize sending within =>
    exact announced_setLink_concat announced (coherent p) sending
  | deliverInit p window encodedSize rest oldest released
  | deliverInitResponse p window encodedSize rest oldest released
  | deliverReleaseWindow p window encodedSize rest oldest released started
  | deliverMessage p contents encodedSize rest oldest released started =>
    exact announced_setLink_tail _ announced oldest
  | drop p packet encodedSize rest oldest kind fresh =>
    have kept := announced_setLink_tail (s.peer p) announced oldest
    rwa [setPeer_self] at kept
  | _ => exact announced

/-- Nothing is outstanding when the window of a sender is set anew: what the receiver
holds, has not given back, or is still on its way is not covered by the new window. -/
def NoneOutstanding (s : Connection β) : Action β → Prop
  | .deliver p => (s.link p.other).head?.any announces = true → outstanding s p = 0
  | _ => True

instance (s : Connection β) : DecidablePred (NoneOutstanding s)
  | .deliver p => inferInstanceAs (Decidable
      ((s.link p.other).head?.any announces = true → outstanding s p = 0))
  | .sendMessageStreamAvailable _ | .writeMessage _ _ | .messageSent _ _ | .readerReleased _
  | .requestSendMessage _ _ | .reset _ => inferInstanceAs (Decidable True)

/-- The window of every sender covers what is being sent and, with what is outstanding,
stays within the buffer of the receiver. -/
structure Accounted (d : Side → SesameEncoded) (s : Connection β) : Prop where
  coherent : ∀ r, Coherent (d r) (s.peer r)
  announced : Announced d s
  enough : ∀ r, Enough (d r) (s.peer r)
  within : ∀ r, (s.peer r).initialized = true →
    (s.peer r).otherAvailableWindow + outstanding s r ≤ ownBufferSize (d r.other)

theorem accounted_construct : Accounted d (construct : Connection β) where
  coherent _ := coherent_construct
  announced := by simp [Announced, construct]
  enough r := by simp [construct, Enough, reserved, followUp, SesameWindowed.construct]
  within r started := by simp [construct, SesameWindowed.construct] at started

theorem charge_le (packet : Packet β × Nat) : charge packet ≤ packet.2 := by
  obtain ⟨packet, size⟩ := packet
  cases packet <;> simp [charge]

theorem encodedSize_le_reserved {d : SesameEncoded} (coherent : Coherent d peer)
    (sending : peer.transmission = .sending packet size) (within : Within d packet size encodedSize)
    (counted : peer.state ≠ .sendingInit) :
    encodedSize + followUp d peer ≤ reserved d peer := by
  have phase := coherent.phase
  have small := followUp_le (d := d) (s := peer)
  simp only [InPhase, sending] at phase
  obtain ⟨_, size, carries⟩ := phase
  have notInit : ¬ ∃ window, packet = .init window := by
    rintro ⟨window, rfl⟩
    unfold Carries at carries
    split at carries <;> simp_all
  have bound := within.2.resolve_left notInit
  cases state : peer.state with
  | sendingInit => exact absurd state counted
  | operational => simp [state, Carries] at carries
  | sendingMessage requested =>
    simp only [reserved, sending, state, size, stateSize] at bound ⊢
    omega
  | sendingInitResponse | sendingReleaseWindow =>
    simp only [reserved, sending, state, size, stateSize, releaseWindowSize] at bound ⊢
    omega

theorem enough_afterSent {d : SesameEncoded} (coherent : Coherent d peer)
    (small : peer.otherAvailableWindow < 65536) (enough : Enough d peer)
    (sending : peer.transmission = .sending packet size) (within : Within d packet size encodedSize) :
    Enough d (peer.afterSent encodedSize) := by
  unfold Enough at enough ⊢
  have reserve : reserved d (peer.afterSent encodedSize) = followUp d peer := rfl
  rw [reserve]
  by_cases state : peer.state = .sendingInit
  · simpa [afterSent, reserved, sending, state] using enough
  · have fits := encodedSize_le_reserved coherent sending within state
    simp only [afterSent, if_neg state, sub16]
    omega

theorem afterSent_spends {d : SesameEncoded} (coherent : Coherent d peer)
    (small : peer.otherAvailableWindow < 65536) (enough : Enough d peer)
    (sending : peer.transmission = .sending packet size)
    (within : Within d packet size encodedSize) :
    (peer.afterSent encodedSize).otherAvailableWindow + charge (packet, encodedSize) ≤
      peer.otherAvailableWindow := by
  have phase := coherent.phase
  simp only [InPhase, sending] at phase
  by_cases state : peer.state = .sendingInit
  · have free : charge (packet, encodedSize) = 0 := by
      have carries := phase.2.2
      unfold Carries at carries
      split at carries <;> simp_all [charge]
    simp [afterSent, state, free]
  · have counted : charge (packet, encodedSize) ≤ encodedSize := charge_le _
    have fits := encodedSize_le_reserved coherent sending within state
    unfold Enough at enough
    simp only [afterSent, if_neg state, sub16]
    omega

theorem window_lt (accounted : Accounted d s) (p : Side) :
    (s.peer p).otherAvailableWindow ≤ ownBufferSize (d p.other) := by
  cases started : (s.peer p).initialized with
  | false => simp [((accounted.coherent p).fresh started).1]
  | true =>
    have within := accounted.within p started
    omega

/-- What is being sent stays within its window, as long as an announcement leaves
enough for it. -/
theorem enough_step (coherent : ∀ r, Coherent (d r) (s.peer r))
    (enough : ∀ r, Enough (d r) (s.peer r)) (small : ∀ r, (s.peer r).otherAvailableWindow < 65536)
    (atInit : ∀ p window encodedSize rest, a = .deliver p →
      s.link p.other = (.init window, encodedSize) :: rest →
        Enough (d p) ((s.peer p).afterInit window))
    (atInitResponse : ∀ p window encodedSize rest, a = .deliver p →
      s.link p.other = (.initResponse window, encodedSize) :: rest →
        Enough (d p) ((s.peer p).afterInitResponse window encodedSize))
    (noWrap : ∀ p window encodedSize rest, a = .deliver p →
      s.link p.other = (.releaseWindow window, encodedSize) :: rest →
        (s.peer p).initialized = true → (s.peer p).otherAvailableWindow + window < 65536)
    (outcome : Outcome d s a t) : ∀ r, Enough (d r) (t.peer r) := by
  have idle := fun r => (coherent r).idle
  cases outcome with
  | sendInit p size available state | sendInitResponse p size available state
  | beginMessage p size requested available state | sendReleaseWindow p size available state =>
    refine forall_setPeer enough ?_
    simpa [Enough, reserved, available, state, followUp] using enough p
  | writeMessage p contents size writing =>
    have phase := (coherent p).phase
    simp only [InPhase, writing] at phase
    refine forall_setPeer enough ?_
    simpa [Enough, reserved, writing, phase.2] using enough p
  | messageSent p packet size encodedSize sending within =>
    exact forall_setPeer enough (Enough.setNextState (fun _ => rfl)
      (enough_afterSent (coherent p) (small p) (enough p) sending within))
  | deliverInit p window encodedSize rest oldest released =>
    exact forall_setPeer enough
      (Enough.setNextState (idle p) (atInit p window encodedSize rest rfl oldest))
  | deliverInitResponse p window encodedSize rest oldest released =>
    exact forall_setPeer enough
      (Enough.setNextState (idle p) (atInitResponse p window encodedSize rest rfl oldest))
  | deliverReleaseWindow p window encodedSize rest oldest released started =>
    have fits := noWrap p window encodedSize rest rfl oldest started
    have grown : (s.peer p).otherAvailableWindow ≤
        ((s.peer p).otherAvailableWindow + window) % 65536 := by omega
    exact forall_setPeer enough (Enough.setNextState (idle p) ((enough p).trans grown))
  | deliverMessage p contents encodedSize rest oldest released started =>
    exact forall_setPeer enough (Enough.setNextState (idle p) (enough p))
  | drop p packet encodedSize rest oldest kind fresh => exact enough
  | readerReleased p encodedSize held | requestNow p size started small state =>
    exact forall_setPeer enough (Enough.setNextState (idle p) (enough p))
  | requestLater p size started small state => exact forall_setPeer enough (enough p)
  | reset p released =>
    exact forall_setPeer enough (by simp [Enough, reserved, followUp, SesameWindowed.construct])

theorem within_of (p : Side) (within : ∀ r, (s.peer r).initialized = true →
      (s.peer r).otherAvailableWindow + outstanding s r ≤ ownBufferSize (d r.other))
    (kept : t.peer p.other = s.peer p.other)
    (asSender : (t.peer p).initialized = true →
      (t.peer p).otherAvailableWindow + outstanding t p ≤ ownBufferSize (d p.other))
    (asReceiver : outstanding t p.other ≤ outstanding s p.other) :
    ∀ r, (t.peer r).initialized = true →
      (t.peer r).otherAvailableWindow + outstanding t r ≤ ownBufferSize (d r.other) := by
  intro r started
  rcases Side.eq_or_other p r with rfl | rfl
  · exact asSender started
  · rw [kept] at started ⊢
    have before := within p.other started
    omega

theorem within_setPeer
    (within : ∀ r, (s.peer r).initialized = true →
      (s.peer r).otherAvailableWindow + outstanding s r ≤ ownBufferSize (d r.other))
    (started : peer.initialized = (s.peer p).initialized)
    (window : peer.otherAvailableWindow = (s.peer p).otherAvailableWindow)
    (less : retained peer ≤ retained (s.peer p)) :
    ∀ r, ((s.setPeer p peer).peer r).initialized = true →
      ((s.setPeer p peer).peer r).otherAvailableWindow + outstanding (s.setPeer p peer) r ≤
        ownBufferSize (d r.other) := by
  refine within_of p within (setPeer_peer_other ..) (fun active => ?_) ?_
  · rw [setPeer_peer, started] at active
    simpa [outstanding, window] using within p active
  · simp only [outstanding, Side.other_other, setPeer_peer, setPeer_link, started]
    omega

theorem within_deliver (p : Side) (peer : SesameWindowed β) (rest : List (Packet β × Nat))
    (within : ∀ r, (s.peer r).initialized = true →
      (s.peer r).otherAvailableWindow + outstanding s r ≤ ownBufferSize (d r.other))
    (asSender : peer.initialized = true → peer.otherAvailableWindow +
        (charges (expected (s.peer p.other).initialized (s.link p)) +
          retained (s.peer p.other) + grants rest) ≤ ownBufferSize (d p.other))
    (asReceiver : charges (expected peer.initialized rest) + retained peer ≤
      charges (expected (s.peer p).initialized (s.link p.other)) + retained (s.peer p)) :
    ∀ r, (((s.setPeer p peer).setLink p.other rest).peer r).initialized = true →
      (((s.setPeer p peer).setLink p.other rest).peer r).otherAvailableWindow +
        outstanding ((s.setPeer p peer).setLink p.other rest) r ≤
          ownBufferSize (d r.other) := by
  refine within_of p within (by simp) (fun active => ?_) ?_
  · simpa [outstanding] using asSender (by simpa using active)
  · simp only [outstanding, Side.other_other, setLink_peer, setPeer_peer, setLink_link,
      setLink_other_link, setPeer_link]
    omega

theorem within_step (accounted : Accounted d s) (meets : NoneOutstanding s a)
    (outcome : Outcome d s a t) : ∀ r, (t.peer r).initialized = true →
      (t.peer r).otherAvailableWindow + outstanding t r ≤ ownBufferSize (d r.other) := by
  have within := accounted.within
  cases outcome with
  | sendInit p size available state =>
    exact within_setPeer within rfl rfl (by simp [retained, heldSize, pendingRelease])
  | sendInitResponse p size available state =>
    refine within_setPeer within rfl rfl ?_
    simp only [retained, heldSize, pendingRelease]
    omega
  | beginMessage p size requested available state | sendReleaseWindow p size available state
  | writeMessage p contents size writing =>
    exact within_setPeer within rfl rfl (by simp [retained, heldSize, pendingRelease])
  | messageSent p packet size encodedSize sending sized =>
    refine within_of p within (by simp) (fun active => ?_) ?_
    · have active : (s.peer p).initialized = true := by simpa using active
      have before := within p active
      have grown := charges_expected_concat_le (s.link p) (packet, encodedSize)
        (s.peer p.other).initialized
      have spent : ((s.peer p).afterSent encodedSize).otherAvailableWindow +
          charge (packet, encodedSize) ≤ (s.peer p).otherAvailableWindow := by
        have small := (window_lt accounted p).trans_lt (d p.other).bufferFits
        exact afterSent_spends (accounted.coherent p) small (accounted.enough p) sending sized
      simp only [outstanding, setLink_peer, setPeer_peer, setPeer_peer_other, setLink_link,
        setLink_link_other, setPeer_link, setNextState_otherAvailableWindow] at before ⊢
      omega
    · have less := retained_setNextState_le (d := d p) (s := (s.peer p).afterSent encodedSize)
      have kept : retained ((s.peer p).afterSent encodedSize) =
          heldSize (s.peer p) + (s.peer p).releasedWindow := rfl
      have given : pendingRelease (s.peer p) = grant (packet, encodedSize) := by
        cases packet <;> simp [pendingRelease, sending, grant]
      have before : retained (s.peer p) = heldSize (s.peer p) + (s.peer p).releasedWindow +
          grant (packet, encodedSize) := by rw [retained, given]
      simp only [outstanding, Side.other_other, setLink_peer, setPeer_peer, setPeer_link,
        setLink_link, setLink_link_other, setNextState_initialized, afterSent_initialized,
        grants_concat]
      omega
  | deliverInit p window encodedSize rest oldest released =>
    have own : window = ownBufferSize (d p.other) :=
      accounted.announced p.other _ (by rw [oldest]; exact .head _) window (.inl rfl)
    have nothing : outstanding s p = 0 := by
      simp only [NoneOutstanding, oldest] at meets
      exact meets rfl
    have less := retained_setNextState_le (d := d p) (s := (s.peer p).afterInit window)
    have kept : retained ((s.peer p).afterInit window) = retained (s.peer p) := rfl
    refine within_deliver p _ rest within (fun _ => ?_) ?_
    · simp only [outstanding, oldest, grants_cons, grant] at nothing
      simp only [setNextState_otherAvailableWindow, afterInit]
      omega
    · have announced : charges (expected (s.peer p).initialized (s.link p.other)) =
          charges rest := by
        rw [oldest]
        cases (s.peer p).initialized <;> simp [expected, announces, charge]
      have started : (setNextState (d p) ((s.peer p).afterInit window)).initialized = true := by
        simp [afterInit]
      rw [started, expected_true, announced]
      omega
  | deliverInitResponse p window encodedSize rest oldest released =>
    have own : window = ownBufferSize (d p.other) :=
      accounted.announced p.other _ (by rw [oldest]; exact .head _) window (.inr rfl)
    have nothing : outstanding s p = 0 := by
      simp only [NoneOutstanding, oldest] at meets
      exact meets rfl
    have less := retained_setNextState_le (d := d p)
      (s := (s.peer p).afterInitResponse window encodedSize)
    have kept : retained ((s.peer p).afterInitResponse window encodedSize) =
        heldSize (s.peer p) + encodedSize % 65536 + pendingRelease (s.peer p) := rfl
    refine within_deliver p _ rest within (fun _ => ?_) ?_
    · simp only [outstanding, oldest, grants_cons, grant] at nothing
      simp only [setNextState_otherAvailableWindow, afterInitResponse]
      omega
    · have announced : charges (expected (s.peer p).initialized (s.link p.other)) =
          encodedSize + charges rest := by
        rw [oldest]
        cases (s.peer p).initialized <;> simp [expected, announces, charge]
      have started : (setNextState (d p)
          ((s.peer p).afterInitResponse window encodedSize)).initialized = true := by
        simp [afterInitResponse]
      have before : retained (s.peer p) = heldSize (s.peer p) + (s.peer p).releasedWindow +
          pendingRelease (s.peer p) := rfl
      rw [started, expected_true, announced]
      omega
  | deliverReleaseWindow p window encodedSize rest oldest released started =>
    have before := within p started
    have less := retained_setNextState_le (d := d p)
      (s := (s.peer p).afterReleaseWindow window encodedSize)
    have kept : retained ((s.peer p).afterReleaseWindow window encodedSize) =
        heldSize (s.peer p) + ((s.peer p).releasedWindow + encodedSize) % 65536 +
          pendingRelease (s.peer p) := rfl
    refine within_deliver p _ rest within (fun _ => ?_) ?_
    · simp only [outstanding, oldest, grants_cons, grant] at before
      simp only [setNextState_otherAvailableWindow, afterReleaseWindow, add16]
      omega
    · have before : retained (s.peer p) = heldSize (s.peer p) + (s.peer p).releasedWindow +
          pendingRelease (s.peer p) := rfl
      simp only [setNextState_initialized, afterReleaseWindow_initialized, oldest, started,
        expected_true, charges_cons, charge]
      omega
  | deliverMessage p contents encodedSize rest oldest released started =>
    have before := within p started
    have less := retained_setNextState_le (d := d p) (s := (s.peer p).afterMessage encodedSize)
    have kept : retained ((s.peer p).afterMessage encodedSize) =
        encodedSize % 65536 + (s.peer p).releasedWindow + pendingRelease (s.peer p) := rfl
    refine within_deliver p _ rest within (fun _ => ?_) ?_
    · simp only [outstanding, oldest, grants_cons, grant] at before
      simp only [setNextState_otherAvailableWindow, afterMessage]
      omega
    · have before : retained (s.peer p) = (s.peer p).releasedWindow +
          pendingRelease (s.peer p) := by simp [retained, heldSize, released]
      simp only [setNextState_initialized, afterMessage_initialized, oldest, started,
        expected_true, charges_cons, charge]
      omega
  | drop p packet encodedSize rest oldest kind fresh =>
    have silent : announces (packet, encodedSize) = false := by
      rcases kind with ⟨_, rfl⟩ | ⟨_, rfl⟩ <;> rfl
    have dropped := within_deliver p (s.peer p) rest within
      (fun started => by simp [fresh] at started)
      (by rw [fresh, oldest, expected_false_of_not_announces _ _ silent])
    rwa [setPeer_self] at dropped
  | readerReleased p encodedSize held =>
    have less := retained_setNextState_le (d := d p) (s := (s.peer p).afterReader encodedSize)
    have kept : retained ((s.peer p).afterReader encodedSize) =
        0 + ((s.peer p).releasedWindow + encodedSize) % 65536 + pendingRelease (s.peer p) := rfl
    have before : retained (s.peer p) = encodedSize + (s.peer p).releasedWindow +
        pendingRelease (s.peer p) := by simp [retained, heldSize, held]
    refine within_setPeer within (by simp [afterReader]) (by simp [afterReader]) ?_
    omega
  | requestNow p size started small state =>
    exact within_setPeer within (by simp [afterRequest]) (by simp [afterRequest])
      retained_setNextState_le
  | requestLater p size started small state =>
    exact within_setPeer within rfl rfl le_rfl
  | reset p released =>
    refine within_of p within (by simp) (fun active => by
      simp [SesameWindowed.construct] at active) ?_
    have less : charges (expected false (s.link p.other)) ≤
        charges (expected (s.peer p).initialized (s.link p.other)) := by
      cases (s.peer p).initialized with
      | false => exact le_rfl
      | true => exact charges_expected_le _ _
    have empty : retained (SesameWindowed.construct : SesameWindowed β) = 0 := rfl
    have fresh : (SesameWindowed.construct : SesameWindowed β).initialized = false := rfl
    simp only [outstanding, Side.other_other, setPeer_peer, setPeer_link, fresh]
    omega

theorem release_fits (accounted : Accounted d s) {window : Nat} {rest : List (Packet β × Nat)}
    (oldest : s.link p.other = (.releaseWindow window, encodedSize) :: rest)
    (started : (s.peer p).initialized = true) :
    (s.peer p).otherAvailableWindow + window < 65536 := by
  have within := accounted.within p started
  have small := (d p.other).bufferFits
  simp only [outstanding, oldest, grants_cons, grant] at within
  unfold ownBufferSize at within
  omega

theorem enough_of_announced (accounted : Accounted d s)
    (room : ∀ r, 2 * releaseWindowSize (d r) ≤ ownBufferSize (d r.other)) {window : Nat}
    (own : window = ownBufferSize (d p.other)) (announced : peer.otherAvailableWindow = window)
    (transmission : peer.transmission = (s.peer p).transmission)
    (state : peer.state = (s.peer p).state) : Enough (d p) peer := by
  have before := (accounted.enough p).trans (window_lt accounted p)
  unfold Enough
  rw [announced]
  exact reserved_le_of_announced (own ▸ before) (own ▸ room p) transmission state

theorem accounted_step (room : ∀ r, 2 * releaseWindowSize (d r) ≤ ownBufferSize (d r.other))
    (accounted : Accounted d s) (meets : NoneOutstanding s a) (taken : step d s a = some t) :
    Accounted d t := by
  have outcome := step_outcome taken
  refine ⟨coherent_step accounted.coherent outcome,
    announced_step accounted.announced accounted.coherent outcome, ?_,
    within_step accounted meets outcome⟩
  refine enough_step accounted.coherent accounted.enough
    (fun r => (window_lt accounted r).trans_lt (d r.other).bufferFits) ?_ ?_ ?_ outcome
  · intro p window encodedSize rest _ oldest
    have own := accounted.announced p.other _ (by rw [oldest]; exact .head _) window (.inl rfl)
    exact enough_of_announced accounted room own rfl rfl rfl
  · intro p window encodedSize rest _ oldest
    have own := accounted.announced p.other _ (by rw [oldest]; exact .head _) window (.inr rfl)
    exact enough_of_announced accounted room own rfl rfl rfl
  · intro p window encodedSize rest _ oldest started
    exact release_fits accounted oldest started

/-- Window accounting in a state: what a sender may send and what it did not get back
stays within the buffer of the receiver, and so do the bytes that the receiver has not
released. -/
structure WindowsKept (d : Side → SesameEncoded) (s : Connection β) : Prop where
  accounted : ∀ p, (s.peer p).otherAvailableWindow + unacknowledged s p ≤
    ownBufferSize (d p.other)
  unreleased : ∀ p, heldSize (s.peer p) + (s.peer p).releasedWindow ≤ ownBufferSize (d p)

/-- Neither the subtraction in `MessageSent` nor the addition in `ReceivedMessage`
leaves the range of `otherAvailableWindow`. -/
def NoWrap (s : Connection β) : Action β → Prop
  | .messageSent p encodedSize =>
    (s.peer p).state ≠ .sendingInit → encodedSize ≤ (s.peer p).otherAvailableWindow
  | .deliver p => ∀ window encodedSize rest,
      s.link p.other = (.releaseWindow window, encodedSize) :: rest →
        (s.peer p).initialized = true → (s.peer p).otherAvailableWindow + window < 65536
  | _ => True

theorem Accounted.windowsKept (accounted : Accounted d s)
    (started : ∀ p, (s.peer p).initialized = true) : WindowsKept d s := by
  have whole : ∀ p, outstanding s p = unacknowledged s p := by
    intro p
    rw [outstanding, started p.other, expected_true, unacknowledged]
  refine ⟨fun p => ?_, fun p => ?_⟩
  · have within := accounted.within p (started p)
    rwa [whole] at within
  · have within := accounted.within p.other (started p.other)
    simp only [outstanding, Side.other_other, retained] at within
    omega

theorem Accounted.noWrap (accounted : Accounted d s) (taken : step d s a = some t) :
    NoWrap s a := by
  cases step_outcome taken with
  | messageSent p packet size encodedSize sending within =>
    intro counted
    have fits := encodedSize_le_reserved (accounted.coherent p) sending within counted
    exact ((Nat.le_add_right ..).trans fits).trans (accounted.enough p)
  | deliverReleaseWindow p window encodedSize rest oldest released started =>
    intro other size tail same started
    exact release_fits accounted same started
  | deliverInit p window encodedSize rest oldest
  | deliverInitResponse p window encodedSize rest oldest
  | deliverMessage p contents encodedSize rest oldest =>
    intro other size tail same
    simp [oldest] at same
  | drop p packet encodedSize rest oldest kind fresh =>
    intro other size tail same started
    cases fresh.symm.trans started
  | _ => exact trivial

open Runs in
/-- When no window is announced anew while bytes that it does not cover are outstanding,
the accounts are kept in every run. -/
theorem windows_kept (d : Side → SesameEncoded)
    (room : ∀ p, 2 * releaseWindowSize (d p) ≤ ownBufferSize (d p.other)) (s : Connection β)
    (reached : Reachable (step d) NoneOutstanding construct s) :
    ((∀ p, (s.peer p).initialized = true) → WindowsKept d s) ∧
      ∀ a t, step d s a = some t → NoWrap s a := by
  have accounted : Accounted d s := reached.invariant accounted_construct
    fun _ _ _ accounted meets taken => accounted_step room accounted meets taken
  exact ⟨accounted.windowsKept, fun _ _ taken => accounted.noWrap taken⟩

/-- Both ends encode with COBS, over a buffer of 40 bytes. -/
def cobsEnds : Side → SesameEncoded := fun _ =>
  { maxSendMessageSize := 40
    messageSize := fun size => size + size / 254 + 2
    bufferFits := by decide
    releaseFits := by decide }

/-- Both peers start, the init responses one after the other, and a message is sent,
held and released. -/
def startInTurns : List (Action Unit) :=
  [.sendMessageStreamAvailable .left, .messageSent .left 6, .deliver .right,
    .sendMessageStreamAvailable .right, .messageSent .right 6, .deliver .left,
    .sendMessageStreamAvailable .right, .messageSent .right 5, .deliver .left,
    .sendMessageStreamAvailable .left, .messageSent .left 5, .deliver .right,
    .requestSendMessage .left 8, .sendMessageStreamAvailable .left, .writeMessage .left (),
    .messageSent .left 11, .deliver .right, .readerReleased .right]

/-- Both peers start, and their init responses cross. -/
def startAtOnce : List (Action Unit) :=
  [.sendMessageStreamAvailable .left, .messageSent .left 6,
    .sendMessageStreamAvailable .right, .messageSent .right 6,
    .deliver .left, .deliver .right,
    .sendMessageStreamAvailable .left, .messageSent .left 5,
    .sendMessageStreamAvailable .right, .messageSent .right 5, .deliver .left]

def bothInitialized (s : Connection β) : Bool :=
  (s.peer .left).initialized && (s.peer .right).initialized

theorem initialized_of_both (both : bothInitialized s = true) (p : Side) :
    (s.peer p).initialized = true := by
  simp only [bothInitialized, Bool.and_eq_true] at both
  cases p with
  | left => exact both.1
  | right => exact both.2

open Runs in
theorem windows_kept_startInTurns : ∃ s : Connection Unit,
    Reachable (step cobsEnds) NoneOutstanding construct s ∧
      (s.peer .right).releasedWindow = 16 ∧ WindowsKept cobsEnds s := by
  obtain ⟨s, reached, shown⟩ := exists_of_executeIf NoneOutstanding (step cobsEnds) construct
    startInTurns (fun s => bothInitialized s && (s.peer .right).releasedWindow == 16)
    (by decide)
  rw [Bool.and_eq_true, beq_iff_eq] at shown
  exact ⟨s, reached, shown.2, (windows_kept cobsEnds (fun p => by cases p <;> decide) s reached).1
    (initialized_of_both shown.1)⟩

open Runs in
/-- The init response that crosses uses window, and the announcement it meets gives the
whole window again. -/
theorem windows_exceeded_startAtOnce : ¬ ∀ s : Connection Unit,
    Reachable (step cobsEnds) anyStep construct s →
      (∀ p, (s.peer p).initialized = true) → WindowsKept cobsEnds s := by
  intro always
  obtain ⟨s, reached, shown⟩ := exists_of_execute (step cobsEnds) construct startAtOnce
    (fun s => bothInitialized s &&
      decide (40 < (s.peer .left).otherAvailableWindow + unacknowledged s .left)) (by decide)
  rw [Bool.and_eq_true, decide_eq_true_eq] at shown
  have kept := (always s reached (initialized_of_both shown.1)).accounted .left
  have size : ownBufferSize (cobsEnds Side.left.other) = 40 := rfl
  omega

end Connection

end Sesame
