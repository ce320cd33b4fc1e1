import EmbeddedInfra.Sesame.WindowAccounting

/-! What each peer of the windowed layer keeps by itself in a run in which no step loses
window: the window that is left is enough for what is being sent, and a peer that is not
sending has nothing to send. -/

namespace Sesame

namespace SesameWindowed

variable {β : Type} {d : SesameEncoded} {s : SesameWindowed β} {usable : Nat}

/-- Nothing is being sent that would be charged to a window announced by an `init`
that arrives now, and be dropped by the peer that announced it. -/
def ready (s : SesameWindowed β) : Bool :=
  match s.transmission, s.state with
  | .idle, _ => true
  | _, .sendingInit => true
  | .requested _, .sendingInitResponse => true
  | _, _ => false

/-- The window that the next release packet gives back, or that the one on its way out
gives back. -/
def pledged (s : SesameWindowed β) : Nat :=
  match s.transmission with
  | .sending (.releaseWindow window) _ => window
  | _ => s.releasedWindow

/-- What is being sent fits the window, and leaves enough of it to go on. -/
structure Prepared (d : SesameEncoded) (usable : Nat) (s : SesameWindowed β) : Prop where
  small : s.otherAvailableWindow < 65536
  enough : Enough d s
  limit : s.initialized = true → s.maxUsableBufferSize = usable
  pending : ∀ size, s.requestedSendMessageSize = some size → size ≤ maxMessageSize d usable
  inProgress : ∀ size, s.sending = true → s.state = .sendingMessage size →
    ∃ message, message ≤ maxMessageSize d usable ∧ size = message + 1
  response : s.sendInitResponse = true → s.ready = true
  whole : s.sendInitResponse = true ∨ (s.sending = true ∧ s.state = .sendingInitResponse) →
    usable ≤ s.otherAvailableWindow
  worthwhile : s.sending = true → s.state = .sendingReleaseWindow →
    releaseWindowSize d < s.pledged ∨ 2 * releaseWindowSize d ≤ s.otherAvailableWindow

/-- A peer that is not sending has nothing to send. -/
structure Settled (d : SesameEncoded) (s : SesameWindowed β) : Prop where
  responds : s.sending = false → s.initialized = true → s.sendInitResponse = true →
    s.receivedMessageReader ≠ none
  waits : s.sending = false → s.initialized = true → s.sendInitResponse = false →
    s.state = .operational ∧ DoesNotFit d s ∧ ¬ ReleaseDue d s

theorem settled_of_sending (sending : s.sending = true) : Settled d s := by
  constructor
  · intro free
    cases sending.symm.trans free
  · intro free
    cases sending.symm.trans free

theorem settled_setNextState : Settled d (s.setNextState d) := by
  have outcome := setNextState_outcome d s
  generalize s.setNextState d = next at outcome
  cases outcome with
  | busy occupied =>
    rcases occupied with sending | fresh
    · exact settled_of_sending sending
    · constructor
      · intro _ started
        cases fresh.symm.trans started
      · intro _ started
        cases fresh.symm.trans started
  | readerHeld free started due held =>
    constructor
    · intro _ _ _
      exact held
    · intro _ _ noResponse
      cases due.symm.trans noResponse
  | initResponse | message | releaseWindow => exact settled_of_sending rfl
  | operational free started noResponse waits notDue =>
    constructor
    · intro _ _ due
      cases noResponse.symm.trans due
    · intro _ _ _
      exact ⟨rfl, waits, notDue⟩

theorem Prepared.setNextState (idle : s.sending = false → s.transmission = .idle)
    (prepared : Prepared d usable s) : Prepared d usable (s.setNextState d) := by
  have enough := Enough.setNextState idle prepared.enough
  have outcome := setNextState_outcome d s
  generalize s.setNextState d = next at outcome enough
  cases outcome with
  | busy | readerHeld => exact prepared
  | initResponse free started due =>
    exact { small := prepared.small, enough, limit := prepared.limit
            pending := prepared.pending
            inProgress := by
              intro size _ state
              cases state
            response := fun _ => rfl
            whole := fun _ => prepared.whole (.inl due)
            worthwhile := by
              intro _ state
              cases state }
  | message size free started noResponse pending fits =>
    exact { small := prepared.small, enough, limit := prepared.limit
            pending := prepared.pending
            inProgress := by
              rintro _ _ ⟨⟩
              exact ⟨size, prepared.pending size pending, rfl⟩
            response := fun due => by cases noResponse.symm.trans due
            whole := by
              rintro (due | ⟨_, state⟩)
              · cases noResponse.symm.trans due
              · cases state
            worthwhile := by
              intro _ state
              cases state }
  | releaseWindow free started noResponse waits due =>
    exact { small := prepared.small, enough, limit := prepared.limit
            pending := prepared.pending
            inProgress := by
              intro size _ state
              cases state
            response := fun due => by cases noResponse.symm.trans due
            whole := by
              rintro (due | ⟨_, state⟩)
              · cases noResponse.symm.trans due
              · cases state
            worthwhile := fun _ _ => .inl due.1 }
  | operational free started noResponse waits notDue =>
    exact { small := prepared.small, enough, limit := prepared.limit
            pending := prepared.pending
            inProgress := by
              intro size _ state
              cases state
            response := fun due => by cases noResponse.symm.trans due
            whole := by
              rintro (due | ⟨_, state⟩)
              · cases noResponse.symm.trans due
              · cases state
            worthwhile := by
              intro _ state
              cases state }

theorem reserved_le {bound : Nat} (room : 2 * releaseWindowSize d ≤ bound)
    (message : ∀ size, s.transmission ≠ .idle → s.state = .sendingMessage size →
      d.messageSize size + releaseWindowSize d ≤ bound) : reserved d s ≤ bound := by
  have small := followUp_le (d := d) (s := s)
  unfold reserved
  split
  next idle => omega
  next state _ => omega
  next => omega
  next _ _ size state busy => exact message size busy state
  next => omega

theorem reserved_le_of_ready (free : s.ready = true) : reserved d s ≤ releaseWindowSize d := by
  have small := followUp_le (d := d) (s := s)
  unfold ready at free
  unfold reserved
  split at free <;> simp_all

theorem Prepared.afterInit (prepared : Prepared d usable s) (bounded : usable < 65536)
    (room : 2 * releaseWindowSize d ≤ usable) (free : s.ready = true) :
    Prepared d usable (s.afterInit usable) where
  small := bounded
  enough := by
    have little : reserved d (s.afterInit usable) ≤ releaseWindowSize d :=
      reserved_le_of_ready free
    change reserved d (s.afterInit usable) ≤ usable
    omega
  limit _ := rfl
  pending := prepared.pending
  inProgress := prepared.inProgress
  response _ := free
  whole _ := le_rfl
  worthwhile _ _ := .inr room

theorem Prepared.afterInitResponse (prepared : Prepared d usable s) (bounded : usable < 65536)
    (room : 2 * releaseWindowSize d ≤ usable)
    (largest : ∀ size ≤ maxMessageSize d usable,
      d.messageSize (size + 1) + 2 * releaseWindowSize d ≤ usable)
    (coherent : Coherent d s) (encodedSize : Nat) :
    Prepared d usable (s.afterInitResponse usable encodedSize) where
  small := bounded
  enough := by
    change reserved d (s.afterInitResponse usable encodedSize) ≤ usable
    refine reserved_le room fun size busy state => ?_
    obtain ⟨message, within, rfl⟩ := prepared.inProgress size (coherent.sending busy) state
    have fits := largest message within
    omega
  limit _ := rfl
  pending := prepared.pending
  inProgress := prepared.inProgress
  response := prepared.response
  whole _ := le_rfl
  worthwhile _ _ := .inr room

theorem Prepared.afterSent {packet : Packet β} {size encodedSize : Nat}
    (prepared : Prepared d usable s) (coherent : Coherent d s)
    (sending : s.transmission = .sending packet size)
    (within : Within d packet size encodedSize) :
    Prepared d usable (s.afterSent encodedSize) where
  small := by
    have spent := Connection.afterSent_spends coherent prepared.small prepared.enough sending within
    have small := prepared.small
    omega
  enough := Connection.enough_afterSent coherent prepared.small prepared.enough sending within
  limit := prepared.limit
  pending := prepared.pending
  inProgress := by
    intro size busy
    cases busy
  response _ := rfl
  whole := by
    rintro (due | ⟨busy, _⟩)
    · have free := prepared.response due
      have window := prepared.whole (.inl due)
      have state : s.state = .sendingInit := by
        unfold ready at free
        split at free <;> simp_all
      simpa [SesameWindowed.afterSent, state] using window
    · cases busy
  worthwhile := by
    intro busy
    cases busy

theorem prepared_construct : Prepared d usable (construct : SesameWindowed β) where
  small := by simp [construct]
  enough := by simp [Enough, reserved, followUp, construct]
  limit started := by simp [construct] at started
  pending _ requested := by simp [construct] at requested
  inProgress _ _ state := by simp [construct] at state
  response due := by simp [construct] at due
  whole due := by simp [construct] at due
  worthwhile _ state := by simp [construct] at state

end SesameWindowed

open SesameWindowed

namespace Connection

variable {β : Type} {d : Side → SesameEncoded} {s t : Connection β}

/-- What the two peers have in common, and how large their buffers are at least. -/
structure Roomy (d : Side → SesameEncoded) : Prop where
  sameEncoding : ∀ p, (d p.other).messageSize = (d p).messageSize
  room : ∀ p, 2 * releaseWindowSize (d p) ≤ ownBufferSize (d p.other)
  largest : ∀ p, ∀ size ≤ maxMessageSize (d p) (ownBufferSize (d p.other)),
    (d p).messageSize (size + 1) + 2 * releaseWindowSize (d p) ≤ ownBufferSize (d p.other)

/-- No step loses window: an `init` arrives only at a peer that is ready for it, and no
16-bit counter wraps. -/
def creditKept (s : Connection β) : Action β → Bool
  | .deliver p =>
    match s.link p.other with
    | (.init _, _) :: _ => (s.peer p).ready
    | (.releaseWindow window, encodedSize) :: _ =>
      !(s.peer p).initialized ||
        decide ((s.peer p).releasedWindow + encodedSize < 65536 ∧
          (s.peer p).otherAvailableWindow + window < 65536)
    | _ => true
  | .readerReleased p => decide ((s.peer p).releasedWindow + heldSize (s.peer p) < 65536)
  | _ => true

/-- What holds of each peer, and of the packets in flight, by themselves. -/
structure Steady (d : Side → SesameEncoded) (s : Connection β) : Prop where
  coherent : ∀ r, Coherent (d r) (s.peer r)
  announced : Announced d s
  sized : ∀ r, ∀ packet ∈ s.link r, charge packet < 65536
  prepared : ∀ r, Prepared (d r) (ownBufferSize (d r.other)) (s.peer r)
  settled : ∀ r, Settled (d r) (s.peer r)

theorem steady_construct : Steady d (construct : Connection β) where
  coherent _ := coherent_construct
  announced := by simp [Announced, construct]
  sized := by simp [construct]
  prepared _ := prepared_construct
  settled _ := settled_of_sending rfl

theorem settled_step {a : Action β} (coherent : ∀ r, Coherent (d r) (s.peer r))
    (settled : ∀ r, Settled (d r) (s.peer r)) (outcome : Outcome d s a t) :
    ∀ r, Settled (d r) (t.peer r) := by
  have busy : ∀ p size, (s.peer p).transmission = .requested size ∨
      (s.peer p).transmission = .writing size → (s.peer p).sending = true := by
    intro p size transmission
    apply (coherent p).sending
    rcases transmission with same | same <;> simp [same]
  cases outcome with
  | sendInit p size available | sendInitResponse p size available
  | beginMessage p size requested available | sendReleaseWindow p size available =>
    exact forall_setPeer settled (settled_of_sending (busy p size (.inl available)))
  | writeMessage p contents size writing =>
    exact forall_setPeer settled (settled_of_sending (busy p size (.inr writing)))
  | drop p packet encodedSize rest oldest kind fresh => exact settled
  | requestLater p size started small state =>
    refine forall_setPeer settled ⟨(settled p).responds, ?_⟩
    intro free started noResponse
    exact absurd ((settled p).waits free started noResponse).1 state
  | reset p released => exact forall_setPeer settled (settled_of_sending rfl)
  | messageSent p | deliverInit p | deliverInitResponse p | deliverReleaseWindow p
  | deliverMessage p | readerReleased p | requestNow p =>
    exact forall_setPeer settled settled_setNextState

theorem prepared_step {a : Action β} (roomy : Roomy d) (steady : Steady d s)
    (kept : creditKept s a = true) (outcome : Outcome d s a t) :
    ∀ r, Prepared (d r) (ownBufferSize (d r.other)) (t.peer r) := by
  have coherent := steady.coherent
  have prepared := steady.prepared
  have idle := fun r => (coherent r).idle
  have bounded : ∀ r : Side, ownBufferSize (d r) < 65536 := fun r => (d r).bufferFits
  cases outcome with
  | sendInit p size available state =>
    have before := prepared p
    refine forall_setPeer prepared { before with enough := ?_, response := ?_, worthwhile := ?_ }
    · simpa [Enough, reserved, available, state, followUp] using before.enough
    · intro _
      simp [ready, state]
    · intro _ releasing
      cases state.symm.trans releasing
  | sendInitResponse p size available state =>
    have before := prepared p
    refine forall_setPeer prepared { before with
      enough := ?_, response := ?_, whole := ?_, worthwhile := ?_ }
    · simpa [Enough, reserved, available, state, followUp] using before.enough
    · intro due
      cases due
    · intro _
      exact before.whole (.inr ⟨(coherent p).sending (by simp [available]), state⟩)
    · intro _ releasing
      cases state.symm.trans releasing
  | beginMessage p size requested available state =>
    have before := prepared p
    refine forall_setPeer prepared { before with
      enough := ?_, pending := ?_, response := ?_, worthwhile := ?_ }
    · simpa [Enough, reserved, available, state, followUp] using before.enough
    · intro _ pending
      cases pending
    · intro due
      have free := before.response due
      simp [ready, available, state] at free
    · intro _ releasing
      cases state.symm.trans releasing
  | sendReleaseWindow p size available state =>
    have before := prepared p
    refine forall_setPeer prepared { before with
      enough := ?_, response := ?_, worthwhile := ?_ }
    · simpa [Enough, reserved, available, state, followUp] using before.enough
    · intro due
      have free := before.response due
      simp [ready, available, state] at free
    · intro sending releasing
      simpa [pledged, available] using before.worthwhile sending releasing
  | writeMessage p contents size writing =>
    have before := prepared p
    have phase := (coherent p).phase
    simp only [InPhase, writing] at phase
    refine forall_setPeer prepared { before with
      enough := ?_, response := ?_, worthwhile := ?_ }
    · simpa [Enough, reserved, writing, phase.2] using before.enough
    · intro due
      have free := before.response due
      simp [ready, writing, phase.2] at free
    · intro _ releasing
      cases phase.2.symm.trans releasing
  | messageSent p packet size encodedSize sending within =>
    exact forall_setPeer prepared (Prepared.setNextState (fun _ => rfl)
      ((prepared p).afterSent (coherent p) sending within))
  | deliverInit p window encodedSize rest oldest released =>
    obtain rfl : window = ownBufferSize (d p.other) :=
      steady.announced p.other _ (by rw [oldest]; exact .head _) window (.inl rfl)
    have free : (s.peer p).ready = true := by simpa [creditKept, oldest] using kept
    exact forall_setPeer prepared (Prepared.setNextState (idle p)
      ((prepared p).afterInit (bounded p.other) (roomy.room p) free))
  | deliverInitResponse p window encodedSize rest oldest released =>
    obtain rfl : window = ownBufferSize (d p.other) :=
      steady.announced p.other _ (by rw [oldest]; exact .head _) window (.inr rfl)
    exact forall_setPeer prepared (Prepared.setNextState (idle p)
      ((prepared p).afterInitResponse (bounded p.other) (roomy.room p) (roomy.largest p)
        (coherent p) encodedSize))
  | deliverReleaseWindow p window encodedSize rest oldest released started =>
    have before := prepared p
    have fits : (s.peer p).releasedWindow + encodedSize < 65536 ∧
        (s.peer p).otherAvailableWindow + window < 65536 := by
      simpa [creditKept, oldest, started] using kept
    have grown : (s.peer p).otherAvailableWindow ≤
        add16 (s.peer p).otherAvailableWindow window := by
      unfold add16
      omega
    refine forall_setPeer prepared (Prepared.setNextState (idle p) { before with
      small := ?_, enough := ?_, whole := ?_, worthwhile := ?_ })
    · simp only [afterReleaseWindow, add16]
      omega
    · exact before.enough.trans grown
    · intro due
      exact (before.whole due).trans grown
    · intro sending releasing
      have worthwhile := before.worthwhile sending releasing
      have more : (s.peer p).pledged ≤
          ((s.peer p).afterReleaseWindow window encodedSize).pledged := by
        simp only [pledged, afterReleaseWindow, add16]
        split <;> omega
      rcases worthwhile with large | whole
      · exact .inl (large.trans_le more)
      · exact .inr (whole.trans grown)
  | deliverMessage p contents encodedSize rest oldest released started =>
    exact forall_setPeer prepared (Prepared.setNextState (idle p) { prepared p with })
  | drop p packet encodedSize rest oldest kind fresh => exact prepared
  | readerReleased p encodedSize held =>
    have before := prepared p
    have fits : (s.peer p).releasedWindow + encodedSize < 65536 := by
      simpa [creditKept, heldSize, held] using kept
    refine forall_setPeer prepared (Prepared.setNextState (idle p) { before with
      worthwhile := ?_ })
    intro sending releasing
    have more : (s.peer p).pledged ≤ ((s.peer p).afterReader encodedSize).pledged := by
      simp only [pledged, afterReader, add16]
      split <;> omega
    rcases before.worthwhile sending releasing with large | whole
    · exact .inl (large.trans_le more)
    · exact .inr whole
  | requestNow p size started small state =>
    have before := prepared p
    refine forall_setPeer prepared (Prepared.setNextState (idle p) { before with
      pending := ?_ })
    rintro _ ⟨⟩
    rwa [maxSendMessageSize, before.limit started] at small
  | requestLater p size started small state =>
    have before := prepared p
    refine forall_setPeer prepared { before with pending := ?_ }
    rintro _ ⟨⟩
    rwa [maxSendMessageSize, before.limit started] at small
  | reset p released => exact forall_setPeer prepared prepared_construct

theorem sized_step {a : Action β} (steady : Steady d s) (outcome : Outcome d s a t) :
    ∀ r, ∀ packet ∈ t.link r, charge packet < 65536 := by
  have sized := steady.sized
  have tail : ∀ (p : Side) (peer : SesameWindowed β) (packet : Packet β × Nat) rest,
      s.link p.other = packet :: rest → ∀ r,
        ∀ packet ∈ ((s.setPeer p peer).setLink p.other rest).link r, charge packet < 65536 := by
    intro p peer packet rest oldest r other member
    rcases Side.eq_or_other p r with rfl | rfl
    · rw [setLink_other_link] at member
      exact sized r other member
    · rw [setLink_link] at member
      exact sized p.other other (by rw [oldest]; exact .tail _ member)
  cases outcome with
  | messageSent p packet size encodedSize sending within =>
    intro r other member
    rcases Side.eq_or_other p r with rfl | rfl
    · rw [setLink_link, List.mem_append, List.mem_singleton] at member
      rcases member with old | rfl
      · exact sized r other old
      · have prepared := steady.prepared r
        have spent := afterSent_spends (steady.coherent r) prepared.small
          prepared.enough sending within
        have small := prepared.small
        omega
    · rw [setLink_link_other] at member
      exact sized p.other other member
  | deliverInit p _ _ rest oldest | deliverInitResponse p _ _ rest oldest
  | deliverReleaseWindow p _ _ rest oldest | deliverMessage p _ _ rest oldest =>
    exact tail p _ _ rest oldest
  | drop p packet encodedSize rest oldest kind fresh =>
    have kept := tail p (s.peer p) _ rest oldest
    rwa [setPeer_self] at kept
  | _ => exact sized

theorem steady_step {a : Action β} (roomy : Roomy d) (steady : Steady d s)
    (kept : creditKept s a = true) (outcome : Outcome d s a t) : Steady d t where
  coherent := coherent_step steady.coherent outcome
  announced := announced_step steady.announced steady.coherent outcome
  sized := sized_step steady outcome
  prepared := prepared_step roomy steady kept outcome
  settled := settled_step steady.coherent steady.settled outcome

end Connection

end Sesame
