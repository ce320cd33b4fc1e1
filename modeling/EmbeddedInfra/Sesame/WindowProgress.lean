import EmbeddedInfra.Sesame.WindowCredit

/-! Progress of the windowed layer: in a quiescent state no message is left waiting for
window. -/

namespace Sesame

open SesameWindowed

namespace Connection

variable {β : Type} {d : Side → SesameEncoded} {s t : Connection β}

/-- `r` has, or gets back, the window for a release packet. -/
def Open (d : Side → SesameEncoded) (s : Connection β) (r : Side) : Prop :=
  releaseWindowSize (d r) ≤ (s.peer r).otherAvailableWindow + returning s r

variable {p : Side} {peer : SesameWindowed β} {a : Action β}

theorem open_setPeer (before : ∃ r, Open d s r)
    (window : peer.otherAvailableWindow = (s.peer p).otherAvailableWindow)
    (pending : pendingRelease (s.peer p) ≤ pendingRelease peer) :
    ∃ r, Open d (s.setPeer p peer) r := by
  obtain ⟨r, opened⟩ := before
  refine ⟨r, ?_⟩
  rcases Side.eq_or_other p r with rfl | rfl
  · simpa only [Open, returning, setPeer_peer, setPeer_peer_other, setPeer_link, window]
      using opened
  · simp only [Open, returning, Side.other_other, setPeer_peer, setPeer_peer_other,
      setPeer_link] at opened ⊢
    omega

theorem open_deliver {packet : Packet β × Nat} {rest : List (Packet β × Nat)}
    (before : ∃ r, Open d s r) (oldest : s.link p.other = packet :: rest)
    (window : (s.peer p).otherAvailableWindow + grant packet = peer.otherAvailableWindow)
    (pending : pendingRelease peer = pendingRelease (s.peer p)) :
    ∃ r, Open d ((s.setPeer p peer).setLink p.other rest) r := by
  obtain ⟨r, opened⟩ := before
  refine ⟨r, ?_⟩
  rcases Side.eq_or_other p r with rfl | rfl
  · simp only [Open, returning, oldest, grants_cons] at opened
    simp only [Open, returning, setLink_peer, setPeer_peer, setPeer_peer_other, setLink_link]
    omega
  · simpa only [Open, returning, Side.other_other, setLink_peer, setPeer_peer,
      setPeer_peer_other, setLink_other_link, setPeer_link, pending] using opened

theorem open_messageSent {packet : Packet β} {size encodedSize : Nat} (roomy : Roomy d)
    (coherent : Coherent (d p) (s.peer p))
    (prepared : Prepared (d p) (ownBufferSize (d p.other)) (s.peer p)) (before : ∃ r, Open d s r)
    (sending : (s.peer p).transmission = .sending packet size)
    (within : Within (d p) packet size encodedSize) :
    ∃ r, Open d ((s.setPeer p (setNextState (d p) ((s.peer p).afterSent encodedSize))).setLink
      p (s.link p ++ [(packet, encodedSize)])) r := by
  have phase := coherent.phase
  have enough := prepared.enough
  have room := roomy.room p
  have small := prepared.small
  simp only [InPhase, sending] at phase
  obtain ⟨busy, sized, carries⟩ := phase
  -- the window is only used up by a release packet, and then the other peer gets it back
  have used : ((s.peer p).afterSent encodedSize).otherAvailableWindow =
        (s.peer p).otherAvailableWindow ∨
      releaseWindowSize (d p) ≤ ((s.peer p).afterSent encodedSize).otherAvailableWindow ∨
      releaseWindowSize (d p) ≤ grant (packet, encodedSize) := by
    unfold Enough at enough
    cases state : (s.peer p).state with
    | sendingInit => exact .inl (by simp [afterSent, state])
    | operational => cases packet <;> simp [state, Carries] at carries
    | sendingInitResponse =>
      have whole := prepared.whole (.inr ⟨busy, state⟩)
      have bound : encodedSize ≤ releaseWindowSize (d p) := by
        rw [state] at sized carries
        subst sized
        exact within.2.resolve_left (by rintro ⟨_, rfl⟩; exact carries)
      right; left
      simp only [afterSent, state, sub16, if_false, reduceCtorEq]
      omega
    | sendingMessage requested =>
      have bound : encodedSize ≤ (d p).messageSize requested := by
        rw [state] at sized carries
        subst sized
        exact within.2.resolve_left (by rintro ⟨_, rfl⟩; exact carries)
      simp only [reserved, sending, state] at enough
      right; left
      simp only [afterSent, state, sub16, if_false, reduceCtorEq]
      omega
    | sendingReleaseWindow =>
      obtain ⟨given, rfl⟩ : ∃ window, packet = .releaseWindow window := by
        cases packet <;> simp_all [Carries]
      have bound : encodedSize ≤ releaseWindowSize (d p) := by
        rw [state] at sized
        subst sized
        exact within.2.resolve_left (by rintro ⟨_, ⟨⟩⟩)
      rcases prepared.worthwhile busy state with worth | ample
      · right; right
        simp only [pledged, sending] at worth
        exact worth.le
      · right; left
        simp only [afterSent, state, sub16, if_false, reduceCtorEq]
        omega
  have given : pendingRelease (s.peer p) = grant (packet, encodedSize) := by
    cases packet <;> simp [pendingRelease, sending, grant]
  have cleared : pendingRelease (setNextState (d p) ((s.peer p).afterSent encodedSize)) = 0 :=
    pendingRelease_setNextState _ _ fun _ => rfl
  have same : releaseWindowSize (d p.other) = releaseWindowSize (d p) := by
    simp only [releaseWindowSize, roomy.sameEncoding]
  obtain ⟨r, opened⟩ := before
  rcases Side.eq_or_other p r with rfl | rfl
  · rcases used with kept | left | back
    · refine ⟨r, ?_⟩
      simpa only [Open, returning, setLink_peer, setPeer_peer, setPeer_peer_other,
        setLink_link_other, setPeer_link, setNextState_otherAvailableWindow, kept] using opened
    · refine ⟨r, ?_⟩
      simp only [Open, setLink_peer, setPeer_peer, setNextState_otherAvailableWindow]
      omega
    · refine ⟨r.other, ?_⟩
      simp only [Open, returning, Side.other_other, setLink_link, grants_concat, same]
      omega
  · refine ⟨p.other, ?_⟩
    simp only [Open, returning, Side.other_other, given] at opened
    simp only [Open, returning, Side.other_other, setLink_peer, setPeer_peer,
      setPeer_peer_other, setLink_link, grants_concat, cleared]
    omega

theorem open_step (roomy : Roomy d) (steady : Steady d s)
    (either : (∀ r, (s.peer r).initialized = true) → ∃ r, Open d s r) (kept : creditKept s a = true)
    (outcome : Outcome d s a t) (started : ∀ r, (t.peer r).initialized = true) :
    ∃ r, Open d t r := by
  have coherent := steady.coherent
  have idle := fun r => (coherent r).idle
  have startedBefore : ∀ p (peer : SesameWindowed β),
      (∀ r, ((s.setPeer p peer).peer r).initialized = true) →
        peer.initialized = (s.peer p).initialized → ∀ r, (s.peer r).initialized = true := by
    intro p peer active same
    refine Side.forall_of p ?_ ?_
    · simpa [same] using active p
    · simpa using active p.other
  cases outcome with
  | sendInit p size available state | sendInitResponse p size available state
  | beginMessage p size requested available state | sendReleaseWindow p size available state =>
    exact open_setPeer (either (startedBefore p _ started rfl)) rfl
      (by simp [pendingRelease, available])
  | writeMessage p contents size writing =>
    exact open_setPeer (either (startedBefore p _ started rfl)) rfl
      (by simp [pendingRelease, writing])
  | messageSent p packet size encodedSize sending within =>
    have active := startedBefore p _ started (by simp)
    exact open_messageSent roomy (coherent p) (steady.prepared p) (either active)
      sending within
  | deliverInit p window encodedSize rest oldest released =>
    obtain rfl : window = ownBufferSize (d p.other) :=
      steady.announced p.other _ (by rw [oldest]; exact .head _) window (.inl rfl)
    have room := roomy.room p
    refine ⟨p, ?_⟩
    simp only [Open, setLink_peer, setPeer_peer, setNextState_otherAvailableWindow, afterInit]
    omega
  | deliverInitResponse p window encodedSize rest oldest released =>
    obtain rfl : window = ownBufferSize (d p.other) :=
      steady.announced p.other _ (by rw [oldest]; exact .head _) window (.inr rfl)
    have room := roomy.room p
    refine ⟨p, ?_⟩
    simp only [Open, setLink_peer, setPeer_peer, setNextState_otherAvailableWindow,
      afterInitResponse]
    omega
  | deliverReleaseWindow p window encodedSize rest oldest released active =>
    have fits : (s.peer p).releasedWindow + encodedSize < 65536 ∧
        (s.peer p).otherAvailableWindow + window < 65536 := by
      simpa [creditKept, oldest, active] using kept
    exact open_deliver (either (startedBefore p _ started (by simp))) oldest
      (by simp [grant, afterReleaseWindow, add16, Nat.mod_eq_of_lt fits.2])
      (pendingRelease_setNextState (d p)
        ((s.peer p).afterReleaseWindow window encodedSize) (idle p))
  | deliverMessage p contents encodedSize rest oldest released active =>
    exact open_deliver (either (startedBefore p _ started (by simp))) oldest
      (by simp [grant, afterMessage])
      (pendingRelease_setNextState (d p) ((s.peer p).afterMessage encodedSize) (idle p))
  | drop p packet encodedSize rest oldest kind fresh =>
    cases fresh.symm.trans (started p)
  | readerReleased p encodedSize held =>
    exact open_setPeer (either (startedBefore p _ started (by simp [afterReader])))
      (by simp [afterReader])
      (pendingRelease_setNextState (d p) ((s.peer p).afterReader encodedSize) (idle p)).ge
  | requestNow p size active small state =>
    exact open_setPeer (either (startedBefore p _ started (by simp [afterRequest])))
      (by simp [afterRequest])
      (pendingRelease_setNextState (d p) ((s.peer p).afterRequest size) (idle p)).ge
  | requestLater p size active small state =>
    exact open_setPeer (either (startedBefore p _ started rfl)) rfl le_rfl
  | reset p released =>
    have active := started p
    rw [setPeer_peer] at active
    cases active

structure Progressing (d : Side → SesameEncoded) (s : Connection β) : Prop extends
    Steady d s where
  promised : ∀ r, Promised s r
  credited : ∀ r, Credited d s r
  either : (∀ r, (s.peer r).initialized = true) → ∃ r, Open d s r

theorem progressing_construct : Progressing d (construct : Connection β) where
  toSteady := steady_construct
  promised _ _ := .inr (.inl (.inr ⟨rfl, .inl rfl⟩))
  credited _ started := by cases started
  either started := by cases started .left

theorem progressing_step (roomy : Roomy d) (progressing : Progressing d s)
    (kept : creditKept s a = true) (taken : step d s a = some t) : Progressing d t where
  toSteady := steady_step roomy progressing.toSteady kept (step_outcome taken)
  promised := promised_step progressing.coherent progressing.promised (step_outcome taken)
  credited := credited_step progressing.toSteady progressing.promised progressing.credited kept
    (step_outcome taken)
  either := open_step roomy progressing.toSteady progressing.either kept (step_outcome taken)

/-- Nothing is in flight or being sent, no message is held, and both peers are
initialized. -/
structure Quiescent (s : Connection β) : Prop where
  nothingInFlight : ∀ p, s.link p = []
  nothingBeingSent : ∀ p, (s.peer p).transmission = .idle
  nothingHeld : ∀ p, (s.peer p).receivedMessageReader = none
  initialized : ∀ p, (s.peer p).initialized = true

/-- In a quiescent state what the window of a peer lacks is waiting to be released by the
other one. -/
theorem Progressing.balance (progressing : Progressing d s) (quiescent : Quiescent s) (p : Side) :
    ownBufferSize (d p.other) ≤
      (s.peer p).otherAvailableWindow + (s.peer p.other).releasedWindow := by
  have silent : ¬ Coming s p := by
    rintro (⟨sending, _⟩ | flying)
    · have phase := (progressing.coherent p.other).phase
      simp only [InPhase, quiescent.nothingBeingSent p.other] at phase
      cases phase.symm.trans sending
    · simp [quiescent.nothingInFlight] at flying
  have known := progressing.credited p (quiescent.initialized p) silent
  simpa [owed, returning, quiescent.nothingInFlight, heldSize, quiescent.nothingHeld,
    pendingRelease, quiescent.nothingBeingSent] using known

theorem Progressing.waiting (progressing : Progressing d s) (quiescent : Quiescent s) (p : Side) :
    DoesNotFit (d p) (s.peer p) ∧ ¬ ReleaseDue (d p) (s.peer p) := by
  have free : (s.peer p).sending = false := by
    have phase := (progressing.coherent p).phase
    simpa only [InPhase, quiescent.nothingBeingSent p] using phase
  have started := quiescent.initialized p
  have noResponse : (s.peer p).sendInitResponse = false := by
    rw [Bool.eq_false_iff]
    intro due
    exact (progressing.settled p).responds free started due (quiescent.nothingHeld p)
  exact ((progressing.settled p).waits free started noResponse).2

open Runs in
/-- When every init arrives at a peer that is ready for it, no message within the limit is
left waiting in a quiescent state. -/
theorem never_stuck (d : Side → SesameEncoded) (roomy : Roomy d) (s : Connection β)
    (reached : Reachable (step d) (fun s a => creditKept s a = true) construct s)
    (quiescent : Quiescent s) (p : Side) :
    ¬ ∃ size, (s.peer p).requestedSendMessageSize = some size ∧
      size ≤ (s.peer p).maxSendMessageSize (d p) := by
  rintro ⟨size, pending, small⟩
  have progressing : Progressing d s := reached.invariant progressing_construct
    fun _ _ _ progressing kept taken => progressing_step roomy progressing kept taken
  have limit := (progressing.prepared p).pending size pending
  have fits := roomy.largest p size limit
  have tooLarge := (progressing.waiting quiescent p).1 size pending
  have notDue := (progressing.waiting quiescent p).2
  have notDueThere := (progressing.waiting quiescent p.other).2
  have here := progressing.balance quiescent p
  have there := progressing.balance quiescent p.other
  have room := roomy.room p.other
  have same : releaseWindowSize (d p.other) = releaseWindowSize (d p) := by
    simp only [releaseWindowSize, roomy.sameEncoding]
  unfold ReleaseDue at notDue notDueThere
  rw [Side.other_other] at there room
  -- the other peer holds back a release, so it has no window for it, and neither has this one
  have otherEmpty : (s.peer p.other).otherAvailableWindow < releaseWindowSize (d p) := by
    rw [same] at notDueThere
    omega
  have empty : (s.peer p).otherAvailableWindow < releaseWindowSize (d p) := by omega
  obtain ⟨r, opened⟩ := progressing.either quiescent.initialized
  simp only [Open, returning, quiescent.nothingInFlight, grants_nil, pendingRelease,
    quiescent.nothingBeingSent] at opened
  rcases Side.eq_or_other p r with rfl | rfl
  · omega
  · omega

theorem roomy_cobsEnds : Roomy cobsEnds where
  sameEncoding _ := rfl
  room _ := show 2 * 5 ≤ 40 by decide
  largest _ size within := by
    have limit : maxMessageSize (cobsEnds .left) 40 = 15 := by decide
    have small : size ≤ 15 := limit ▸ within
    change size + 1 + (size + 1) / 254 + 2 + 2 * 5 ≤ 40
    omega

def quiet (s : Connection Unit) : Bool :=
  bothInitialized s && decide (s.link .left = [] ∧ s.link .right = [] ∧
    (s.peer .left).transmission = .idle ∧ (s.peer .right).transmission = .idle ∧
    (s.peer .left).receivedMessageReader = none ∧ (s.peer .right).receivedMessageReader = none)

theorem quiescent_of_quiet {s : Connection Unit} (shown : quiet s = true) : Quiescent s := by
  rw [quiet, Bool.and_eq_true, decide_eq_true_eq] at shown
  obtain ⟨started, leftLink, rightLink, leftIdle, rightIdle, leftReader, rightReader⟩ := shown
  refine ⟨?_, ?_, ?_, initialized_of_both started⟩
  · exact Side.forall_of .left leftLink rightLink
  · exact Side.forall_of .left leftIdle rightIdle
  · exact Side.forall_of .left leftReader rightReader

/-- The window that a message used comes back, and a message of the largest size goes. -/
def returnWindow : List (Action Unit) :=
  startInTurns ++ [.sendMessageStreamAvailable .right, .messageSent .right 5, .deliver .left,
    .requestSendMessage .left 15, .sendMessageStreamAvailable .left, .writeMessage .left (),
    .messageSent .left 18, .deliver .right, .readerReleased .right,
    .sendMessageStreamAvailable .right, .messageSent .right 5, .deliver .left,
    .sendMessageStreamAvailable .left, .messageSent .left 5, .deliver .right]

/-- The right peer is reset while the left one is sending, and drops the message. -/
def resetWhileSending : List (Action Unit) :=
  startInTurns ++ [.sendMessageStreamAvailable .right, .messageSent .right 5, .deliver .left,
    .requestSendMessage .left 15, .sendMessageStreamAvailable .left, .writeMessage .left (),
    .reset .right, .sendMessageStreamAvailable .right, .messageSent .right 6, .deliver .left,
    .messageSent .left 18, .deliver .right,
    .sendMessageStreamAvailable .left, .messageSent .left 5, .deliver .right,
    .requestSendMessage .left 15]

open Runs in
theorem never_stuck_returnWindow : ∃ s : Connection Unit,
    Reachable (step cobsEnds) (fun s a => creditKept s a = true) construct s ∧ Quiescent s ∧
      ∀ p, ¬ ∃ size, (s.peer p).requestedSendMessageSize = some size ∧
        size ≤ (s.peer p).maxSendMessageSize (cobsEnds p) := by
  obtain ⟨s, reached, shown⟩ := exists_of_executeIf (fun s a => creditKept s a = true)
    (step cobsEnds) construct returnWindow quiet (by decide)
  have quiescent := quiescent_of_quiet shown
  exact ⟨s, reached, quiescent, never_stuck cobsEnds roomy_cobsEnds s reached quiescent⟩

open Runs in
/-- A message that is dropped by the peer that was reset is charged to the window that this
peer announced. -/
theorem stuck_resetWhileSending : ¬ ∀ s : Connection Unit,
    Reachable (step cobsEnds) anyStep construct s → Quiescent s →
      ∀ p, ¬ ∃ size, (s.peer p).requestedSendMessageSize = some size ∧
        size ≤ (s.peer p).maxSendMessageSize (cobsEnds p) := by
  intro always
  obtain ⟨s, reached, shown⟩ := exists_of_execute (step cobsEnds) construct resetWhileSending
    (fun s => quiet s && decide ((s.peer .left).requestedSendMessageSize = some 15 ∧
      15 ≤ (s.peer .left).maxSendMessageSize (cobsEnds .left))) (by decide)
  rw [Bool.and_eq_true, decide_eq_true_eq] at shown
  exact always s reached (quiescent_of_quiet shown.1) .left ⟨15, shown.2⟩

end Connection

end Sesame
