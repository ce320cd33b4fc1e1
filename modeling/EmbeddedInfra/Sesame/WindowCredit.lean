import EmbeddedInfra.Sesame.WindowSteady

/-! No window gets lost: the window of a sender, with what its receiver owes to it and
what is on its way back, is the whole buffer of the receiver, unless a new announcement
is due. -/

namespace Sesame

open List Side

namespace SesameWindowed

variable {β : Type} {d : SesameEncoded} {s : SesameWindowed β}

def Announcing (s : SesameWindowed β) : Prop :=
  s.sending = true ∧
    (s.state = .sendingInit ∨ ∃ window size, s.transmission = .sending (.initResponse window) size)

def WillAnnounce (s : SesameWindowed β) : Prop :=
  s.sendInitResponse = true ∨
    (s.sending = true ∧ (s.state = .sendingInit ∨ s.state = .sendingInitResponse))

theorem announcing_setNextState (d : SesameEncoded) (s : SesameWindowed β)
    (idle : s.sending = false → s.transmission = .idle) :
    Announcing (s.setNextState d) ↔ Announcing s := by
  have outcome := setNextState_outcome d s
  generalize s.setNextState d = next at outcome
  cases outcome with
  | busy | readerHeld => rfl
  | initResponse free | message size free | releaseWindow free | operational free =>
    simp [Announcing, request, free, idle free]

theorem pendingRelease_setNextState (d : SesameEncoded) (s : SesameWindowed β)
    (idle : s.sending = false → s.transmission = .idle) :
    pendingRelease (s.setNextState d) = pendingRelease s := by
  have outcome := setNextState_outcome d s
  generalize s.setNextState d = next at outcome
  cases outcome with
  | busy | readerHeld => rfl
  | initResponse free | message size free | releaseWindow free | operational free =>
    simp [pendingRelease, request, idle free]

theorem WillAnnounce.setNextState (will : WillAnnounce s) : WillAnnounce (s.setNextState d) := by
  have outcome := setNextState_outcome d s
  generalize s.setNextState d = next at outcome
  cases outcome with
  | busy | readerHeld => exact will
  | initResponse => exact .inr ⟨rfl, .inr rfl⟩
  | message size free started noResponse | releaseWindow free started noResponse
  | operational free started noResponse =>
    rcases will with due | ⟨sending, _⟩
    · cases noResponse.symm.trans due
    · cases free.symm.trans sending

end SesameWindowed

open SesameWindowed

/-- How a packet changes whether its receiver is initialized, and what the receiver
owes to the sender. -/
def absorb {β : Type} : Bool × Nat → Packet β × Nat → Bool × Nat
  | (_, owed), (.init _, _) => (true, owed)
  | _, (.initResponse _, encodedSize) => (true, encodedSize)
  | (true, owed), (_, encodedSize) => (true, owed + encodedSize)
  | (false, owed), _ => (false, owed)

section Lists

variable {β : Type}

theorem absorb_fst (start : Bool × Nat) (packet : Packet β × Nat) :
    (absorb start packet).1 = (start.1 || announces packet) := by
  obtain ⟨started, owed⟩ := start
  obtain ⟨packet, encodedSize⟩ := packet
  cases packet <;> cases started <;> rfl

theorem foldl_absorb_fst (start : Bool × Nat) (link : List (Packet β × Nat)) :
    (link.foldl absorb start).1 = (start.1 || link.any announces) := by
  induction link generalizing start with
  | nil => simp
  | cons packet rest ih =>
    rw [foldl_cons, ih, absorb_fst, any_cons, Bool.or_assoc]

theorem foldl_absorb_le (started : Bool) (less more extra : Nat) (link : List (Packet β × Nat))
    (bound : less ≤ more + extra) :
    (link.foldl absorb (started, less)).2 ≤ (link.foldl absorb (started, more)).2 + extra := by
  induction link generalizing started less more with
  | nil => exact bound
  | cons packet rest ih =>
    obtain ⟨packet, encodedSize⟩ := packet
    cases packet with
    | init window => exact ih true less more bound
    | initResponse window => exact ih true encodedSize encodedSize (Nat.le_add_right ..)
    | releaseWindow window | message contents =>
      cases started with
      | false => exact ih false less more bound
      | true => exact ih true _ _ (by omega)

end Lists

namespace Connection

variable {β : Type} {d : Side → SesameEncoded} {s t : Connection β}

/-- What the other peer will owe to `p` once everything in flight has arrived. -/
def owed (s : Connection β) (p : Side) : Nat :=
  ((s.link p).foldl absorb ((s.peer p.other).initialized,
    (s.peer p.other).releasedWindow + heldSize (s.peer p.other))).2

/-- The window that comes back to `p`. -/
def returning (s : Connection β) (p : Side) : Nat :=
  grants (s.link p.other) + pendingRelease (s.peer p.other)

/-- An announcement is on its way to `p`. -/
def Coming (s : Connection β) (p : Side) : Prop :=
  Announcing (s.peer p.other) ∨ (s.link p.other).any announces = true

/-- The `init` of the other peer is on its way to `p`. -/
def InitComing (s : Connection β) (p : Side) : Prop :=
  ((s.peer p.other).sending = true ∧ (s.peer p.other).state = .sendingInit) ∨
    ∃ packet ∈ s.link p.other, ∃ window, packet.1 = .init window

variable {p : Side}

theorem InitComing.coming (coming : InitComing s p) : Coming s p := by
  rcases coming with ⟨sending, state⟩ | ⟨⟨packet, size⟩, member, window, rfl⟩
  · exact .inl ⟨sending, .inl state⟩
  · exact .inr (any_eq_true.mpr ⟨_, member, rfl⟩)

def Promised (s : Connection β) (r : Side) : Prop :=
  (s.peer r.other).initialized = false →
    InitComing s r ∨ WillAnnounce (s.peer r) ∨ (s.link r).any announces = true

variable {peer : SesameWindowed β} {packet : Packet β × Nat} {rest : List (Packet β × Nat)}
  {a : Action β} {size : Nat}

theorem promised_setPeer (promised : ∀ r, Promised s r)
    (will : WillAnnounce (s.peer p) → WillAnnounce peer)
    (fresh : peer.initialized = false → peer.sending = true ∧ peer.state = .sendingInit) :
    ∀ r, Promised (s.setPeer p peer) r := by
  refine forall_of p ?_ ?_
  · intro waiting
    rw [setPeer_peer_other] at waiting
    rcases promised p waiting with coming | announced | flying
    · exact .inl (by simpa [InitComing] using coming)
    · exact .inr (.inl (by simpa using will announced))
    · exact .inr (.inr flying)
  · intro waiting
    rw [other_other, setPeer_peer] at waiting
    exact .inl (.inl (by simpa using fresh waiting))

theorem promised_deliver (peer : SesameWindowed β) (promised : ∀ r, Promised s r)
    (oldest : s.link p.other = packet :: rest) (will : WillAnnounce (s.peer p) → WillAnnounce peer)
    (asked : (∃ window, packet.1 = .init window) → WillAnnounce peer)
    (fresh : peer.initialized = false → peer = s.peer p ∧ announces packet = false) :
    ∀ r, Promised ((s.setPeer p peer).setLink p.other rest) r := by
  refine forall_of p ?_ ?_
  · intro waiting
    rw [setLink_peer, setPeer_peer_other] at waiting
    rcases promised p waiting with (sending | ⟨other, member, window, kind⟩) | announced | flying
    · exact .inl (.inl (by simpa using sending))
    · rw [oldest, mem_cons] at member
      rcases member with rfl | member
      · exact .inr (.inl (by simpa using asked ⟨window, kind⟩))
      · exact .inl (.inr ⟨other, by simpa using member, window, kind⟩)
    · exact .inr (.inl (by simpa using will announced))
    · exact .inr (.inr (by simpa using flying))
  · intro waiting
    rw [other_other, setLink_peer, setPeer_peer] at waiting
    obtain ⟨rfl, silent⟩ := fresh waiting
    have due := promised p.other (by rwa [other_other])
    rcases due with coming | announced | flying
    · exact .inl (by simpa [InitComing] using coming)
    · exact .inr (.inl (by simpa using announced))
    · rw [oldest, any_cons, silent, Bool.false_or] at flying
      exact .inr (.inr (by simpa using flying))

theorem promised_step (coherent : ∀ r, Coherent (d r) (s.peer r)) (promised : ∀ r, Promised s r)
    (outcome : Outcome d s a t) : ∀ r, Promised t r := by
  have freshState := fun p fresh => ((coherent p).fresh fresh).2.2.2.2
  cases outcome with
  | sendInit p size available state =>
    exact promised_setPeer promised id fun _ =>
      ⟨(coherent p).sending (by simp [available]), state⟩
  | sendInitResponse p size available state =>
    refine promised_setPeer promised (fun _ => ?_) fun fresh => ?_
    · exact .inr ⟨(coherent p).sending (by simp [available]), .inr state⟩
    · cases state.symm.trans (freshState p fresh)
  | beginMessage p size requested available state | sendReleaseWindow p size available state =>
    exact promised_setPeer promised id fun fresh => by cases state.symm.trans (freshState p fresh)
  | writeMessage p contents size writing =>
    have phase := (coherent p).phase
    simp only [InPhase, writing] at phase
    exact promised_setPeer promised id fun fresh => by
      cases phase.2.symm.trans (freshState p fresh)
  | messageSent p packet size encodedSize sending within =>
    have phase := (coherent p).phase
    simp only [InPhase, sending] at phase
    obtain ⟨busy, _, carries⟩ := phase
    refine forall_of p ?_ ?_
    · intro waiting
      rw [setLink_peer, setPeer_peer_other] at waiting
      rcases promised p waiting with coming | (due | ⟨_, state⟩) | flying
      · exact .inl (by simpa [InitComing] using coming)
      · exact .inr (.inl (by simp [WillAnnounce, afterSent, due]))
      · have announced : announces (packet, encodedSize) = true := by
          rcases state with state | state
          all_goals
            unfold Carries at carries
            split at carries <;> simp_all [announces]
        exact .inr (.inr (by simp [announced]))
      · exact .inr (.inr (by simp [flying]))
    · intro waiting
      have fresh : (s.peer p).initialized = false := by simpa using waiting
      have state := freshState p fresh
      refine .inl (.inr ⟨(packet, encodedSize), by simp, ?_⟩)
      unfold Carries at carries
      split at carries <;> simp_all
  | deliverInit p window encodedSize rest oldest released =>
    have due : WillAnnounce ((s.peer p).afterInit window) := .inl rfl
    refine promised_deliver _ promised oldest (fun _ => due.setNextState)
      (fun _ => due.setNextState) fun fresh => ?_
    rw [setNextState_initialized] at fresh
    cases fresh
  | deliverInitResponse p window encodedSize rest oldest released =>
    refine promised_deliver _ promised oldest ?_ ?_ fun fresh => ?_
    · exact WillAnnounce.setNextState (s := (s.peer p).afterInitResponse window encodedSize)
    · rintro ⟨window, ⟨⟩⟩
    · rw [setNextState_initialized] at fresh
      cases fresh
  | deliverReleaseWindow p window encodedSize rest oldest released started =>
    refine promised_deliver _ promised oldest ?_ ?_ fun fresh => ?_
    · exact WillAnnounce.setNextState (s := (s.peer p).afterReleaseWindow window encodedSize)
    · rintro ⟨window, ⟨⟩⟩
    · rw [setNextState_initialized] at fresh
      cases started.symm.trans fresh
  | deliverMessage p contents encodedSize rest oldest released started =>
    refine promised_deliver _ promised oldest ?_ ?_ fun fresh => ?_
    · exact WillAnnounce.setNextState (s := (s.peer p).afterMessage encodedSize)
    · rintro ⟨window, ⟨⟩⟩
    · rw [setNextState_initialized] at fresh
      cases started.symm.trans fresh
  | drop p packet encodedSize rest oldest kind fresh =>
    have kept := promised_deliver (s.peer p) promised oldest id
      (by rcases kind with ⟨_, rfl⟩ | ⟨_, rfl⟩ <;> simp)
      (fun _ => ⟨rfl, by rcases kind with ⟨_, rfl⟩ | ⟨_, rfl⟩ <;> rfl⟩)
    rwa [setPeer_self] at kept
  | readerReleased p encodedSize held =>
    refine promised_setPeer promised ?_ fun fresh => ?_
    · exact WillAnnounce.setNextState (s := (s.peer p).afterReader encodedSize)
    · rw [setNextState_initialized] at fresh
      have fresh := (coherent p).fresh fresh
      simp [held] at fresh
  | requestNow p size started small state =>
    refine promised_setPeer promised ?_ fun fresh => ?_
    · exact WillAnnounce.setNextState (s := (s.peer p).afterRequest size)
    · rw [setNextState_initialized] at fresh
      cases started.symm.trans fresh
  | requestLater p size started small state =>
    exact promised_setPeer promised id fun fresh => by cases started.symm.trans fresh
  | reset p released =>
    exact promised_setPeer promised (fun _ => .inr ⟨rfl, .inl rfl⟩) fun _ => ⟨rfl, rfl⟩

/-- The window of `r`, with what is owed and what comes back, is the whole buffer. -/
def Credited (d : Side → SesameEncoded) (s : Connection β) (r : Side) : Prop :=
  (s.peer r).initialized = true → ¬ Coming s r →
    ownBufferSize (d r.other) ≤ (s.peer r).otherAvailableWindow + owed s r + returning s r

theorem credited_setPeer (credited : ∀ r, Credited d s r)
    (started : peer.initialized = (s.peer p).initialized)
    (window : peer.otherAvailableWindow = (s.peer p).otherAvailableWindow)
    (receiver : Announcing peer ∨
      ((Announcing (s.peer p) → Announcing peer) ∧ retained (s.peer p) ≤ retained peer ∧
      pendingRelease (s.peer p) ≤ pendingRelease peer)) :
    ∀ r, Credited d (s.setPeer p peer) r := by
  refine forall_of p ?_ ?_
  · intro active silent
    rw [setPeer_peer] at active ⊢
    have before := credited p (started.symm.trans active)
      (by simpa only [Coming, setPeer_peer_other, setPeer_link] using silent)
    simpa only [owed, returning, setPeer_peer_other, setPeer_link, window] using before
  · intro active silent
    rw [setPeer_peer_other] at active ⊢
    simp only [Coming, other_other, setPeer_peer, setPeer_link, not_or] at silent
    rcases receiver with announcing | ⟨still, kept, pending⟩
    · exact absurd announcing silent.1
    · have before := credited p.other active
        (by simpa only [Coming, other_other, not_or] using
          ⟨fun announcing => silent.1 (still announcing), silent.2⟩)
      obtain ⟨extra, grown⟩ := Nat.exists_eq_add_of_le pending
      simp only [retained] at kept
      have more := foldl_absorb_le peer.initialized
        ((s.peer p).releasedWindow + heldSize (s.peer p)) (peer.releasedWindow + heldSize peer)
        extra (s.link p.other) (by omega)
      simp only [owed, returning, other_other, setPeer_peer, setPeer_link] at before ⊢
      rw [started] at more ⊢
      omega

theorem credited_deliver (peer : SesameWindowed β) (credited : ∀ r, Credited d s r)
    (oldest : s.link p.other = packet :: rest)
    (sender : peer.initialized = true → ownBufferSize (d p.other) ≤ peer.otherAvailableWindow ∨
      ((s.peer p).initialized = true ∧ announces packet = false ∧
      (s.peer p).otherAvailableWindow + grant packet ≤ peer.otherAvailableWindow))
    (still : Announcing (s.peer p) → Announcing peer)
    (pending : pendingRelease peer = pendingRelease (s.peer p))
    (absorbed : absorb ((s.peer p).initialized, (s.peer p).releasedWindow + heldSize (s.peer p))
      packet = (peer.initialized, peer.releasedWindow + heldSize peer)) :
    ∀ r, Credited d ((s.setPeer p peer).setLink p.other rest) r := by
  refine forall_of p ?_ ?_
  · intro active silent
    rw [setLink_peer, setPeer_peer] at active ⊢
    rcases sender active with whole | ⟨before, quiet, window⟩
    · omega
    · have coming : ¬ Coming s p := by
        simpa [Coming, oldest, quiet] using silent
      have known := credited p before coming
      simp only [owed, returning, oldest, grants_cons] at known
      simp only [owed, returning, setLink_peer, setPeer_peer_other, setLink_other_link,
        setLink_link, setPeer_link]
      omega
  · intro active silent
    rw [setLink_peer, setPeer_peer_other] at active ⊢
    simp only [Coming, other_other, setLink_peer, setPeer_peer, setLink_other_link,
      setPeer_link, not_or] at silent
    have known := credited p.other active
      (by simpa only [Coming, other_other, not_or] using
        ⟨fun announcing => silent.1 (still announcing), silent.2⟩)
    simp only [owed, returning, other_other, oldest, foldl_cons, absorbed] at known
    simpa only [owed, returning, other_other, setLink_peer, setPeer_peer, setLink_link,
      setLink_other_link, setPeer_link, pending] using known

theorem retained_setNextState (d : SesameEncoded) (s : SesameWindowed β)
    (idle : s.sending = false → s.transmission = .idle) :
    retained (s.setNextState d) = retained s := by
  simp only [retained, heldSize, setNextState_receivedMessageReader,
    setNextState_releasedWindow, pendingRelease_setNextState d s idle]

theorem counted_of_sending {packet : Packet β}
    (prepared : Prepared (d p) (ownBufferSize (d p.other)) (s.peer p)) (promised : Promised s p)
    (quiet : ¬ Coming s p) (sending : (s.peer p).transmission = .sending packet size)
    (content : (s.peer p).state ≠ .sendingInit ∧ (s.peer p).state ≠ .sendingInitResponse) :
    (s.peer p.other).initialized = true ∨ (s.link p).any announces = true := by
  by_contra neither
  rw [not_or, Bool.not_eq_true] at neither
  obtain ⟨fresh, silent⟩ := neither
  rcases promised fresh with coming | (due | ⟨_, state⟩) | flying
  · exact quiet coming.coming
  · have free := prepared.response due
    unfold ready at free
    split at free <;> simp_all
  · rcases state with state | state
    · exact content.1 state
    · exact content.2 state
  · exact silent flying

theorem credited_messageSent {packet : Packet β} {encodedSize : Nat}
    (coherent : ∀ r, Coherent (d r) (s.peer r))
    (prepared : Prepared (d p) (ownBufferSize (d p.other)) (s.peer p))
    (promised : ∀ r, Promised s r) (credited : ∀ r, Credited d s r)
    (sending : (s.peer p).transmission = .sending packet size)
    (within : Within (d p) packet size encodedSize) :
    ∀ r, Credited d ((s.setPeer p (setNextState (d p) ((s.peer p).afterSent encodedSize))).setLink
      p (s.link p ++ [(packet, encodedSize)])) r := by
  have phase := (coherent p).phase
  simp only [InPhase, sending] at phase
  obtain ⟨busy, _, carries⟩ := phase
  refine forall_of p ?_ ?_
  · intro active silent
    rw [setLink_peer, setPeer_peer, setNextState_initialized] at active
    have quiet : ¬ Coming s p := by simpa [Coming] using silent
    have known := credited p active quiet
    have window : (s.peer p).state ≠ .sendingInit →
        ((s.peer p).afterSent encodedSize).otherAvailableWindow + encodedSize =
          (s.peer p).otherAvailableWindow := by
      intro counted
      have fits := encodedSize_le_reserved (coherent p) sending within counted
      have enough := prepared.enough
      have small := prepared.small
      unfold Enough at enough
      simp only [afterSent, if_neg counted, sub16]
      omega
    simp only [owed, returning, setLink_peer, setPeer_peer, setPeer_peer_other, setLink_link,
      setLink_link_other, setPeer_link, setNextState_otherAvailableWindow,
      foldl_concat] at known ⊢
    generalize folded : List.foldl absorb ((s.peer p.other).initialized,
      (s.peer p.other).releasedWindow + heldSize (s.peer p.other)) (s.link p) = after at known ⊢
    have flag := foldl_absorb_fst ((s.peer p.other).initialized,
      (s.peer p.other).releasedWindow + heldSize (s.peer p.other)) (s.link p)
    have counted := counted_of_sending prepared (promised p) quiet sending
    rw [folded] at flag
    obtain ⟨started, owes⟩ := after
    replace flag : started =
      ((s.peer p.other).initialized || (s.link p).any announces) := flag
    cases state : (s.peer p).state with
    | sendingInit =>
      obtain ⟨announced, rfl⟩ : ∃ window, packet = .init window := by
        cases packet <;> simp_all [Carries]
      have same : ((s.peer p).afterSent encodedSize).otherAvailableWindow =
          (s.peer p).otherAvailableWindow := by simp [afterSent, state]
      simp only [absorb]
      omega
    | sendingInitResponse =>
      obtain ⟨announced, rfl⟩ : ∃ window, packet = .initResponse window := by
        cases packet <;> simp_all [Carries]
      have whole := prepared.whole (.inr ⟨busy, state⟩)
      have spent := window (by simp [state])
      simp only [absorb]
      omega
    | operational => cases packet <;> simp [state, Carries] at carries
    | sendingMessage requested =>
      obtain ⟨contents, rfl⟩ : ∃ contents, packet = .message contents := by
        cases packet <;> simp_all [Carries]
      have spent := window (by simp [state])
      have active : started = true := by
        rw [flag, Bool.or_eq_true]
        exact counted (by simp [state])
      subst active
      simp only [absorb]
      omega
    | sendingReleaseWindow =>
      obtain ⟨given, rfl⟩ : ∃ window, packet = .releaseWindow window := by
        cases packet <;> simp_all [Carries]
      have spent := window (by simp [state])
      have active : started = true := by
        rw [flag, Bool.or_eq_true]
        exact counted (by simp [state])
      subst active
      simp only [absorb]
      omega
  · intro active silent
    rw [setLink_peer, setPeer_peer_other] at active ⊢
    simp only [Coming, other_other, setLink_peer, setPeer_peer, setLink_link,
      any_append, any_cons, any_nil, Bool.or_false, Bool.or_eq_true,
      not_or] at silent
    obtain ⟨_, silent, quiet⟩ := silent
    have known := credited p.other active (by
      simp only [Coming, other_other, not_or]
      refine ⟨?_, silent⟩
      rintro ⟨_, state | ⟨window, bytes, same⟩⟩
      · cases packet <;> simp_all [Carries, announces]
      · rw [sending] at same
        cases same
        exact quiet rfl)
    have given : pendingRelease (s.peer p) = grant (packet, encodedSize) := by
      cases packet <;> simp [pendingRelease, sending, grant]
    have cleared : pendingRelease
        (setNextState (d p) ((s.peer p).afterSent encodedSize)) = 0 :=
      pendingRelease_setNextState _ _ fun _ => rfl
    simp only [owed, returning, other_other, given] at known
    simp only [owed, returning, other_other, setLink_peer, setPeer_peer, setLink_link,
      setLink_link_other, setPeer_link, cleared, grants_concat, setNextState_initialized,
      setNextState_releasedWindow, heldSize, setNextState_receivedMessageReader]
    exact known.trans (by rw [Nat.add_zero]; rfl)

theorem credited_step (steady : Steady d s) (promised : ∀ r, Promised s r)
    (credited : ∀ r, Credited d s r) (kept : creditKept s a = true) (outcome : Outcome d s a t) :
    ∀ r, Credited d t r := by
  have coherent := steady.coherent
  have idle := fun r => (coherent r).idle
  cases outcome with
  | sendInit p size available state =>
    exact credited_setPeer credited rfl rfl
      (.inl ⟨(coherent p).sending (by simp [available]), .inl state⟩)
  | sendInitResponse p size available state =>
    exact credited_setPeer credited rfl rfl
      (.inl ⟨(coherent p).sending (by simp [available]), .inr ⟨_, _, rfl⟩⟩)
  | beginMessage p size requested available state | sendReleaseWindow p size available state =>
    refine credited_setPeer credited rfl rfl (.inr ⟨?_, ?_, ?_⟩)
    · simp [Announcing, state, available]
    · simp [retained, heldSize, pendingRelease, available]
    · simp [pendingRelease, available]
  | writeMessage p contents size writing =>
    have phase := (coherent p).phase
    simp only [InPhase, writing] at phase
    refine credited_setPeer credited rfl rfl (.inr ⟨?_, ?_, ?_⟩)
    · simp [Announcing, phase.2, writing]
    · simp [retained, heldSize, pendingRelease, writing]
    · simp [pendingRelease, writing]
  | messageSent p packet size encodedSize sending within =>
    exact credited_messageSent coherent (steady.prepared p) promised credited
      sending within
  | deliverInit p window encodedSize rest oldest released =>
    obtain rfl : window = ownBufferSize (d p.other) :=
      steady.announced p.other _ (by rw [oldest]; exact .head _) window (.inl rfl)
    refine credited_deliver _ credited oldest (fun _ => ?_) ?_ ?_ ?_
    · exact .inl (by rw [setNextState_otherAvailableWindow]; exact le_rfl)
    · exact (announcing_setNextState (d p) ((s.peer p).afterInit _) (idle p)).mpr
    · exact pendingRelease_setNextState (d p) ((s.peer p).afterInit _) (idle p)
    · simp [absorb, afterInit, heldSize]
  | deliverInitResponse p window encodedSize rest oldest released =>
    obtain rfl : window = ownBufferSize (d p.other) :=
      steady.announced p.other _ (by rw [oldest]; exact .head _) window (.inr rfl)
    have small : encodedSize < 65536 := steady.sized p.other
      (.initResponse (ownBufferSize (d p.other)), encodedSize) (by rw [oldest]; exact .head _)
    refine credited_deliver _ credited oldest (fun _ => ?_) ?_ ?_ ?_
    · exact .inl (by rw [setNextState_otherAvailableWindow]; exact le_rfl)
    · exact (announcing_setNextState (d p) ((s.peer p).afterInitResponse _ encodedSize) (idle p)).mpr
    · exact pendingRelease_setNextState (d p) ((s.peer p).afterInitResponse _ encodedSize) (idle p)
    · simp [absorb, afterInitResponse, heldSize, released, Nat.mod_eq_of_lt small]
  | deliverReleaseWindow p window encodedSize rest oldest released started =>
    have fits : (s.peer p).releasedWindow + encodedSize < 65536 ∧
        (s.peer p).otherAvailableWindow + window < 65536 := by
      simpa [creditKept, oldest, started] using kept
    refine credited_deliver _ credited oldest (fun _ => ?_) ?_ ?_ ?_
    · refine .inr ⟨started, rfl, ?_⟩
      simp [afterReleaseWindow, add16, grant, Nat.mod_eq_of_lt fits.2]
    · exact (announcing_setNextState (d p) ((s.peer p).afterReleaseWindow window encodedSize) (idle p)).mpr
    · exact pendingRelease_setNextState (d p) ((s.peer p).afterReleaseWindow window encodedSize) (idle p)
    · simp [absorb, afterReleaseWindow, add16, heldSize, released, started,
        Nat.mod_eq_of_lt fits.1]
  | deliverMessage p contents encodedSize rest oldest released started =>
    have small : encodedSize < 65536 := steady.sized p.other
      (.message contents, encodedSize) (by rw [oldest]; exact .head _)
    refine credited_deliver _ credited oldest (fun _ => ?_) ?_ ?_ ?_
    · exact .inr ⟨started, rfl, by simp [afterMessage, grant]⟩
    · exact (announcing_setNextState (d p) ((s.peer p).afterMessage encodedSize) (idle p)).mpr
    · exact pendingRelease_setNextState (d p) ((s.peer p).afterMessage encodedSize) (idle p)
    · simp [absorb, afterMessage, heldSize, released, started, Nat.mod_eq_of_lt small]
  | drop p packet encodedSize rest oldest kind fresh =>
    have same : absorb ((s.peer p).initialized,
        (s.peer p).releasedWindow + heldSize (s.peer p)) (packet, encodedSize) =
          ((s.peer p).initialized, (s.peer p).releasedWindow + heldSize (s.peer p)) := by
      rcases kind with ⟨_, rfl⟩ | ⟨_, rfl⟩ <;> rw [fresh] <;> rfl
    have dropped := credited_deliver (s.peer p) credited oldest
      (fun started => by cases fresh.symm.trans started) id rfl same
    rwa [setPeer_self] at dropped
  | readerReleased p encodedSize held =>
    have fits : (s.peer p).releasedWindow + encodedSize < 65536 := by
      simpa [creditKept, heldSize, held] using kept
    refine credited_setPeer credited (by simp [afterReader]) (by simp [afterReader])
      (.inr ⟨?_, ?_, ?_⟩)
    · exact (announcing_setNextState (d p) ((s.peer p).afterReader encodedSize) (idle p)).mpr
    · rw [retained_setNextState (d p) ((s.peer p).afterReader encodedSize) (idle p)]
      simp [retained, heldSize, held, afterReader, add16, Nat.mod_eq_of_lt fits, pendingRelease,
        Nat.add_comm encodedSize]
    · exact (pendingRelease_setNextState (d p) ((s.peer p).afterReader encodedSize) (idle p)).ge
  | requestNow p size started small state =>
    refine credited_setPeer credited (by simp [afterRequest]) (by simp [afterRequest])
      (.inr ⟨?_, ?_, ?_⟩)
    · exact (announcing_setNextState (d p) ((s.peer p).afterRequest size) (idle p)).mpr
    · exact (retained_setNextState (d p) ((s.peer p).afterRequest size) (idle p)).ge
    · exact (pendingRelease_setNextState (d p) ((s.peer p).afterRequest size) (idle p)).ge
  | requestLater p size started small state =>
    exact credited_setPeer credited rfl rfl (.inr ⟨id, le_rfl, le_rfl⟩)
  | reset p released =>
    refine forall_of p ?_ ?_
    · intro active
      simp [SesameWindowed.construct] at active
    · intro _ silent
      exact absurd (.inl (by simp [Announcing, SesameWindowed.construct])) silent

end Connection

end Sesame
