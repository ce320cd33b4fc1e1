import EmbeddedInfra.Sesame.Windowed

/-! What one step of the windowed layer can do: the outcomes of `setNextState`, and
those of a step of the connection. -/

namespace Sesame

open SesameWindowed

namespace SesameWindowed

variable {β : Type} {d : SesameEncoded} {s : SesameWindowed β}

/-- The pending message, if any, does not fit the window together with a release. -/
def DoesNotFit (d : SesameEncoded) (s : SesameWindowed β) : Prop :=
  ∀ size, s.requestedSendMessageSize = some size →
    s.otherAvailableWindow < d.messageSize (size + 1) + releaseWindowSize d

def ReleaseDue (d : SesameEncoded) (s : SesameWindowed β) : Prop :=
  releaseWindowSize d < s.releasedWindow ∧ releaseWindowSize d ≤ s.otherAvailableWindow

/-- The outcomes of `setNextState`, with what each of them requires. -/
inductive NextState (d : SesameEncoded) (s : SesameWindowed β) : SesameWindowed β → Prop
  | busy (occupied : s.sending = true ∨ s.initialized = false) : NextState d s s
  | readerHeld (free : s.sending = false) (started : s.initialized = true)
      (due : s.sendInitResponse = true) (held : s.receivedMessageReader ≠ none) : NextState d s s
  | initResponse (free : s.sending = false) (started : s.initialized = true)
      (due : s.sendInitResponse = true) (released : s.receivedMessageReader = none) :
      NextState d s (s.request .sendingInitResponse 3)
  | message (size : Nat) (free : s.sending = false) (started : s.initialized = true)
      (noResponse : s.sendInitResponse = false)
      (pending : s.requestedSendMessageSize = some size)
      (fits : d.messageSize (size + 1) + releaseWindowSize d ≤ s.otherAvailableWindow) :
      NextState d s (s.request (.sendingMessage (size + 1)) (size + 1))
  | releaseWindow (free : s.sending = false) (started : s.initialized = true)
      (noResponse : s.sendInitResponse = false) (waits : DoesNotFit d s)
      (due : ReleaseDue d s) : NextState d s (s.request .sendingReleaseWindow 3)
  | operational (free : s.sending = false) (started : s.initialized = true)
      (noResponse : s.sendInitResponse = false) (waits : DoesNotFit d s)
      (notDue : ¬ ReleaseDue d s) : NextState d s { s with state := .operational }

theorem setNextState_outcome (d : SesameEncoded) (s : SesameWindowed β) :
    NextState d s (s.setNextState d) := by
  unfold setNextState
  split
  case isFalse blocked =>
    refine .busy ?_
    cases sending : s.sending
    · exact .inr (by simpa [sending] using blocked)
    · exact .inl rfl
  case isTrue active =>
    obtain ⟨free, started⟩ := active
    split
    next due =>
      split
      next released => exact .initResponse free started due released
      next held => exact .readerHeld free started due held
    next noResponse =>
      have noResponse : s.sendInitResponse = false := by simpa using noResponse
      split
      next size pending =>
        split
        next fits => exact .message size free started noResponse pending fits
        next tooLarge =>
          have waits : DoesNotFit d s := by
            intro other same
            obtain rfl : size = other := by simpa [pending] using same
            omega
          split
          next due => exact .releaseWindow free started noResponse waits due
          next notDue => exact .operational free started noResponse waits notDue
      next nothing =>
        have waits : DoesNotFit d s := fun size pending => by simp [nothing] at pending
        split
        next due => exact .releaseWindow free started noResponse waits due
        next notDue => exact .operational free started noResponse waits notDue

theorem setNextState_frame (d : SesameEncoded) (s : SesameWindowed β) :
    ∃ state sending transmission, s.setNextState d =
      { s with state := state, sending := sending, transmission := transmission } := by
  have outcome := setNextState_outcome d s
  generalize s.setNextState d = next at outcome
  cases outcome <;> exact ⟨_, _, _, rfl⟩

@[simp] theorem setNextState_initialized :
    (s.setNextState d).initialized = s.initialized := by
  obtain ⟨_, _, _, same⟩ := setNextState_frame d s
  rw [same]

@[simp] theorem setNextState_receivedMessageReader :
    (s.setNextState d).receivedMessageReader = s.receivedMessageReader := by
  obtain ⟨_, _, _, same⟩ := setNextState_frame d s
  rw [same]

@[simp] theorem setNextState_otherAvailableWindow :
    (s.setNextState d).otherAvailableWindow = s.otherAvailableWindow := by
  obtain ⟨_, _, _, same⟩ := setNextState_frame d s
  rw [same]

@[simp] theorem setNextState_releasedWindow :
    (s.setNextState d).releasedWindow = s.releasedWindow := by
  obtain ⟨_, _, _, same⟩ := setNextState_frame d s
  rw [same]

@[simp] theorem setNextState_sendInitResponse :
    (s.setNextState d).sendInitResponse = s.sendInitResponse := by
  obtain ⟨_, _, _, same⟩ := setNextState_frame d s
  rw [same]

theorem setNextState_of_busy (occupied : s.sending = true ∨ s.initialized = false) :
    s.setNextState d = s := by
  have blocked : ¬ (s.sending = false ∧ s.initialized = true) := by
    rintro ⟨free, started⟩
    rcases occupied with sending | fresh
    · rw [sending] at free
      cases free
    · rw [fresh] at started
      cases started
  rw [setNextState, if_neg blocked]

/-- The peer as the handlers leave it, before they call `SetNextState`. -/
def afterSent (s : SesameWindowed β) (encodedSize : Nat) : SesameWindowed β :=
  { s with
    otherAvailableWindow :=
      if s.state = .sendingInit then s.otherAvailableWindow
      else sub16 s.otherAvailableWindow encodedSize
    sending := false
    transmission := .idle }

def afterInit (s : SesameWindowed β) (window : Nat) : SesameWindowed β :=
  { s with
    otherAvailableWindow := window
    sendInitResponse := true
    maxUsableBufferSize := window
    initialized := true }

def afterInitResponse (s : SesameWindowed β) (window encodedSize : Nat) : SesameWindowed β :=
  { s with
    otherAvailableWindow := window
    releasedWindow := encodedSize % 65536
    maxUsableBufferSize := window
    initialized := true }

def afterReleaseWindow (s : SesameWindowed β) (window encodedSize : Nat) : SesameWindowed β :=
  { s with
    releasedWindow := add16 s.releasedWindow encodedSize
    otherAvailableWindow := add16 s.otherAvailableWindow window }

def afterMessage (s : SesameWindowed β) (encodedSize : Nat) : SesameWindowed β :=
  { s with receivedMessageReader := some (encodedSize % 65536) }

def afterReader (s : SesameWindowed β) (encodedSize : Nat) : SesameWindowed β :=
  { s with
    releasedWindow := add16 s.releasedWindow encodedSize
    receivedMessageReader := none }

def afterRequest (s : SesameWindowed β) (size : Nat) : SesameWindowed β :=
  { s with requestedSendMessageSize := some size }

@[simp] theorem afterSent_initialized (encodedSize : Nat) :
    (s.afterSent encodedSize).initialized = s.initialized := rfl

@[simp] theorem afterReleaseWindow_initialized (window encodedSize : Nat) :
    (s.afterReleaseWindow window encodedSize).initialized = s.initialized := rfl

@[simp] theorem afterMessage_initialized (encodedSize : Nat) :
    (s.afterMessage encodedSize).initialized = s.initialized := rfl

/-- The encoded size that `MessageSent` reports is within what was requested. -/
def Within (d : SesameEncoded) (packet : Packet β) (size encodedSize : Nat) : Prop :=
  0 < encodedSize ∧ ((∃ window, packet = .init window) ∨ encodedSize ≤ d.messageSize size)

end SesameWindowed

open SesameWindowed

namespace Connection

variable {β : Type} {d : Side → SesameEncoded} {s t : Connection β}

/-- The outcomes of a step, one for each branch of the code. -/
inductive Outcome (d : Side → SesameEncoded) (s : Connection β) : Action β → Connection β → Prop
  | sendInit (p : Side) (size : Nat)
      (available : (s.peer p).transmission = .requested size)
      (state : (s.peer p).state = .sendingInit) :
      Outcome d s (.sendMessageStreamAvailable p) (s.setPeer p
        { s.peer p with transmission := .sending (.init (ownBufferSize (d p))) size })
  | sendInitResponse (p : Side) (size : Nat)
      (available : (s.peer p).transmission = .requested size)
      (state : (s.peer p).state = .sendingInitResponse) :
      Outcome d s (.sendMessageStreamAvailable p) (s.setPeer p
        { s.peer p with
          transmission := .sending (.initResponse (ownBufferSize (d p))) size
          releasedWindow := 0
          sendInitResponse := false })
  | beginMessage (p : Side) (size requested : Nat)
      (available : (s.peer p).transmission = .requested size)
      (state : (s.peer p).state = .sendingMessage requested) :
      Outcome d s (.sendMessageStreamAvailable p) (s.setPeer p
        { s.peer p with transmission := .writing size, requestedSendMessageSize := none })
  | sendReleaseWindow (p : Side) (size : Nat)
      (available : (s.peer p).transmission = .requested size)
      (state : (s.peer p).state = .sendingReleaseWindow) :
      Outcome d s (.sendMessageStreamAvailable p) (s.setPeer p
        { s.peer p with
          transmission := .sending (.releaseWindow (s.peer p).releasedWindow) size
          releasedWindow := 0 })
  | writeMessage (p : Side) (contents : β) (size : Nat)
      (writing : (s.peer p).transmission = .writing size) :
      Outcome d s (.writeMessage p contents) (s.setPeer p
        { s.peer p with transmission := .sending (.message contents) size })
  | messageSent (p : Side) (packet : Packet β) (size encodedSize : Nat)
      (sending : (s.peer p).transmission = .sending packet size)
      (within : Within (d p) packet size encodedSize) :
      Outcome d s (.messageSent p encodedSize) ((s.setPeer p
        (setNextState (d p) ((s.peer p).afterSent encodedSize))).setLink p
          (s.link p ++ [(packet, encodedSize)]))
  | deliverInit (p : Side) (window encodedSize : Nat) (rest : List (Packet β × Nat))
      (oldest : s.link p.other = (.init window, encodedSize) :: rest)
      (released : (s.peer p).receivedMessageReader = none) :
      Outcome d s (.deliver p) ((s.setPeer p
        (setNextState (d p) ((s.peer p).afterInit window))).setLink p.other rest)
  | deliverInitResponse (p : Side) (window encodedSize : Nat) (rest : List (Packet β × Nat))
      (oldest : s.link p.other = (.initResponse window, encodedSize) :: rest)
      (released : (s.peer p).receivedMessageReader = none) :
      Outcome d s (.deliver p) ((s.setPeer p (setNextState (d p)
        ((s.peer p).afterInitResponse window encodedSize))).setLink p.other rest)
  | deliverReleaseWindow (p : Side) (window encodedSize : Nat) (rest : List (Packet β × Nat))
      (oldest : s.link p.other = (.releaseWindow window, encodedSize) :: rest)
      (released : (s.peer p).receivedMessageReader = none)
      (started : (s.peer p).initialized = true) :
      Outcome d s (.deliver p) ((s.setPeer p (setNextState (d p)
        ((s.peer p).afterReleaseWindow window encodedSize))).setLink p.other rest)
  | deliverMessage (p : Side) (contents : β) (encodedSize : Nat) (rest : List (Packet β × Nat))
      (oldest : s.link p.other = (.message contents, encodedSize) :: rest)
      (released : (s.peer p).receivedMessageReader = none)
      (started : (s.peer p).initialized = true) :
      Outcome d s (.deliver p) ((s.setPeer p (setNextState (d p)
        ((s.peer p).afterMessage encodedSize))).setLink p.other rest)
  | drop (p : Side) (packet : Packet β) (encodedSize : Nat) (rest : List (Packet β × Nat))
      (oldest : s.link p.other = (packet, encodedSize) :: rest)
      (kind : (∃ window, packet = .releaseWindow window) ∨ ∃ contents, packet = .message contents)
      (fresh : (s.peer p).initialized = false) :
      Outcome d s (.deliver p) (s.setLink p.other rest)
  | readerReleased (p : Side) (encodedSize : Nat)
      (held : (s.peer p).receivedMessageReader = some encodedSize) :
      Outcome d s (.readerReleased p) (s.setPeer p (setNextState (d p)
        ((s.peer p).afterReader encodedSize)))
  | requestNow (p : Side) (size : Nat) (started : (s.peer p).initialized = true)
      (small : size ≤ (s.peer p).maxSendMessageSize (d p))
      (state : (s.peer p).state = .operational) :
      Outcome d s (.requestSendMessage p size) (s.setPeer p (setNextState (d p)
        ((s.peer p).afterRequest size)))
  | requestLater (p : Side) (size : Nat) (started : (s.peer p).initialized = true)
      (small : size ≤ (s.peer p).maxSendMessageSize (d p))
      (state : (s.peer p).state ≠ .operational) :
      Outcome d s (.requestSendMessage p size) (s.setPeer p
        ((s.peer p).afterRequest size))
  | reset (p : Side) (released : (s.peer p).receivedMessageReader = none) :
      Outcome d s (.reset p) (s.setPeer p SesameWindowed.construct)

theorem setPeer_self (s : Connection β) (p : Side) : s.setPeer p (s.peer p) = s := by
  simp [setPeer]

theorem encodedWithin_sending {d : SesameEncoded} {peer : SesameWindowed β} {encodedSize : Nat}
    (within : encodedWithin d peer encodedSize = true) :
    ∃ packet size, peer.transmission = .sending packet size ∧
      Within d packet size encodedSize := by
  unfold encodedWithin at within
  split at within
  next window size sending =>
    exact ⟨_, size, sending, (of_decide_eq_true within).1, .inl ⟨window, rfl⟩⟩
  next packet size _ sending =>
    have bounds := of_decide_eq_true within
    exact ⟨packet, size, sending, bounds.1, .inr bounds.2⟩
  next => cases within

theorem step_outcome {a : Action β} (taken : step d s a = some t) : Outcome d s a t := by
  cases a with
  | sendMessageStreamAvailable p =>
    obtain ⟨peer, available, rfl⟩ := Option.map_eq_some_iff.mp taken
    unfold sendMessageStreamAvailable at available
    split at available
    next size requested =>
      split at available <;> cases available
      next state => exact .sendInit p size requested state
      next state => exact .sendInitResponse p size requested state
      next state => exact .beginMessage p size _ requested state
      next state => exact .sendReleaseWindow p size requested state
    next => cases available
  | writeMessage p contents =>
    obtain ⟨peer, written, rfl⟩ := Option.map_eq_some_iff.mp taken
    unfold writeMessage at written
    split at written <;> cases written
    next size writing => exact .writeMessage p contents size writing
  | messageSent p encodedSize =>
    simp only [step] at taken
    split at taken
    next within =>
      obtain ⟨packet, size, sending, within⟩ := encodedWithin_sending within
      simp only [messageSent, sending, Option.map_some,
        Option.some.injEq] at taken
      subst taken
      exact .messageSent p packet size encodedSize sending within
    next => cases taken
  | deliver p =>
    simp only [step] at taken
    split at taken
    next => cases taken
    next packet encodedSize rest oldest =>
      split at taken <;> cases taken
      next released =>
        cases packet with
        | init window => exact .deliverInit p window encodedSize rest oldest released
        | initResponse window =>
          exact .deliverInitResponse p window encodedSize rest oldest released
        | releaseWindow window =>
          cases started : (s.peer p).initialized with
          | false =>
            simp only [receivedMessage, started, Bool.false_eq_true,
              if_false, setNextState_of_busy (.inr started), setPeer_self]
            exact .drop p _ encodedSize rest oldest (.inl ⟨window, rfl⟩) started
          | true =>
            simp only [receivedMessage, if_pos started]
            exact .deliverReleaseWindow p window encodedSize rest oldest released started
        | message contents =>
          cases started : (s.peer p).initialized with
          | false =>
            simp only [receivedMessage, started, Bool.false_eq_true,
              if_false, setNextState_of_busy (.inr started), setPeer_self]
            exact .drop p _ encodedSize rest oldest (.inr ⟨contents, rfl⟩) started
          | true =>
            simp only [receivedMessage, if_pos started]
            exact .deliverMessage p contents encodedSize rest oldest released started
  | readerReleased p =>
    obtain ⟨peer, released, rfl⟩ := Option.map_eq_some_iff.mp taken
    obtain ⟨encodedSize, held, rfl⟩ := Option.map_eq_some_iff.mp released
    exact .readerReleased p encodedSize held
  | requestSendMessage p size =>
    simp only [step] at taken
    split at taken <;> cases taken
    next allowed =>
      unfold requestSendMessage
      split
      next state => exact .requestNow p size allowed.1 allowed.2 state
      next state => exact .requestLater p size allowed.1 allowed.2 state
  | reset p =>
    obtain ⟨peer, fresh, rfl⟩ := Option.map_eq_some_iff.mp taken
    unfold reset at fresh
    split at fresh <;> cases fresh
    next released => exact .reset p released

end Connection

end Sesame
