import EmbeddedInfra.MessageCommunication.Windowed

/-! What the operations of one peer do to its accounts: the window that it may still
use, and the room of its own deque that it has not given back. -/

namespace MessageCommunication

open List

open Sesame (Side Packet add16 sub16)

theorem add16_le (a b : Nat) : add16 a b ≤ a + b := Nat.mod_le _ _

variable {a b : Nat}

theorem add16_eq (small : a + b < 65536) : add16 a b = a + b := Nat.mod_eq_of_lt small

theorem sub16_zero (small : a < 65536) : sub16 a 0 = a := by
  simp only [sub16]
  omega

theorem sub16_eq (small : a < 65536) (enough : b ≤ a) : sub16 a b = a - b := by
  simp only [sub16]
  omega

theorem sub16_add16_le (a b more : Nat) : sub16 (add16 a more) b ≤ sub16 a b + more := by
  simp only [sub16, add16]
  omega

theorem windowSize_eq {size : Nat} (small : size + 2 < 65536) : windowSize size = size + 2 :=
  add16_eq small

namespace Windowed

variable {d : Storage} {other : Nat} {s t : Windowed}

def ownWindow (d : Storage) : Nat := availableWindow d []

theorem ownWindow_lt : ownWindow d < 65536 := Nat.mod_lt _ (by decide)

theorem ownWindow_le : ownWindow d ≤ d.maxSize := Nat.mod_le _ _

/-- What the message that is out will count against the window in its `OnSent`. -/
def unreported (s : Windowed) : Nat :=
  match s.transmission with
  | .sent packet => charge packet
  | _ => 0

def credit (s : Windowed) : Nat := sub16 s.otherAvailableWindow (unreported s)

def sizeTaken : Option Nat → Nat
  | some _ => 2
  | none => 0

def pending (s : Windowed) : Nat := s.receivedData.length + sizeTaken s.reader

/-- The window that a release packet which is not out yet gives back. -/
def releasing (s : Windowed) : Nat :=
  match s.transmission with
  | .sending (.releaseWindow window) => window
  | _ => 0

/-- The room of the messages that have been read, and have not been released in the link. -/
def unreleased (s : Windowed) : Nat := s.releasedWindowBuffer + s.releasedWindow + releasing s

/-- What is being sent is what the window and the storage allow. -/
def Allowed (d : Storage) (other : Nat) (s : Windowed) : Prop :=
  match s.transmission with
  | .idle => True
  | .writing size => size + 2 ≤ s.otherAvailableWindow ∧ size + 2 ≤ other
  | .sending (.message contents) =>
    contents.length + 2 ≤ s.otherAvailableWindow ∧ contents.length + 2 ≤ other
  | .sending (.init window) => window = ownWindow d
  | .sending (.initResponse window) => window = ownWindow d
  | .sending (.releaseWindow _) => True
  | .sent (.message contents) => contents.length + 2 ≤ other
  | .sent _ => True

structure Coherent (d : Storage) (other : Nat) (s : Windowed) : Prop where
  fresh : s.initialized = false → s.otherAvailableWindow = 0
  unsent : s.initialized = false → unreported s = 0
  small : s.otherAvailableWindow < 65536
  idle : s.sending = false → s.transmission = .idle
  reading : ∀ size, s.reader = some size → size ≤ s.receivedData.length
  requested : ∀ size, s.requestedSendMessageSize = some size → size + 2 < 65536
  allowed : Allowed d other s

theorem coherent_construct : Coherent d other (construct d) where
  fresh _ := rfl
  unsent _ := rfl
  small := Nat.zero_lt_succ _
  idle sending := by cases sending
  reading _ reader := by cases reader
  requested _ requested := by cases requested
  allowed := rfl

/-- An operation that neither uses window nor takes room of the own deque. -/
structure Keeps (s t : Windowed) : Prop where
  initialized : t.initialized = s.initialized
  credit : credit t = credit s
  pending : pending t ≤ pending s
  retained : t.pending + t.unreleased ≤ s.pending + s.unreleased

theorem Keeps.refl (s : Windowed) : Keeps s s := ⟨rfl, rfl, le_rfl, le_rfl⟩

theorem Keeps.trans {u : Windowed} (first : Keeps s t) (second : Keeps t u) : Keeps s u where
  initialized := second.initialized.trans first.initialized
  credit := second.credit.trans first.credit
  pending := second.pending.trans first.pending
  retained := second.retained.trans first.retained

/-- The outcomes of `setNextState`, with what each of them requires. -/
inductive NextState (d : Storage) (s : Windowed) : Windowed → Prop
  | busy (busy : s.sending = true) : NextState d s s
  | unread (free : s.sending = false) (due : s.sendInitResponse = true)
      (unread : s.receivedData ≠ []) : NextState d s s
  | initResponse (free : s.sending = false) (due : s.sendInitResponse = true)
      (empty : s.receivedData = []) :
      NextState d s
        { s with
          state := .sendingInitResponse
          sending := true
          transmission := .sending (.initResponse (availableWindow d s.receivedData))
          releasedWindow := 0
          sendInitResponse := false }
  | message (size : Nat) (free : s.sending = false)
      (pending : s.requestedSendMessageSize = some size)
      (fits : windowSize size ≤ s.otherAvailableWindow) :
      NextState d s
        { s with
          state := .sendingMessage
          sending := true
          transmission := .writing size
          requestedSendMessageSize := none }
  | releaseWindow (free : s.sending = false) (released : s.releasedWindow ≠ 0) :
      NextState d s
        { s with
          state := .sendingReleaseWindow
          sending := true
          transmission := .sending (.releaseWindow s.releasedWindow)
          releasedWindow := 0 }
  | operational (free : s.sending = false) (nothing : s.releasedWindow = 0) :
      NextState d s { s with state := .operational }

theorem releaseOrRest_outcome (free : s.sending = false) : NextState d s s.releaseOrRest := by
  unfold releaseOrRest
  split
  next released => exact .releaseWindow free released
  next nothing => exact .operational free (not_not.mp nothing)

theorem setNextState_outcome (d : Storage) (s : Windowed) : NextState d s (setNextState d s) := by
  unfold setNextState
  split
  next busy => exact .busy busy
  next free =>
    have free : s.sending = false := by simpa using free
    unfold selectNextState
    split
    next due =>
      split
      next empty => exact .initResponse free due empty
      next unread => exact .unread free due unread
    next =>
      split
      next size pending =>
        split
        next fits => exact .message size free pending fits
        next => exact releaseOrRest_outcome free
      next => exact releaseOrRest_outcome free

theorem credit_of_unreported {window : Nat} (same : s.otherAvailableWindow = window)
    (nothing : unreported s = 0) (small : window < 65536) : credit s = window := by
  rw [credit, nothing, same, sub16_zero small]

theorem Coherent.credit_of_free (coherent : Coherent d other s) (free : s.sending = false) :
    credit s = s.otherAvailableWindow := by
  apply credit_of_unreported rfl _ coherent.small
  simp only [unreported, coherent.idle free]

theorem Coherent.setNextState (coherent : Coherent d other s) (covered : credit s ≤ other) :
    Coherent d other (setNextState d s) := by
  have outcome := setNextState_outcome d s
  generalize Windowed.setNextState d s = next at outcome
  cases outcome with
  | busy | unread => exact coherent
  | initResponse free due empty =>
    exact ⟨coherent.fresh, fun _ => rfl, coherent.small, nofun, coherent.reading,
      coherent.requested, congrArg (availableWindow d) empty⟩
  | message size free pending fits =>
    rw [windowSize_eq (coherent.requested size pending)] at fits
    rw [coherent.credit_of_free free] at covered
    exact ⟨coherent.fresh, fun _ => rfl, coherent.small, nofun, coherent.reading, nofun, fits,
      fits.trans covered⟩
  | releaseWindow free =>
    exact ⟨coherent.fresh, fun _ => rfl, coherent.small, nofun, coherent.reading,
      coherent.requested, trivial⟩
  | operational free =>
    exact ⟨coherent.fresh, coherent.unsent, coherent.small, coherent.idle, coherent.reading,
      coherent.requested, coherent.allowed⟩

theorem Coherent.setNextState_keeps (coherent : Coherent d other s) :
    Keeps s (Windowed.setNextState d s) := by
  have outcome := setNextState_outcome d s
  generalize Windowed.setNextState d s = next at outcome
  cases outcome with
  | busy | unread => exact .refl s
  | initResponse free =>
    have idle := coherent.idle free
    refine ⟨rfl, by simp [credit, unreported, idle], le_rfl, ?_⟩
    simp only [pending, unreleased, releasing, idle]
    omega
  | message size free =>
    have idle := coherent.idle free
    exact ⟨rfl, by simp [credit, unreported, idle], le_rfl, by simp [pending, unreleased, releasing, idle]⟩
  | releaseWindow free =>
    have idle := coherent.idle free
    refine ⟨rfl, by simp [credit, unreported, idle], le_rfl, ?_⟩
    simp only [pending, unreleased, releasing, idle]
    omega
  | operational free => exact ⟨rfl, rfl, le_rfl, le_rfl⟩

variable {size : Nat} {releases : Bool} {message : Option Bytes}

theorem Coherent.requestSendMessage (coherent : Coherent d other s) (covered : credit s ≤ other)
    (small : size + 2 < 65536) :
    Coherent d other (s.requestSendMessage d size) ∧ Keeps s (s.requestSendMessage d size) := by
  have requested : Coherent d other { s with requestedSendMessageSize := some size } :=
    { coherent with requested := fun _ same => by cases same; exact small }
  have keeps : Keeps s { s with requestedSendMessageSize := some size } :=
    ⟨rfl, rfl, le_rfl, le_rfl⟩
  unfold Windowed.requestSendMessage
  split
  next => exact ⟨requested.setNextState covered, keeps.trans requested.setNextState_keeps⟩
  next => exact ⟨requested, keeps⟩

theorem Coherent.writeMessage (coherent : Coherent d other s) {contents : Bytes}
    (written : s.writeMessage contents = some t) : Coherent d other t ∧ Keeps s t := by
  unfold Windowed.writeMessage at written
  split at written
  next size writing =>
    split at written <;> cases written
    next within =>
      have allowed := coherent.allowed
      simp only [Allowed, writing] at allowed
      constructor
      · refine ⟨coherent.fresh, fun _ => rfl, coherent.small, fun free => ?_, coherent.reading,
          coherent.requested, (Nat.add_le_add_right within 2).trans allowed.1,
          (Nat.add_le_add_right within 2).trans allowed.2⟩
        have idle := coherent.idle free
        rw [writing] at idle
        cases idle
      · exact ⟨rfl, by simp [credit, unreported, writing], le_rfl,
          by simp [pending, unreleased, releasing, writing]⟩
  next => cases written

theorem Coherent.onSent (coherent : Coherent d other s) (covered : credit s ≤ other)
    (reported : s.onSent d = some t) : Coherent d other t ∧ Keeps s t := by
  unfold Windowed.onSent at reported
  split at reported <;> cases reported
  next packet sent =>
    have counted : credit s = sub16 s.otherAvailableWindow (charge packet) := by
      simp only [credit, unreported, sent]
    have small : sub16 s.otherAvailableWindow (charge packet) < 65536 := Nat.mod_lt _ (by decide)
    have keeps : Keeps s { s with
        otherAvailableWindow := sub16 s.otherAvailableWindow (charge packet)
        sending := false
        transmission := .idle } := by
      refine ⟨rfl, ?_, by simp [pending], by simp [pending, unreleased, releasing, sent]⟩
      rw [counted]
      exact credit_of_unreported rfl rfl small
    have free : Coherent d other { s with
        otherAvailableWindow := sub16 s.otherAvailableWindow (charge packet)
        sending := false
        transmission := .idle } := by
      refine ⟨fun fresh => ?_, fun _ => rfl, small, fun _ => rfl, coherent.reading,
        coherent.requested, trivial⟩
      have unsent := coherent.unsent fresh
      simp only [unreported, sent] at unsent
      show sub16 s.otherAvailableWindow (charge packet) = 0
      rw [unsent, coherent.fresh fresh]
      rfl
    exact ⟨free.setNextState (keeps.credit.trans_le covered), keeps.trans free.setNextState_keeps⟩

def granted : Packet Bytes → Nat
  | .releaseWindow window => window
  | _ => 0

/-- What a peer may send: its own window, and messages whose size is a `uint16_t` together
with the size in front. -/
def Sound (own : Nat) : Packet Bytes → Prop
  | .init window => window = own
  | .initResponse window => window = own
  | .releaseWindow _ => True
  | .message contents => contents.length + 2 < 65536

/-- What a packet on its way out is when it gets into the link. -/
structure GoesOut (d : Storage) (s t : Windowed) (packet : Packet Bytes) : Prop where
  sound : Sound (ownWindow d) packet
  initialized : t.initialized = s.initialized
  credit : credit t + charge packet = credit s
  pending : t.pending = s.pending
  unreleased : t.unreleased + granted packet = s.unreleased

theorem Coherent.transmitted (coherent : Coherent d other s) (limited : other < 65536)
    {packet : Packet Bytes} (out : s.transmitted = some (t, packet)) :
    Coherent d other t ∧ GoesOut d s t packet := by
  unfold Windowed.transmitted at out
  split at out <;> cases out
  next sending =>
    have allowed := coherent.allowed
    have busy : s.sending = false → { s with transmission := .sent packet }.transmission = .idle := by
      intro free
      have idle := coherent.idle free
      rw [sending] at idle
      cases idle
    have unreported : unreported s = 0 := by simp only [Windowed.unreported, sending]
    have before := credit_of_unreported rfl unreported coherent.small
    cases packet with
    | message contents =>
      simp only [Allowed, sending] at allowed
      have fits : contents.length + 2 < 65536 := by omega
      have charged : charge (.message contents) = contents.length + 2 := by
        rw [charge, windowSize_eq fits]
      constructor
      · refine ⟨coherent.fresh, fun fresh => ?_, coherent.small, busy, coherent.reading,
          coherent.requested, allowed.2⟩
        have := coherent.fresh fresh
        omega
      · refine ⟨fits, rfl, ?_, rfl, by simp [Windowed.unreleased, releasing, sending, granted]⟩
        simp only [credit, Windowed.unreported] at before ⊢
        rw [charged, sub16_eq coherent.small allowed.1, before]
        exact Nat.sub_add_cancel allowed.1
    | init window | initResponse window =>
      simp only [Allowed, sending] at allowed
      constructor
      · exact ⟨coherent.fresh, fun _ => rfl, coherent.small, busy, coherent.reading,
          coherent.requested, trivial⟩
      · refine ⟨allowed, rfl, ?_, rfl, by simp [Windowed.unreleased, releasing, sending, granted]⟩
        apply (Nat.add_zero _).trans
        rw [before]
        exact credit_of_unreported rfl rfl coherent.small
    | releaseWindow window =>
      constructor
      · exact ⟨coherent.fresh, fun _ => rfl, coherent.small, busy, coherent.reading,
          coherent.requested, trivial⟩
      · refine ⟨trivial, rfl, ?_, rfl, by simp [Windowed.unreleased, releasing, sending, granted]⟩
        apply (Nat.add_zero _).trans
        rw [before]
        exact credit_of_unreported rfl rfl coherent.small

theorem Coherent.notified (coherent : Coherent d other s) (notificationScheduled : Bool)
    (scheduled : List Scheduled) :
    Coherent d other { s with notificationScheduled, scheduled } :=
  ⟨coherent.fresh, coherent.unsent, coherent.small, coherent.idle, coherent.reading,
    coherent.requested, coherent.allowed⟩

theorem keeps_notified (s : Windowed) (notificationScheduled : Bool) (scheduled : List Scheduled) :
    Keeps s { s with notificationScheduled, scheduled } :=
  ⟨rfl, rfl, le_rfl, le_rfl⟩

theorem evaluateReceiveMessage_frame (s : Windowed) :
    ∃ notificationScheduled scheduled,
      s.evaluateReceiveMessage.1 = { s with notificationScheduled, scheduled } := by
  unfold evaluateReceiveMessage
  split <;> exact ⟨_, _, rfl⟩

theorem Coherent.evaluateReceiveMessage (coherent : Coherent d other s) :
    Coherent d other s.evaluateReceiveMessage.1 := by
  obtain ⟨notificationScheduled, scheduled, same⟩ := evaluateReceiveMessage_frame s
  rw [same]
  exact coherent.notified notificationScheduled scheduled

theorem keeps_evaluateReceiveMessage (s : Windowed) : Keeps s s.evaluateReceiveMessage.1 := by
  obtain ⟨notificationScheduled, scheduled, same⟩ := evaluateReceiveMessage_frame s
  rw [same]
  exact keeps_notified s notificationScheduled scheduled

theorem Coherent.readOn (coherent : Coherent d other s) (covered : credit s ≤ other) :
    let after := if s.evaluateReceiveMessage.2 then s.evaluateReceiveMessage.1
      else Windowed.setNextState d { s with
        releasedWindow := add16 s.releasedWindow s.releasedWindowBuffer
        releasedWindowBuffer := 0 }
    Coherent d other after ∧ Keeps s after := by
  intro after
  unfold after
  split
  next => exact ⟨coherent.evaluateReceiveMessage, keeps_evaluateReceiveMessage s⟩
  next =>
    have flushed : Coherent d other { s with
        releasedWindow := add16 s.releasedWindow s.releasedWindowBuffer
        releasedWindowBuffer := 0 } :=
      ⟨coherent.fresh, coherent.unsent, coherent.small, coherent.idle, coherent.reading,
        coherent.requested, coherent.allowed⟩
    have keeps : Keeps s { s with
        releasedWindow := add16 s.releasedWindow s.releasedWindowBuffer
        releasedWindowBuffer := 0 } := by
      have counted := add16_le s.releasedWindow s.releasedWindowBuffer
      refine ⟨rfl, rfl, le_rfl, ?_⟩
      simp only [pending, unreleased, releasing]
      omega
    exact ⟨flushed.setNextState covered, keeps.trans flushed.setNextState_keeps⟩

theorem Coherent.releaseReader (coherent : Coherent d other s) (covered : credit s ≤ other)
    (released : s.releaseReader d = some t) : Coherent d other t ∧ Keeps s t := by
  obtain ⟨size, held, rfl⟩ := Option.map_eq_some_iff.mp released
  have room := coherent.reading size held
  have popped : Coherent d other { s with
      reader := none
      receivedData := s.receivedData.drop size
      releasedWindowBuffer := add16 s.releasedWindowBuffer (size + 2) } :=
    { coherent with reading := nofun }
  have keeps : Keeps s { s with
      reader := none
      receivedData := s.receivedData.drop size
      releasedWindowBuffer := add16 s.releasedWindowBuffer (size + 2) } := by
    have counted := add16_le s.releasedWindowBuffer (size + 2)
    constructor
    · rfl
    · rfl
    all_goals
      simp only [pending, unreleased, releasing, held, length_drop, sizeTaken]
      omega
  have after := popped.readOn (keeps.credit.trans_le covered)
  exact ⟨after.1, keeps.trans after.2⟩

theorem completeMessage_le {receivedData : Bytes}
    (complete : completeMessage receivedData = some size) : size + 2 ≤ receivedData.length := by
  unfold completeMessage at complete
  split at complete
  next low high rest =>
    dsimp only at complete
    split at complete <;> cases complete
    next fits => simpa using fits
  next => cases complete

theorem Coherent.processReceivedMessage (coherent : Coherent d other s) (covered : credit s ≤ other)
    (processed : s.processReceivedMessage d releases = some (t, message)) :
    Coherent d other t ∧ Keeps s t := by
  unfold Windowed.processReceivedMessage at processed
  split at processed
  next size complete =>
    split at processed <;> cases processed
    next unread =>
      have room := completeMessage_le complete
      have reading : Coherent d other { s with
          receivedData := s.receivedData.drop 2
          reader := some size } := by
        refine { coherent with reading := fun held same => ?_ }
        cases same
        simp only [length_drop]
        omega
      have keeps : Keeps s { s with receivedData := s.receivedData.drop 2, reader := some size } := by
        constructor
        · rfl
        · rfl
        all_goals
          simp only [pending, unreleased, releasing, unread, length_drop, sizeTaken]
          omega
      generalize { s with receivedData := s.receivedData.drop 2, reader := some size } = next
        at reading keeps
      have returned : Coherent d other (if releases then (next.releaseReader d).getD next else next) ∧
          Keeps s (if releases then (next.releaseReader d).getD next else next) := by
        split
        next =>
          cases released : next.releaseReader d with
          | none => exact ⟨reading, keeps⟩
          | some after =>
            have left := reading.releaseReader (keeps.credit.trans_le covered) released
            exact ⟨left.1, keeps.trans left.2⟩
        next => exact ⟨reading, keeps⟩
      exact ⟨(returned.1.notified false _).evaluateReceiveMessage,
        returned.2.trans ((keeps_notified _ false _).trans (keeps_evaluateReceiveMessage _))⟩
  next =>
    cases processed
    exact ⟨(coherent.notified false _).evaluateReceiveMessage,
      (keeps_notified s false _).trans (keeps_evaluateReceiveMessage _)⟩

theorem Coherent.execute (coherent : Coherent d other s) (covered : credit s ≤ other)
    (executed : s.execute d releases = some (t, message)) : Coherent d other t ∧ Keeps s t := by
  unfold Windowed.execute at executed
  split at executed
  next => cases executed
  next rest _ =>
    cases executed
    exact ⟨coherent.notified _ rest, keeps_notified s _ rest⟩
  next rest _ =>
    cases executed
    have taken := coherent.notified s.notificationScheduled rest
    exact ⟨taken.setNextState covered, (keeps_notified s _ rest).trans taken.setNextState_keeps⟩
  next rest _ =>
    have done := (coherent.notified s.notificationScheduled rest).processReceivedMessage covered executed
    exact ⟨done.1, (keeps_notified s _ rest).trans done.2⟩

def taken : Packet Bytes → Nat
  | .message contents => contents.length + 2
  | _ => 0

def announcement : Packet Bytes → Option Nat
  | .init window => some window
  | .initResponse window => some window
  | _ => none

/-- What any packet that is received does to the deque. -/
structure Receives (s t : Windowed) (packet : Packet Bytes) : Prop where
  initialized : t.initialized = (s.initialized || (announcement packet).isSome)
  pending : t.pending = s.pending + if s.initialized then taken packet else 0
  unreleased : t.unreleased = s.unreleased

section

variable (coherent : Coherent d other s)

include coherent

theorem Coherent.unreported_le (limited : other < 65536) : unreported s ≤ other := by
  have allowed := coherent.allowed
  unfold unreported
  split
  next packet sent =>
    cases packet with
    | message contents =>
      simp only [Allowed, sent] at allowed
      rw [charge, windowSize_eq (by omega)]
      exact allowed
    | init | initResponse | releaseWindow => exact Nat.zero_le _
  next => exact Nat.zero_le _

variable {window : Nat}

theorem Coherent.widened (small : window < 65536)
    (wide : window = other ∨ (unreported s = 0 → s.otherAvailableWindow ≤ window)) :
    Coherent d other { s with initialized := true, otherAvailableWindow := window } := by
  refine ⟨nofun, nofun, small, coherent.idle, coherent.reading, coherent.requested, ?_⟩
  have allowed := coherent.allowed
  unfold Allowed at allowed ⊢
  cases same : s.transmission with
  | idle => trivial
  | writing size =>
    simp only [same] at allowed ⊢
    have room : size + 2 ≤ window := by
      rcases wide with rfl | wide
      · exact allowed.2
      · exact allowed.1.trans (wide (by simp only [unreported, same]))
    exact ⟨room, allowed.2⟩
  | sending packet =>
    cases packet with
    | message contents =>
      simp only [same] at allowed ⊢
      have room : contents.length + 2 ≤ window := by
        rcases wide with rfl | wide
        · exact allowed.2
        · exact allowed.1.trans (wide (by simp only [unreported, same]))
      exact ⟨room, allowed.2⟩
    | init | initResponse | releaseWindow => simpa only [same] using allowed
  | sent packet =>
    cases packet with
    | message contents | init | initResponse | releaseWindow => simpa only [same] using allowed

theorem Coherent.scheduled (actions : List Scheduled) : Coherent d other (s.schedule actions) :=
  coherent.notified s.notificationScheduled _

theorem Coherent.receivedAnnouncement (limited : other < 65536) {packet : Packet Bytes}
    (announced : announcement packet = some other)
    (received : s.receivedMessageOnInterrupt d packet = some t) :
    Coherent d other t ∧ Receives s t packet ∧ credit t + unreported s = other := by
  have widened := coherent.widened limited (.inl rfl)
  have counted : sub16 other (unreported s) + unreported s = other := by
    have small := coherent.unreported_le limited
    rw [sub16_eq limited small]
    exact Nat.sub_add_cancel small
  cases packet with
  | init window | initResponse window =>
    cases announced
    cases received
    refine ⟨?_, ⟨by simp [schedule, announcement], by simp [schedule, pending, taken], rfl⟩, counted⟩
    exact ⟨nofun, nofun, limited, widened.idle, widened.reading, widened.requested,
      widened.allowed⟩
  | releaseWindow | message => cases announced

theorem Coherent.receivedRelease (limited : other < 65536)
    (covered : s.initialized = true → credit s + window ≤ other)
    (received : s.receivedMessageOnInterrupt d (.releaseWindow window) = some t) :
    Coherent d other t ∧ Receives s t (.releaseWindow window) ∧
      credit t ≤ credit s + if s.initialized then window else 0 := by
  cases initialized : s.initialized with
  | false =>
    simp only [receivedMessageOnInterrupt, initialized, Bool.false_eq_true, if_false,
      Option.some.injEq] at received
    subst received
    exact ⟨coherent.scheduled _, ⟨by simp [schedule, announcement], by simp [schedule, pending, taken],
      rfl⟩, by simp [credit, unreported, schedule]⟩
  | true =>
    simp only [receivedMessageOnInterrupt, initialized, if_true, Option.some.injEq] at received
    subst received
    have covered := covered initialized
    have small : add16 s.otherAvailableWindow window < 65536 := Nat.mod_lt _ (by decide)
    have widened := coherent.widened small (.inr fun nothing => by
      rw [credit_of_unreported rfl nothing coherent.small] at covered
      rw [add16_eq (by omega)]
      exact Nat.le_add_right _ _)
    refine ⟨?_, ⟨by simp [schedule, announcement, initialized], by simp [schedule, pending, taken],
      rfl⟩, ?_⟩
    · refine ⟨fun fresh => ?_, fun fresh => ?_, small, widened.idle, widened.reading,
        widened.requested, widened.allowed⟩
      all_goals
        simp only [schedule, initialized] at fresh
        cases fresh
    · rw [if_pos rfl]
      exact sub16_add16_le s.otherAvailableWindow (unreported s) window

theorem Coherent.receivedMessage {contents : Bytes} (small : contents.length + 2 < 65536)
    (received : s.receivedMessageOnInterrupt d (.message contents) = some t) :
    Coherent d other t ∧ Receives s t (.message contents) ∧ credit t = credit s := by
  cases initialized : s.initialized with
  | false =>
    simp only [receivedMessageOnInterrupt, initialized, Bool.false_eq_true, if_false,
      Option.some.injEq] at received
    subst received
    exact ⟨coherent.scheduled _, ⟨by simp [schedule, announcement],
      by simp [schedule, pending, initialized], rfl⟩, rfl⟩
  | true =>
    simp only [receivedMessageOnInterrupt, initialized, if_true] at received
    obtain ⟨next, pushed, rfl⟩ := Option.map_eq_some_iff.mp received
    unfold Windowed.receivedMessage at pushed
    dsimp only at pushed
    split at pushed <;> cases pushed
    have whole : contents.length % 65536 = contents.length := Nat.mod_eq_of_lt (by omega)
    obtain ⟨notificationScheduled, scheduled, same⟩ := evaluateReceiveMessage_frame
      { s with
        receivedData := s.receivedData ++
          (stored (contents.length % 65536) ++ contents.take (contents.length % 65536)) }
    rw [same, whole, take_length]
    refine ⟨⟨coherent.fresh, coherent.unsent, coherent.small, coherent.idle, fun size held => ?_,
      coherent.requested, coherent.allowed⟩, ⟨?_, ?_, rfl⟩, rfl⟩
    · have room := coherent.reading size held
      simp only [schedule, length_append]
      omega
    · simp [schedule, announcement]
    · simp only [schedule, pending, stored, taken, initialized, if_true, length_append,
        length_cons, length_nil]
      omega

end

end Windowed

end MessageCommunication
