import EmbeddedInfra.MessageCommunication.WindowedCredit

/-! Messages pass the deque and the link unchanged: what a side has sent is what the other
side has received, with what waits in its deque and what is in flight. -/

namespace MessageCommunication

open List Function
open Option (map_eq_some_iff)

open Sesame (Side Packet add16 sub16)
open Windowed

/-- The messages that are in a deque as a whole, `fuel` of them at most. -/
def messagesIn : Nat → Bytes → List Bytes
  | 0, _ => []
  | fuel + 1, data =>
    match completeMessage data with
    | some size => (data.drop 2).take size :: messagesIn fuel (data.drop (2 + size))
    | none => []

/-- The messages that wait behind the one that is being read. -/
def Windowed.waiting (s : Windowed) : List Bytes :=
  messagesIn s.receivedData.length (s.receivedData.drop (s.reader.getD 0))

def framed (contents : Bytes) : Bytes := stored contents.length ++ contents

theorem completeMessage_framed {contents : Bytes} (small : contents.length < 65536) (rest : Bytes) :
    completeMessage (framed contents ++ rest) = some contents.length := by
  have low : (UInt8.ofNat contents.length).toNat = contents.length % 256 := rfl
  have high : (UInt8.ofNat (contents.length / 256)).toNat = contents.length / 256 % 256 := rfl
  have size : contents.length % 256 + 256 * (contents.length / 256 % 256) = contents.length := by omega
  simp only [framed, stored, cons_append, nil_append, completeMessage, low, high, size]
  rw [if_pos (by simp)]

theorem messagesIn_frames {messages : List Bytes}
    (small : ∀ contents ∈ messages, contents.length < 65536) {fuel : Nat}
    (enough : (messages.flatMap framed).length ≤ fuel) :
    messagesIn fuel (messages.flatMap framed) = messages := by
  induction messages generalizing fuel with
  | nil => cases fuel <;> rfl
  | cons first rest ih =>
    simp only [flatMap_cons, length_append, framed, stored, length_cons,
      length_nil] at enough
    cases fuel with
    | zero => omega
    | succ fuel =>
      have complete := completeMessage_framed (small first mem_cons_self) (rest.flatMap framed)
      have behind : (framed first ++ rest.flatMap framed).drop 2 = first ++ rest.flatMap framed := rfl
      have later : (framed first ++ rest.flatMap framed).drop (2 + first.length) =
          rest.flatMap framed := by
        rw [← drop_drop, behind, drop_left]
      rw [flatMap_cons, messagesIn, complete]
      simp only [behind, later, take_left]
      rw [ih (fun contents member => small contents (mem_cons_of_mem _ member)) (by omega)]

namespace Windowed

variable {d : Storage} {other : Nat} {s t : Windowed} {waiting : List Bytes}

/-- Behind the message that is being read the deque holds the waiting ones. -/
structure Framed (s : Windowed) (waiting : List Bytes) : Prop where
  frames : s.receivedData.drop (s.reader.getD 0) = waiting.flatMap framed
  small : ∀ contents ∈ waiting, contents.length < 65536

theorem Framed.waiting_eq (framed : Framed s waiting) : s.waiting = waiting := by
  have short : (waiting.flatMap MessageCommunication.framed).length ≤ s.receivedData.length := by
    rw [← framed.frames, length_drop]
    exact Nat.sub_le _ _
  rw [Windowed.waiting, framed.frames]
  exact messagesIn_frames framed.small short

theorem Framed.congr (framed : Framed s waiting) (data : t.receivedData = s.receivedData)
    (reader : t.reader = s.reader) : Framed t waiting := by
  refine ⟨?_, framed.small⟩
  rw [data, reader]
  exact framed.frames

theorem setNextState_data (d : Storage) (s : Windowed) :
    (setNextState d s).receivedData = s.receivedData ∧ (setNextState d s).reader = s.reader := by
  have outcome := setNextState_outcome d s
  generalize setNextState d s = next at outcome
  cases outcome <;> exact ⟨rfl, rfl⟩

theorem Framed.setNextState (framed : Framed s waiting) : Framed (setNextState d s) waiting :=
  framed.congr (setNextState_data d s).1 (setNextState_data d s).2

theorem evaluateReceiveMessage_data (s : Windowed) :
    s.evaluateReceiveMessage.1.receivedData = s.receivedData ∧
      s.evaluateReceiveMessage.1.reader = s.reader := by
  obtain ⟨notificationScheduled, scheduled, same⟩ := evaluateReceiveMessage_frame s
  rw [same]
  exact ⟨rfl, rfl⟩

section

variable (framed : Framed s waiting)

include framed

theorem Framed.evaluateReceiveMessage : Framed s.evaluateReceiveMessage.1 waiting :=
  framed.congr (evaluateReceiveMessage_data s).1 (evaluateReceiveMessage_data s).2

theorem Framed.requestSendMessage (size : Nat) : Framed (s.requestSendMessage d size) waiting := by
  have requested : Framed { s with requestedSendMessageSize := some size } waiting :=
    ⟨framed.frames, framed.small⟩
  unfold Windowed.requestSendMessage
  split
  · exact requested.setNextState
  · exact requested

theorem Framed.writeMessage {contents : Bytes} (written : s.writeMessage contents = some t) :
    Framed t waiting := by
  unfold Windowed.writeMessage at written
  split at written
  next => split at written <;> cases written; exact ⟨framed.frames, framed.small⟩
  next => cases written

variable {packet : Packet Bytes} {releases : Bool} {message : Option Bytes}

theorem Framed.transmitted (out : s.transmitted = some (t, packet)) : Framed t waiting := by
  unfold Windowed.transmitted at out
  split at out <;> cases out
  exact ⟨framed.frames, framed.small⟩

theorem Framed.onSent (reported : s.onSent d = some t) : Framed t waiting := by
  unfold Windowed.onSent at reported
  split at reported <;> cases reported
  exact Framed.setNextState ⟨framed.frames, framed.small⟩

theorem Framed.releaseReader (released : s.releaseReader d = some t) : Framed t waiting := by
  obtain ⟨size, held, rfl⟩ := map_eq_some_iff.mp released
  have popped : Framed { s with
      reader := none
      receivedData := s.receivedData.drop size
      releasedWindowBuffer := add16 s.releasedWindowBuffer (size + 2) } waiting := by
    have frames := framed.frames
    rw [held] at frames
    exact ⟨frames, framed.small⟩
  dsimp only
  split
  · exact popped.evaluateReceiveMessage
  · exact Framed.setNextState ⟨popped.frames, popped.small⟩

theorem Framed.processReceivedMessage
    (processed : s.processReceivedMessage d releases = some (t, message)) :
    ∃ left, Framed t left ∧ waiting = message.toList ++ left := by
  unfold Windowed.processReceivedMessage at processed
  split at processed
  next size complete =>
    split at processed <;> cases processed
    next unread =>
      have frames := framed.frames
      rw [unread, Option.getD_none, drop_zero] at frames
      cases waiting with
      | nil =>
        rw [frames] at complete
        cases complete
      | cons first left =>
        have small := framed.small first mem_cons_self
        rw [flatMap_cons] at frames
        rw [frames, completeMessage_framed small] at complete
        cases complete
        have behind : s.receivedData.drop 2 = first ++ left.flatMap MessageCommunication.framed := by
          rw [frames]
          rfl
        have reading : Framed { s with
            receivedData := s.receivedData.drop 2
            reader := some first.length } left := by
          refine ⟨?_, fun contents member => framed.small contents (mem_cons_of_mem _ member)⟩
          simp only [behind, Option.getD_some, drop_left]
        have contents : (s.receivedData.drop 2).take first.length = first := by
          rw [behind, take_left]
        refine ⟨left, ?_, by rw [contents]; rfl⟩
        apply Framed.evaluateReceiveMessage
        split
        next =>
          cases released : Windowed.releaseReader d { s with
              receivedData := s.receivedData.drop 2
              reader := some first.length } with
          | none => exact ⟨reading.frames, reading.small⟩
          | some after =>
            have returned := reading.releaseReader released
            exact ⟨returned.frames, returned.small⟩
        next => exact ⟨reading.frames, reading.small⟩
  next =>
    cases processed
    exact ⟨waiting, Framed.evaluateReceiveMessage ⟨framed.frames, framed.small⟩, rfl⟩

theorem Framed.execute (executed : s.execute d releases = some (t, message)) :
    ∃ left, Framed t left ∧ waiting = message.toList ++ left := by
  unfold Windowed.execute at executed
  split at executed
  next => cases executed
  next =>
    cases executed
    exact ⟨waiting, ⟨framed.frames, framed.small⟩, rfl⟩
  next rest _ =>
    cases executed
    exact ⟨waiting, Framed.setNextState ⟨framed.frames, framed.small⟩, rfl⟩
  next rest _ =>
    have taken : Framed { s with scheduled := rest } waiting := ⟨framed.frames, framed.small⟩
    exact taken.processReceivedMessage executed

theorem Framed.receivedFresh (fresh : s.initialized = false)
    (received : s.receivedMessageOnInterrupt d packet = some t) :
    Framed t waiting := by
  cases packet with
  | init | initResponse =>
    cases received
    exact ⟨framed.frames, framed.small⟩
  | releaseWindow | message =>
    simp only [receivedMessageOnInterrupt, fresh, Bool.false_eq_true, if_false,
      Option.some.injEq] at received
    subst received
    exact ⟨framed.frames, framed.small⟩

end

theorem Framed.received (framed : Framed s waiting) (coherent : Coherent d other s)
    (initialized : s.initialized = true) {own : Nat} {packet : Packet Bytes} (sound : Sound own packet)
    (received : s.receivedMessageOnInterrupt d packet = some t) :
    Framed t (waiting ++ messageOf packet) := by
  cases packet with
  | init window | initResponse window =>
    cases received
    simp only [messageOf, append_nil]
    exact ⟨framed.frames, framed.small⟩
  | releaseWindow window =>
    simp only [receivedMessageOnInterrupt, initialized, if_true, Option.some.injEq] at received
    subst received
    simp only [messageOf, append_nil]
    exact ⟨framed.frames, framed.small⟩
  | message contents =>
    simp only [receivedMessageOnInterrupt, initialized, if_true] at received
    obtain ⟨next, pushed, rfl⟩ := map_eq_some_iff.mp received
    unfold Windowed.receivedMessage at pushed
    dsimp only at pushed
    split at pushed <;> cases pushed
    have small : contents.length < 65536 := by
      have sound : contents.length + 2 < 65536 := sound
      omega
    have whole : contents.length % 65536 = contents.length := Nat.mod_eq_of_lt small
    have stored : Framed { s with
        receivedData := s.receivedData ++
          (stored (contents.length % 65536) ++ contents.take (contents.length % 65536)) }
        (waiting ++ [contents]) := by
      constructor
      · have room : s.reader.getD 0 ≤ s.receivedData.length := by
          cases held : s.reader with
          | none => exact Nat.zero_le _
          | some size => exact coherent.reading size held
        simp only [whole, take_length, drop_append_of_le_length room, framed.frames,
          flatMap_append, flatMap_cons, flatMap_nil, append_nil]
        rfl
      · intro message member
        rcases mem_append.mp member with member | member
        · exact framed.small message member
        · rw [mem_singleton.mp member]
          exact small
    have evaluated := stored.evaluateReceiveMessage
    exact ⟨evaluated.frames, evaluated.small⟩

end Windowed

namespace Connection

variable {d : Side → Storage} {s t : Connection} {p : Side} {window : Nat}

def inFlight (s : Connection) (p : Side) : List Bytes := (s.link p).flatMap messageOf

/-- The messages of side `p` that the other side has received, those that wait in its deque
and those in flight. -/
def account (s : Connection) (p : Side) : List Bytes :=
  s.received p.other ++ ((s.peer p.other).waiting ++ s.inFlight p)

/-- A step of a run that goes on without a restart. -/
def Continues (s : Connection) (a : Action) : Prop := Counted s a ∧ ∀ p, a ≠ .restart p

@[simp] theorem setPeer_sent (s : Connection) (p : Side) (peer : Windowed) :
    (s.setPeer p peer).sent = s.sent := rfl

@[simp] theorem setPeer_received (s : Connection) (p : Side) (peer : Windowed) :
    (s.setPeer p peer).received = s.received := rfl

@[simp] theorem setLink_sent (s : Connection) (p : Side) (link : List (Packet Bytes)) :
    (s.setLink p link).sent = s.sent := rfl

@[simp] theorem setLink_received (s : Connection) (p : Side) (link : List (Packet Bytes)) :
    (s.setLink p link).received = s.received := rfl

def BothFramed (s : Connection) : Prop := ∀ p, ∃ waiting, Framed (s.peer p) waiting

/-- What a step without a restart keeps, once both sides are initialized. -/
structure Conserves (s t : Connection) : Prop where
  framed : BothFramed t
  initialized : ∀ p, (t.peer p).initialized = true
  accounts : ∀ p, ∃ sent, t.sent p = s.sent p ++ sent ∧ t.account p = s.account p ++ sent

theorem Conserves.trans {u : Connection} (first : Conserves s t) (second : Conserves t u) :
    Conserves s u where
  framed := second.framed
  initialized := second.initialized
  accounts p := by
    obtain ⟨early, sent, account⟩ := first.accounts p
    obtain ⟨late, sentLate, accountLate⟩ := second.accounts p
    refine ⟨early ++ late, ?_, ?_⟩
    · rw [sentLate, sent, append_assoc]
    · rw [accountLate, account, append_assoc]

variable {peer : Windowed}

theorem conserves_setPeer {p : Side} {waiting : List Bytes} (framed : BothFramed s)
    (initialized : ∀ r, (s.peer r).initialized = true) (before : Framed (s.peer p) waiting)
    (after : Framed peer waiting) (same : peer.initialized = (s.peer p).initialized) :
    Conserves s (s.setPeer p peer) := by
  have waits (r : Side) : ((s.setPeer p peer).peer r).waiting = (s.peer r).waiting := by
    rcases Side.eq_or_other p r with rfl | rfl
    · rw [setPeer_peer, after.waiting_eq, before.waiting_eq]
    · rw [setPeer_peer_other]
  refine ⟨fun r => ?_, fun r => ?_, fun r => ⟨[], by simp, ?_⟩⟩
  · rcases Side.eq_or_other p r with rfl | rfl
    · exact ⟨waiting, by rwa [setPeer_peer]⟩
    · rw [setPeer_peer_other]
      exact framed p.other
  · rcases Side.eq_or_other p r with rfl | rfl
    · rw [setPeer_peer, same, initialized r]
    · rw [setPeer_peer_other, initialized p.other]
  · rw [account, account, waits, append_nil]
    rfl

@[simp] theorem logSent_sent (s : Connection) (p : Side) (messages : List Bytes) :
    (s.logSent p messages).sent p = s.sent p ++ messages := update_self ..

@[simp] theorem logSent_sent_other (s : Connection) (p : Side) (messages : List Bytes) :
    (s.logSent p messages).sent p.other = s.sent p.other :=
  update_of_ne (Side.other_ne p) ..

@[simp] theorem logSent_received (s : Connection) (p : Side) (messages : List Bytes) :
    (s.logSent p messages).received = s.received := rfl

@[simp] theorem logReceived_sent (s : Connection) (p : Side) (messages : List Bytes) :
    (s.logReceived p messages).sent = s.sent := rfl

@[simp] theorem logReceived_received (s : Connection) (p : Side) (messages : List Bytes) :
    (s.logReceived p messages).received p = s.received p ++ messages := update_self ..

@[simp] theorem logReceived_received_other (s : Connection) (p : Side) (messages : List Bytes) :
    (s.logReceived p messages).received p.other = s.received p.other :=
  update_of_ne (Side.other_ne p) ..

variable {packet : Packet Bytes} {a : Action}

theorem conserves_out {p : Side} (kept : Conserves s (s.setPeer p peer)) :
    Conserves s (((s.setPeer p peer).setLink p (s.link p ++ [packet])).logSent p (messageOf packet)) := by
  refine ⟨kept.framed, kept.initialized, fun r => ?_⟩
  obtain ⟨sent, counted, account⟩ := kept.accounts r
  rcases Side.eq_or_other p r with rfl | rfl
  · have nothing : sent = [] := by simpa using counted
    subst nothing
    refine ⟨messageOf packet, by simp, ?_⟩
    have same := account
    simp only [Connection.account, inFlight, setPeer_received, setPeer_link, append_nil] at same ⊢
    simp only [logSent_received, setLink_received, setPeer_received, logSent_peer, setLink_peer,
      logSent_link, setLink_link, flatMap_append, flatMap_cons, flatMap_nil,
      append_nil]
    rw [← append_assoc, ← append_assoc, append_assoc (s.received _), same]
  · refine ⟨sent, by simpa using counted, ?_⟩
    simpa [Connection.account, inFlight] using account

theorem conserves_received {p : Side} {rest : List (Packet Bytes)} {waiting : List Bytes}
    (framed : BothFramed s) (initialized : ∀ r, (s.peer r).initialized = true)
    (oldest : s.link p.other = packet :: rest) (before : Framed (s.peer p) waiting)
    (after : Framed peer (waiting ++ messageOf packet)) (started : peer.initialized = true) :
    Conserves s ((s.setPeer p peer).setLink p.other rest) := by
  refine ⟨fun r => ?_, fun r => ?_, fun r => ⟨[], by simp, ?_⟩⟩
  · rcases Side.eq_or_other p r with rfl | rfl
    · exact ⟨_, by rwa [setLink_peer, setPeer_peer]⟩
    · rw [setLink_peer, setPeer_peer_other]
      exact framed p.other
  · rcases Side.eq_or_other p r with rfl | rfl
    · rwa [setLink_peer, setPeer_peer]
    · rw [setLink_peer, setPeer_peer_other, initialized p.other]
  · rcases Side.eq_or_other p r with rfl | rfl
    · simp [account, inFlight]
    · simp [account, inFlight, oldest, after.waiting_eq, before.waiting_eq]

theorem conserves_execute {p : Side} {message : Option Bytes} {left : List Bytes}
    (framed : BothFramed s) (initialized : ∀ r, (s.peer r).initialized = true)
    (before : Framed (s.peer p) (message.toList ++ left)) (after : Framed peer left)
    (same : peer.initialized = (s.peer p).initialized) :
    Conserves s ((s.setPeer p peer).logReceived p message.toList) := by
  refine ⟨fun r => ?_, fun r => ?_, fun r => ⟨[], by simp, ?_⟩⟩
  · rcases Side.eq_or_other p r with rfl | rfl
    · exact ⟨left, by rwa [logReceived_peer, setPeer_peer]⟩
    · rw [logReceived_peer, setPeer_peer_other]
      exact framed p.other
  · rcases Side.eq_or_other p r with rfl | rfl
    · rw [logReceived_peer, setPeer_peer, same, initialized r]
    · rw [logReceived_peer, setPeer_peer_other, initialized p.other]
  · rcases Side.eq_or_other p r with rfl | rfl
    · simp [account, inFlight]
    · simp [account, inFlight, after.waiting_eq, before.waiting_eq]

theorem conserves_step (steady : ∀ r, Steady d s r) (framed : BothFramed s)
    (initialized : ∀ r, (s.peer r).initialized = true) (continues : Continues s a)
    (taken : step d s a = some t) : Conserves s t := by
  obtain ⟨counted, goesOn⟩ := continues
  cases a with
  | requestSendMessage p size =>
    simp only [step] at taken
    split at taken <;> cases taken
    obtain ⟨waiting, before⟩ := framed p
    have kept := (steady p).coherent.requestSendMessage (steady p).covered.credit_le counted
    exact conserves_setPeer framed initialized before (before.requestSendMessage size)
      kept.2.initialized
  | writeMessage p contents =>
    obtain ⟨peer, written, rfl⟩ := map_eq_some_iff.mp taken
    obtain ⟨waiting, before⟩ := framed p
    have kept := (steady p).coherent.writeMessage written
    exact conserves_setPeer framed initialized before (before.writeMessage written)
      kept.2.initialized
  | transmitted p =>
    obtain ⟨⟨peer, packet⟩, out, rfl⟩ := map_eq_some_iff.mp taken
    obtain ⟨waiting, before⟩ := framed p
    have gone := (steady p).coherent.transmitted ownWindow_lt out
    exact conserves_out (conserves_setPeer framed initialized before (before.transmitted out)
      gone.2.initialized)
  | onSent p =>
    obtain ⟨peer, reported, rfl⟩ := map_eq_some_iff.mp taken
    obtain ⟨waiting, before⟩ := framed p
    have kept := (steady p).coherent.onSent (steady p).covered.credit_le reported
    exact conserves_setPeer framed initialized before (before.onSent reported) kept.2.initialized
  | deliver p =>
    simp only [step] at taken
    split at taken
    next => cases taken
    next packet rest oldest =>
      obtain ⟨peer, received, rfl⟩ := map_eq_some_iff.mp taken
      obtain ⟨waiting, before⟩ := framed p
      obtain ⟨_, receives, _⟩ := received_covered steady oldest counted received
      have sound : Sound (ownWindow (d p.other)) packet := by
        apply (steady p.other).sound
        rw [oldest]
        exact mem_cons_self
      have after := before.received (steady p).coherent (initialized p) sound received
      apply conserves_received framed initialized oldest before after
      rw [receives.initialized, initialized p, Bool.true_or]
  | execute p releases =>
    obtain ⟨⟨peer, message⟩, executed, rfl⟩ := map_eq_some_iff.mp taken
    obtain ⟨waiting, before⟩ := framed p
    have kept := (steady p).coherent.execute (steady p).covered.credit_le executed
    obtain ⟨left, after, rfl⟩ := before.execute executed
    exact conserves_execute framed initialized before after kept.2.initialized
  | releaseReader p =>
    obtain ⟨peer, released, rfl⟩ := map_eq_some_iff.mp taken
    obtain ⟨waiting, before⟩ := framed p
    have kept := (steady p).coherent.releaseReader (steady p).covered.credit_le released
    exact conserves_setPeer framed initialized before (before.releaseReader released)
      kept.2.initialized
  | restart p => exact absurd rfl (goesOn p)

theorem bothFramed_setPeer {p : Side} {waiting : List Bytes} (framed : BothFramed s)
    (after : Framed peer waiting) : BothFramed (s.setPeer p peer) := by
  intro r
  rcases Side.eq_or_other p r with rfl | rfl
  · exact ⟨waiting, by rwa [setPeer_peer]⟩
  · rw [setPeer_peer_other]
    exact framed p.other

theorem bothFramed_step (steady : ∀ r, Steady d s r) (framed : BothFramed s)
    (taken : step d s a = some t) : BothFramed t := by
  cases a with
  | requestSendMessage p size =>
    simp only [step] at taken
    split at taken <;> cases taken
    obtain ⟨waiting, before⟩ := framed p
    exact bothFramed_setPeer framed (before.requestSendMessage size)
  | writeMessage p contents =>
    obtain ⟨peer, written, rfl⟩ := map_eq_some_iff.mp taken
    obtain ⟨waiting, before⟩ := framed p
    exact bothFramed_setPeer framed (before.writeMessage written)
  | transmitted p =>
    obtain ⟨⟨peer, packet⟩, out, rfl⟩ := map_eq_some_iff.mp taken
    obtain ⟨waiting, before⟩ := framed p
    exact bothFramed_setPeer framed (before.transmitted out)
  | onSent p =>
    obtain ⟨peer, reported, rfl⟩ := map_eq_some_iff.mp taken
    obtain ⟨waiting, before⟩ := framed p
    exact bothFramed_setPeer framed (before.onSent reported)
  | deliver p =>
    simp only [step] at taken
    split at taken
    next => cases taken
    next packet rest oldest =>
      obtain ⟨peer, received, rfl⟩ := map_eq_some_iff.mp taken
      obtain ⟨waiting, before⟩ := framed p
      cases initialized : (s.peer p).initialized with
      | false => exact bothFramed_setPeer framed (before.receivedFresh initialized received)
      | true =>
        have sound : Sound (ownWindow (d p.other)) packet := by
          apply (steady p.other).sound
          rw [oldest]
          exact mem_cons_self
        exact bothFramed_setPeer framed
          (before.received (steady p).coherent initialized sound received)
  | execute p releases =>
    obtain ⟨⟨peer, message⟩, executed, rfl⟩ := map_eq_some_iff.mp taken
    obtain ⟨waiting, before⟩ := framed p
    obtain ⟨left, after, rfl⟩ := before.execute executed
    exact bothFramed_setPeer framed after
  | releaseReader p =>
    obtain ⟨peer, released, rfl⟩ := map_eq_some_iff.mp taken
    obtain ⟨waiting, before⟩ := framed p
    exact bothFramed_setPeer framed (before.releaseReader released)
  | restart p =>
    cases taken
    have empty : Framed (Windowed.construct (d p)) [] := ⟨rfl, fun _ member => by cases member⟩
    exact bothFramed_setPeer framed empty

theorem bothFramed_reachable (reached : Runs.Reachable (step d) Counted (construct d) s) :
    BothFramed s := by
  induction reached with
  | refl => exact fun _ => ⟨[], rfl, fun _ member => by cases member⟩
  | tail a front meets last ih => exact bothFramed_step (steady_reachable front) ih last

theorem conserves_reachable (reached : Runs.Reachable (step d) Counted (construct d) s)
    (initialized : ∀ p, (s.peer p).initialized = true)
    (goesOn : Runs.Reachable (step d) Continues s t) : Conserves s t := by
  induction goesOn with
  | refl => exact ⟨bothFramed_reachable reached, initialized, fun _ => ⟨[], by simp, by simp⟩⟩
  | tail a front meets last ih =>
    have counted := reached.trans (front.mono fun _ _ continues => continues.1)
    exact ih.trans (conserves_step (steady_reachable counted) ih.framed ih.initialized meets last)

/-- A window that is still counted with the message that is out is at most the rest and
that message. -/
theorem otherAvailableWindow_le (coherent : Coherent (d p) window (s.peer p))
    (limited : window < 65536) :
    (s.peer p).otherAvailableWindow ≤ (s.peer p).credit + (s.peer p).unreported := by
  have small := coherent.small
  have least := coherent.unreported_le limited
  simp only [credit, sub16]
  omega

/-- The next message that a peer receives passes the assertions on the room of its deque. -/
def NextMessageFits (d : Side → Storage) (s : Connection) (p : Side) : Prop :=
  ∀ packet rest, s.link p.other = packet :: rest →
    ((s.peer p).receivedMessageOnInterrupt (d p) packet).isSome = true

theorem nextMessageFits (steady : ∀ r, Steady d s r) (p : Side) : NextMessageFits d s p := by
  intro packet rest oldest
  cases packet with
  | init | initResponse => rfl
  | releaseWindow window =>
    simp only [receivedMessageOnInterrupt]
    split <;> rfl
  | message contents =>
    cases initialized : (s.peer p).initialized with
    | false => simp [receivedMessageOnInterrupt, initialized]
    | true =>
      have covered := (steady p.other).covered
      unfold Covered at covered
      rw [oldest, Side.other_other, initialized] at covered
      simp only [arriving, if_true, taken, pending] at covered
      have room := ownWindow_le (d := d p)
      have fits : contents.length % 65536 + 2 ≤ (d p).maxSize - (s.peer p).receivedData.length := by
        have least := Nat.mod_le contents.length 65536
        omega
      simp only [receivedMessageOnInterrupt, initialized, if_true, Windowed.receivedMessage]
      rw [if_pos fits]
      rfl

/-- As long as windows are announced in time, the window of a sender is within the free room
of the receiver less what is in flight, no assertion on that room fails, and no message is
lost or duplicated between peers that are both initialized. -/
theorem window_never_exceeded (reached : Runs.Reachable (step d) Counted (construct d) s) :
    (∀ p, (s.peer p).otherAvailableWindow + arriving (s.peer p.other).initialized (s.link p) +
        (s.peer p.other).receivedData.length ≤ (d p.other).maxSize + (s.peer p).unreported) ∧
      (∀ p, NextMessageFits d s p) ∧
      ((∀ p, (s.peer p).initialized = true) → ∀ t, Runs.Reachable (step d) Continues s t →
        ∀ p, ∃ sent, t.sent p = s.sent p ++ sent ∧ t.account p = s.account p ++ sent) := by
  have steady := steady_reachable reached
  refine ⟨fun p => ?_, nextMessageFits steady, fun initialized t goesOn =>
    (conserves_reachable reached initialized goesOn).accounts⟩
  have covered := (steady p).covered
  have counted := otherAvailableWindow_le (steady p).coherent ownWindow_lt
  have room := ownWindow_le (d := d p.other)
  unfold Covered at covered
  simp only [pending] at covered
  omega

/-- Deques of eight bytes, which hold one message of four. -/
def smallStorage : Side → Storage := fun _ => ⟨8, 7, by decide⟩

def goesOut (p : Side) : List Action := [.transmitted p, .onSent p]

def announcedTo (p : Side) : List Action := [.deliver p, .execute p false, .execute p false]

def sendsMessage (p : Side) (contents : Bytes) : List Action :=
  [.requestSendMessage p contents.length, .writeMessage p contents] ++ goesOut p

/-- Both sides announce themselves, and the left one has answered and sends a message
before the answer of the right one reaches it. -/
def answeredLate : List Action :=
  goesOut .left ++ goesOut .right ++ announcedTo .left ++ goesOut .left ++ announcedTo .right ++
    goesOut .right ++ sendsMessage .left [1, 2, 3, 4] ++ [.deliver .right, .deliver .right,
      .deliver .left] ++ sendsMessage .left [5, 6, 7, 8]

def answeredInTime : List Action :=
  goesOut .left ++ goesOut .right ++ announcedTo .left ++ goesOut .left ++ announcedTo .right ++
    goesOut .right ++ [.deliver .right, .deliver .left] ++ sendsMessage .left [1, 2, 3, 4]

open Runs in
theorem window_never_exceeded_answeredInTime : ∃ s,
    Reachable (step smallStorage) Counted (construct smallStorage) s ∧
      s.inFlight .left = [[1, 2, 3, 4]] ∧ (∀ p, NextMessageFits smallStorage s p) := by
  obtain ⟨s, reached, shown⟩ := exists_of_executeIf Counted (step smallStorage)
    (construct smallStorage) answeredInTime (fun s => s.inFlight .left == [[1, 2, 3, 4]])
    (by decide +kernel)
  exact ⟨s, reached, beq_iff_eq.mp shown, (window_never_exceeded reached).2.1⟩

open Runs in
/-- The window that the late answer announces has been used already. -/
theorem window_exceeded_answeredLate : ¬ ∀ s,
    Reachable (step smallStorage) anyStep (construct smallStorage) s →
      (∀ p, (s.peer p).otherAvailableWindow + arriving (s.peer p.other).initialized (s.link p) +
        (s.peer p.other).receivedData.length ≤ (smallStorage p.other).maxSize +
          (s.peer p).unreported) ∧ ∀ p, NextMessageFits smallStorage s p := by
  intro holds
  obtain ⟨s, reached, shown⟩ := exists_of_execute (step smallStorage) (construct smallStorage)
    answeredLate (fun s => (s.link .left).head?.any fun packet =>
      (receivedMessageOnInterrupt (smallStorage .right) (s.peer .right) packet).isNone)
    (by decide +kernel)
  obtain ⟨packet, oldest, fails⟩ := (Option.any_eq_true _ _).mp shown
  obtain ⟨rest, link⟩ := head?_eq_some_iff.mp oldest
  have fits := (holds s reached).2 .right packet rest link
  rw [Option.isNone_iff_eq_none.mp fails] at fits
  cases fits

end Connection

end MessageCommunication
