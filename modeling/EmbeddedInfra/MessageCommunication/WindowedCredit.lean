import EmbeddedInfra.MessageCommunication.WindowedSteps

/-! The window of a sender covers the room of the receiver: what may still be sent, what
is in flight, unread or on its way back never exceeds the deque, as long as a window is
only announced to a sender that has nothing outstanding. -/

namespace MessageCommunication

open List Function

open Sesame (Side Packet add16 sub16)
open Windowed

/-- The room that the messages in a link will take in the deque of their receiver, which
drops them until it is initialized. -/
def arriving : Bool → List (Packet Bytes) → Nat
  | _, [] => 0
  | initialized, packet :: rest =>
    (if initialized then taken packet else 0) +
      arriving (initialized || (announcement packet).isSome) rest

/-- What the releases in a link give back before the next announcement, and `more` when
no announcement follows. -/
def returning (more : Nat) : List (Packet Bytes) → Nat
  | [] => more
  | packet :: rest =>
    if (announcement packet).isSome then 0 else granted packet + returning more rest

section Links

variable {own : Nat} {packet : Packet Bytes} {link : List (Packet Bytes)}

theorem arriving_fresh_le (link : List (Packet Bytes)) : arriving false link ≤ arriving true link := by
  induction link with
  | nil => exact le_rfl
  | cons packet rest ih =>
    simp only [arriving, Bool.false_or, Bool.true_or, Bool.false_eq_true, if_true, if_false]
    cases (announcement packet).isSome
    · omega
    · omega

theorem taken_le_charge (sound : Sound own packet) : taken packet ≤ charge packet := by
  cases packet with
  | message contents => exact (windowSize_eq sound).ge
  | init | initResponse | releaseWindow => exact le_rfl

theorem arriving_concat_le (initialized : Bool) (sound : Sound own packet) :
    arriving initialized (link ++ [packet]) ≤ arriving initialized link + charge packet := by
  have least := taken_le_charge sound
  induction link generalizing initialized with
  | nil =>
    simp only [nil_append, arriving]
    split <;> omega
  | cons first rest ih =>
    simp only [cons_append, arriving]
    have later := ih (initialized || (announcement first).isSome)
    omega

theorem returning_mono {less more : Nat} (le : less ≤ more) (link : List (Packet Bytes)) :
    returning less link ≤ returning more link := by
  induction link with
  | nil => exact le
  | cons packet rest ih =>
    simp only [returning]
    split <;> omega

theorem returning_add_le (more extra : Nat) (link : List (Packet Bytes)) :
    returning (more + extra) link ≤ returning more link + extra := by
  induction link with
  | nil => exact le_rfl
  | cons packet rest ih =>
    simp only [returning]
    split <;> omega

theorem returning_concat_le {more total : Nat} (counted : more + granted packet = total) :
    returning more (link ++ [packet]) ≤ returning total link := by
  induction link with
  | nil =>
    simp only [nil_append, returning]
    split <;> omega
  | cons first rest ih =>
    simp only [cons_append, returning]
    split <;> omega

end Links

/-- What the sender may still send, with all that is outstanding, is within the window. -/
def Covered (window : Nat) (sender receiver : Windowed) (forth back : List (Packet Bytes)) : Prop :=
  sender.credit + (arriving receiver.initialized forth + receiver.pending) +
    (if sender.initialized then returning receiver.unreleased back else 0) ≤ window

section Covered

variable {window : Nat} {sender receiver next : Windowed} {forth back : List (Packet Bytes)}
  {packet : Packet Bytes}

theorem Covered.credit_le (covered : Covered window sender receiver forth back) :
    sender.credit ≤ window := by
  unfold Covered at covered
  omega

theorem Covered.keepsSender (covered : Covered window sender receiver forth back)
    (keeps : Keeps sender next) : Covered window next receiver forth back := by
  unfold Covered at covered ⊢
  rw [keeps.initialized, keeps.credit]
  exact covered

theorem Covered.keepsReceiver (covered : Covered window sender receiver forth back)
    (keeps : Keeps receiver next) : Covered window sender next forth back := by
  unfold Covered at covered ⊢
  rw [keeps.initialized]
  have less := keeps.pending
  have returned : returning next.unreleased back ≤
      returning receiver.unreleased back + (receiver.pending - next.pending) := by
    have retained := keeps.retained
    calc
      _ ≤ returning (receiver.unreleased + (receiver.pending - next.pending)) back :=
        returning_mono (by omega) back
      _ ≤ _ := returning_add_le _ _ back
  cases started : sender.initialized
  all_goals
    simp only [started, if_true, Bool.false_eq_true, if_false] at covered ⊢
    omega

variable {own : Storage}

theorem Covered.out (covered : Covered window sender receiver forth back)
    (out : GoesOut own sender next packet) :
    Covered window next receiver (forth ++ [packet]) back := by
  unfold Covered at covered ⊢
  rw [out.initialized]
  have counted := out.credit
  have grows : arriving receiver.initialized (forth ++ [packet]) ≤
      arriving receiver.initialized forth + charge packet :=
    arriving_concat_le receiver.initialized out.sound
  omega

theorem Covered.outBack (covered : Covered window sender receiver forth back)
    (out : GoesOut own receiver next packet) :
    Covered window sender next forth (back ++ [packet]) := by
  unfold Covered at covered ⊢
  rw [out.initialized, out.pending]
  have returned : returning next.unreleased (back ++ [packet]) ≤ returning receiver.unreleased back :=
    returning_concat_le out.unreleased
  cases started : sender.initialized
  all_goals
    simp only [started, if_true, Bool.false_eq_true, if_false] at covered ⊢
    omega

theorem Covered.received (covered : Covered window sender receiver (packet :: forth) back)
    (receives : Receives receiver next packet) : Covered window sender next forth back := by
  unfold Covered at covered ⊢
  rw [receives.initialized, receives.pending, receives.unreleased]
  simp only [arriving] at covered
  omega

theorem Covered.restarted (covered : Covered window sender receiver forth back) :
    Covered window (construct own) receiver forth back := by
  unfold Covered at covered ⊢
  have nothing : (construct own).credit = 0 := credit_of_unreported rfl rfl (Nat.zero_lt_succ _)
  rw [nothing, if_neg (by simp [construct])]
  omega

theorem Covered.restartedBack (covered : Covered window sender receiver forth back) :
    Covered window sender (construct own) forth back := by
  unfold Covered at covered ⊢
  have fewer : arriving (construct own).initialized forth ≤ arriving receiver.initialized forth := by
    cases receiver.initialized with
    | false => exact le_rfl
    | true => exact arriving_fresh_le forth
  have none : (construct own).pending = 0 := rfl
  have returned : returning (construct own).unreleased back ≤ returning receiver.unreleased back :=
    returning_mono (Nat.zero_le _) back
  rw [none]
  cases started : sender.initialized
  all_goals
    simp only [started, if_true, Bool.false_eq_true, if_false] at covered ⊢
    omega

end Covered

namespace Connection

variable {d : Side → Storage} {s t : Connection}

@[simp] theorem setPeer_peer (s : Connection) (p : Side) (peer : Windowed) :
    (s.setPeer p peer).peer p = peer := update_self ..

@[simp] theorem setPeer_peer_other (s : Connection) (p : Side) (peer : Windowed) :
    (s.setPeer p peer).peer p.other = s.peer p.other :=
  update_of_ne (Side.other_ne p) ..

@[simp] theorem setPeer_link (s : Connection) (p : Side) (peer : Windowed) :
    (s.setPeer p peer).link = s.link := rfl

@[simp] theorem setLink_peer (s : Connection) (p : Side) (link : List (Packet Bytes)) :
    (s.setLink p link).peer = s.peer := rfl

@[simp] theorem setLink_link (s : Connection) (p : Side) (link : List (Packet Bytes)) :
    (s.setLink p link).link p = link := update_self ..

@[simp] theorem setLink_link_other (s : Connection) (p : Side) (link : List (Packet Bytes)) :
    (s.setLink p link).link p.other = s.link p.other :=
  update_of_ne (Side.other_ne p) ..

@[simp] theorem setLink_other_link (s : Connection) (p : Side) (link : List (Packet Bytes)) :
    (s.setLink p.other link).link p = s.link p :=
  update_of_ne (Side.ne_other p) ..

@[simp] theorem logSent_peer (s : Connection) (p : Side) (messages : List Bytes) :
    (s.logSent p messages).peer = s.peer := rfl

@[simp] theorem logSent_link (s : Connection) (p : Side) (messages : List Bytes) :
    (s.logSent p messages).link = s.link := rfl

@[simp] theorem logReceived_peer (s : Connection) (p : Side) (messages : List Bytes) :
    (s.logReceived p messages).peer = s.peer := rfl

@[simp] theorem logReceived_link (s : Connection) (p : Side) (messages : List Bytes) :
    (s.logReceived p messages).link = s.link := rfl

/-- What a side has outstanding when its peer's next packet has been taken off the link:
messages that the other side will store, has not read, or has read and is releasing. -/
def outstanding (s : Connection) (p : Side) (back : List (Packet Bytes)) : Nat :=
  arriving (s.peer p.other).initialized (s.link p) + (s.peer p.other).pending +
    returning (s.peer p.other).unreleased back

/-- A window is announced to a side that has nothing outstanding, except perhaps the message
that it has not counted yet. -/
def AnnouncedInTime (s : Connection) (p : Side) : Prop :=
  match s.link p.other with
  | packet :: back =>
    (announcement packet).isSome → s.outstanding p back ≤ (s.peer p).unreported
  | [] => True

instance (s : Connection) (p : Side) : Decidable (AnnouncedInTime s p) := by
  unfold AnnouncedInTime
  split <;> infer_instance

/-- The steps that keep the accounts: windows are announced in time, and the room for a
requested message is a `uint16_t`. -/
def Counted (s : Connection) : Action → Prop
  | .deliver p => s.AnnouncedInTime p
  | .requestSendMessage _ size => size + 2 < 65536
  | _ => True

instance (s : Connection) : DecidablePred (Counted s) := by
  intro a
  unfold Counted
  split <;> infer_instance

/-- The accounts of the messages that side `p` sends. -/
structure Steady (d : Side → Storage) (s : Connection) (p : Side) : Prop where
  coherent : Coherent (d p) (ownWindow (d p.other)) (s.peer p)
  sound : ∀ packet ∈ s.link p, Sound (ownWindow (d p)) packet
  covered : Covered (ownWindow (d p.other)) (s.peer p) (s.peer p.other) (s.link p) (s.link p.other)

theorem steady_construct (p : Side) : Steady d (construct d) p where
  coherent := coherent_construct
  sound _ member := by cases member
  covered := by
    have nothing : (Windowed.construct (d p)).credit = 0 :=
      credit_of_unreported rfl rfl (Nat.zero_lt_succ _)
    simp only [Covered, construct, nothing]
    exact Nat.zero_le _

variable {p : Side} {peer : Windowed} {packet : Packet Bytes}

section

variable (steady : ∀ r, Steady d s r)

include steady

theorem steady_setPeer (coherent : Coherent (d p) (ownWindow (d p.other)) peer)
    (keeps : Keeps (s.peer p) peer) (r : Side) :
    Steady d (s.setPeer p peer) r := by
  rcases Side.eq_or_other p r with rfl | rfl
  · have own := steady r
    refine ⟨by simpa using coherent, own.sound, ?_⟩
    simpa using own.covered.keepsSender keeps
  · have others := steady p.other
    refine ⟨by simpa using others.coherent, others.sound, ?_⟩
    have covered := others.covered
    simp only [Side.other_other] at covered
    simpa using covered.keepsReceiver keeps

theorem steady_restart (r : Side) : Steady d (s.setPeer p (.construct (d p))) r := by
  rcases Side.eq_or_other p r with rfl | rfl
  · have own := steady r
    refine ⟨by simpa using coherent_construct, own.sound, ?_⟩
    simpa using own.covered.restarted
  · have others := steady p.other
    refine ⟨by simpa using others.coherent, others.sound, ?_⟩
    have covered := others.covered
    simp only [Side.other_other] at covered
    simpa using covered.restartedBack

theorem steady_out (coherent : Coherent (d p) (ownWindow (d p.other)) peer)
    (out : GoesOut (d p) (s.peer p) peer packet) (r : Side) :
    Steady d ((s.setPeer p peer).setLink p (s.link p ++ [packet])) r := by
  rcases Side.eq_or_other p r with rfl | rfl
  · have own := steady r
    refine ⟨by simpa using coherent, ?_, by simpa using own.covered.out out⟩
    intro other member
    simp only [setLink_link, mem_append, mem_singleton] at member
    rcases member with member | rfl
    · exact own.sound other member
    · exact out.sound
  · have others := steady p.other
    refine ⟨by simpa using others.coherent, by simpa using others.sound, ?_⟩
    have covered := others.covered
    simp only [Side.other_other] at covered
    simpa using covered.outBack out

theorem steady_received {rest : List (Packet Bytes)} (oldest : s.link p.other = packet :: rest)
    (coherent : Coherent (d p) (ownWindow (d p.other)) peer)
    (receives : Receives (s.peer p) peer packet)
    (covered : Covered (ownWindow (d p.other)) peer (s.peer p.other) (s.link p) rest) (r : Side) :
    Steady d ((s.setPeer p peer).setLink p.other rest) r := by
  rcases Side.eq_or_other p r with rfl | rfl
  · have own := steady r
    exact ⟨by simpa using coherent, by simpa using own.sound, by simpa using covered⟩
  · have others := steady p.other
    refine ⟨by simpa using others.coherent, ?_, ?_⟩
    · intro other member
      simp only [setLink_link] at member
      apply others.sound other
      rw [oldest]
      exact mem_cons_of_mem _ member
    · have covered := others.covered
      rw [oldest, Side.other_other] at covered
      simpa using covered.received receives

/-- What the sender takes from the link: a window that is announced in time, a release that
has been counted, or a message. -/
theorem received_covered {rest : List (Packet Bytes)} (oldest : s.link p.other = packet :: rest)
    (inTime : s.AnnouncedInTime p)
    (received : (s.peer p).receivedMessageOnInterrupt (d p) packet = some peer) :
    Coherent (d p) (ownWindow (d p.other)) peer ∧ Receives (s.peer p) peer packet ∧
      Covered (ownWindow (d p.other)) peer (s.peer p.other) (s.link p) rest := by
  have own := steady p
  have limited : ownWindow (d p.other) < 65536 := ownWindow_lt
  have sound : Sound (ownWindow (d p.other)) packet := by
    apply (steady p.other).sound
    rw [oldest]
    exact mem_cons_self
  have covered := own.covered
  unfold Covered at covered ⊢
  rw [oldest] at covered
  have announced (same : announcement packet = some (ownWindow (d p.other))) :
      Coherent (d p) (ownWindow (d p.other)) peer ∧ Receives (s.peer p) peer packet ∧
        peer.credit + (arriving (s.peer p.other).initialized (s.link p) + (s.peer p.other).pending) +
          (if peer.initialized then returning (s.peer p.other).unreleased rest else 0) ≤
            ownWindow (d p.other) := by
    obtain ⟨coherent, receives, counted⟩ := own.coherent.receivedAnnouncement limited same received
    refine ⟨coherent, receives, ?_⟩
    have started : peer.initialized = true := by rw [receives.initialized, same]; simp
    have nothing : s.outstanding p rest ≤ (s.peer p).unreported := by
      simp only [AnnouncedInTime, oldest] at inTime
      apply inTime
      rw [same]
      rfl
    rw [started, if_pos rfl]
    simp only [outstanding] at nothing
    omega
  cases packet with
  | init window | initResponse window => exact announced (congrArg some sound)
  | releaseWindow window =>
    simp only [returning, announcement, Option.isSome_none, Bool.false_eq_true, if_false, granted]
      at covered
    have enough : (s.peer p).initialized = true → (s.peer p).credit + window ≤ ownWindow (d p.other) := by
      intro started
      rw [started, if_pos rfl] at covered
      omega
    obtain ⟨coherent, receives, less⟩ := own.coherent.receivedRelease limited enough received
    refine ⟨coherent, receives, ?_⟩
    have same : peer.initialized = (s.peer p).initialized := by
      rw [receives.initialized]
      simp [announcement]
    rw [same]
    cases started : (s.peer p).initialized
    all_goals
      simp only [started, if_true, Bool.false_eq_true, if_false] at covered less ⊢
      omega
  | message contents =>
    simp only [returning, announcement, Option.isSome_none, Bool.false_eq_true, if_false, granted,
      Nat.zero_add] at covered
    obtain ⟨coherent, receives, same⟩ := own.coherent.receivedMessage sound received
    refine ⟨coherent, receives, ?_⟩
    have started : peer.initialized = (s.peer p).initialized := by
      rw [receives.initialized]
      simp [announcement]
    rw [started, same]
    exact covered

theorem steady_step {a : Action} (counted : Counted s a) (taken : step d s a = some t) (r : Side) :
    Steady d t r := by
  cases a with
  | requestSendMessage p size =>
    simp only [step] at taken
    split at taken <;> cases taken
    have kept := (steady p).coherent.requestSendMessage (steady p).covered.credit_le counted
    exact steady_setPeer steady kept.1 kept.2 r
  | writeMessage p contents =>
    obtain ⟨peer, written, rfl⟩ := Option.map_eq_some_iff.mp taken
    have kept := (steady p).coherent.writeMessage written
    exact steady_setPeer steady kept.1 kept.2 r
  | transmitted p =>
    obtain ⟨⟨peer, packet⟩, out, rfl⟩ := Option.map_eq_some_iff.mp taken
    have gone := (steady p).coherent.transmitted ownWindow_lt out
    have after := steady_out steady gone.1 gone.2 r
    exact ⟨after.coherent, after.sound, after.covered⟩
  | onSent p =>
    obtain ⟨peer, reported, rfl⟩ := Option.map_eq_some_iff.mp taken
    have kept := (steady p).coherent.onSent (steady p).covered.credit_le reported
    exact steady_setPeer steady kept.1 kept.2 r
  | deliver p =>
    simp only [step] at taken
    split at taken
    next => cases taken
    next packet rest oldest =>
      obtain ⟨peer, received, rfl⟩ := Option.map_eq_some_iff.mp taken
      obtain ⟨coherent, receives, covered⟩ := received_covered steady oldest counted received
      exact steady_received steady oldest coherent receives covered r
  | execute p releases =>
    obtain ⟨⟨peer, message⟩, executed, rfl⟩ := Option.map_eq_some_iff.mp taken
    have kept := (steady p).coherent.execute (steady p).covered.credit_le executed
    have after := steady_setPeer steady kept.1 kept.2 r
    exact ⟨after.coherent, after.sound, after.covered⟩
  | releaseReader p =>
    obtain ⟨peer, released, rfl⟩ := Option.map_eq_some_iff.mp taken
    have kept := (steady p).coherent.releaseReader (steady p).covered.credit_le released
    exact steady_setPeer steady kept.1 kept.2 r
  | restart p =>
    cases taken
    exact steady_restart steady r

end

theorem steady_reachable (reached : Runs.Reachable (step d) Counted (construct d) s) (p : Side) :
    Steady d s p := by
  have every : ∀ r, Steady d s r := reached.invariant steady_construct
    fun _ _ _ steady counted taken => steady_step steady counted taken
  exact every p

end Connection

end MessageCommunication
