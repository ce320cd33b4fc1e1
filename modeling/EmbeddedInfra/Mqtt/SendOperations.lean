import EmbeddedInfra.Mqtt.StateConnected

/-! A session in the connected state: requests of the application, packets of the broker,
the ping timer and send streams in any order. Packets are taken as a whole here. -/

namespace Mqtt

open StateConnected List

/-- The packets of the broker that acknowledge, and messages with QoS 1. -/
inductive Incoming
  | publish (packetIdentifier : Nat)
  | pubAck
  | subAck
  | pingResp
  deriving DecidableEq

/-- The connected state, with what the application and the broker wait for, the packets
that have arrived, and the identifiers of the messages received and acknowledged. -/
structure Session where
  client : StateConnected
  publishing : Bool
  subscribing : Bool
  publishWritten : Bool
  subscribeWritten : Bool
  incoming : List Incoming
  received : List Nat
  acknowledged : List Nat
  deriving DecidableEq

inductive Action
  | publish
  | subscribe
  | arrives (packet : Incoming)
  | handles (again : Bool)
  | notificationDone
  | sendStreamAvailable
  | pingTimerExpires
  deriving DecidableEq

namespace Session

def construct : Session :=
  { client := .construct
    publishing := false
    subscribing := false
    publishWritten := false
    subscribeWritten := false
    incoming := []
    received := []
    acknowledged := [] }

/-- The broker acknowledges what has been written to it, once. -/
def arrives (s : Session) (packet : Incoming) : Option Session :=
  let arrived := { s with incoming := s.incoming ++ [packet] }
  match packet with
  | .pubAck => if s.publishWritten then some { arrived with publishWritten := false } else none
  | .subAck => if s.subscribeWritten then some { arrived with subscribeWritten := false } else none
  | _ => some arrived

/-- One round of the loop of `HandleDataReceived`, which stops while a notification is
executed. -/
def handles (s : Session) (again : Bool) : Option Session :=
  match s.incoming with
  | [] => none
  | packet :: rest =>
    if s.client.executingNotification then none
    else
      let taken := { s with incoming := rest }
      match packet with
      | .publish packetIdentifier =>
        some { taken with
          client := payloadWritten (publishReceived s.client packetIdentifier 0)
          received := s.received ++ [packetIdentifier] }
      | .pubAck =>
        some { taken with
          client := pubAckReceived s.client again
          publishing := if s.client.sendOperations.head? = some .publish then again else s.publishing }
      | .subAck =>
        some { taken with
          client := subAckReceived s.client again
          subscribing :=
            if s.client.sendOperations.head? = some .subscribe then again else s.subscribing }
      | .pingResp => some { taken with client := handlePingReply s.client }

/-- What is written, as the broker and the log see it. -/
def written (s : Session) : Sent → Session
  | .publish _ => { s with publishWritten := true }
  | .subscribe => { s with subscribeWritten := true }
  | .pubAck packetIdentifier => { s with acknowledged := s.acknowledged ++ [packetIdentifier] }
  | .pingReq => s

def step (s : Session) : Action → Option Session
  | .publish =>
    if s.publishing then none
    else some { s with client := publish s.client, publishing := true }
  | .subscribe =>
    if s.subscribing then none
    else some { s with client := subscribe s.client, subscribing := true }
  | .arrives packet => s.arrives packet
  | .handles again => s.handles again
  | .notificationDone =>
    if s.client.executingNotification then
      some { s with client := notificationDone s.client }
    else none
  | .sendStreamAvailable =>
    if s.client.streamRequested then
      (sendStreamAvailable s.client).map fun (client, sent) => { s with client }.written sent
    else none
  | .pingTimerExpires => (pingTimerExpires s.client).map fun client => { s with client }

def kinds : List Operation := [.publish, .subscribe, .pubAck, .ping]

def Crowded (s : Session) (operation : Operation) : Prop :=
  ∀ other ∈ kinds, other = operation ∨ other ∈ s.client.sendOperations

instance (s : Session) : DecidablePred (Crowded s) := fun _ =>
  inferInstanceAs (Decidable (∀ other ∈ kinds, _))

/-- A message arrives only when the one before has been acknowledged, and no operation is
queued when operations of all other kinds wait, nor a second ping. -/
def Unhurried (s : Session) : Action → Prop
  | .publish => ¬ Crowded s .publish
  | .subscribe => ¬ Crowded s .subscribe
  | .notificationDone => ¬ Crowded s .pubAck
  | .pingTimerExpires => .ping ∉ s.client.sendOperations ∧ ¬ Crowded s .ping
  | .handles again =>
    match s.incoming with
    | .publish _ :: _ => .pubAck ∉ s.client.sendOperations
    | .pubAck :: _ => again = true → s.client.sendOperations.length ≤ 2
    | .subAck :: _ => again = true → s.client.sendOperations.length ≤ 2
    | _ => True
  | _ => True

instance (s : Session) : DecidablePred (Unhurried s) := by
  intro a
  unfold Unhurried
  split <;> (try split) <;> infer_instance

/-- The identifier of the message that is being handled or whose acknowledgement waits. -/
def unacknowledged (s : Session) : List Nat :=
  if s.client.executingNotification = true ∨ .pubAck ∈ s.client.sendOperations then
    [s.client.receivedPacketIdentifier]
  else []

structure Sound (s : Session) : Prop where
  room : s.client.overflowed = false
  distinct : s.client.sendOperations.Nodup
  short : s.client.sendOperations.length ≤ maxSendOperations
  publishing : .publish ∈ s.client.sendOperations → s.publishing = true
  subscribing : .subscribe ∈ s.client.sendOperations → s.subscribing = true
  handled : .pubAck ∈ s.client.sendOperations → s.client.executingNotification = false
  log : s.received = s.acknowledged ++ s.unacknowledged

variable {operation : Operation} {rest : List Operation} {again : Bool}

theorem length_le_two {s : Session} (distinct : s.client.sendOperations.Nodup)
    (absent : operation ∉ s.client.sendOperations) (calm : ¬ Crowded s operation) :
    s.client.sendOperations.length ≤ 2 := by
  have missing : ∃ other, other ≠ operation ∧ other ∉ s.client.sendOperations := by
    by_contra none
    apply calm
    intro other _
    by_contra neither
    exact none ⟨other, not_or.mp neither⟩
  obtain ⟨other, different, missing⟩ := missing
  have within : s.client.sendOperations ⊆
      kinds.filter fun kind => kind ≠ operation ∧ kind ≠ other := by
    intro kind member
    apply mem_filter.mpr
    refine ⟨by cases kind <;> decide, ?_⟩
    have first : kind ≠ operation := fun same => absent (same ▸ member)
    have second : kind ≠ other := fun same => missing (same ▸ member)
    simp [first, second]
  have few : (kinds.filter fun kind => kind ≠ operation ∧ kind ≠ other).length ≤ 2 := by
    revert different
    cases operation <;> cases other <;> decide
  exact (subperm_of_subset distinct within).length_le.trans few

variable {s t : Session}

theorem sound_construct : Sound construct :=
  ⟨rfl, nodup_nil, by decide, nofun, nofun, nofun, rfl⟩

theorem Sound.fits (sound : Sound s) (few : s.client.sendOperations.length ≤ 2) :
    (queueSendOperation s.client operation).overflowed = false := by
  have room : ¬ maxSendOperations ≤ s.client.sendOperations.length := by
    simp only [maxSendOperations]
    omega
  simp [queueSendOperation, sound.room, room]

theorem nodup_concat {operations : List Operation} (distinct : operations.Nodup)
    (absent : operation ∉ operations) :
    (operations ++ [operation]).Nodup := by
  rw [nodup_append]
  refine ⟨distinct, nodup_singleton _, fun a member b same => ?_⟩
  rw [mem_singleton.mp same]
  exact fun equal => absent (equal ▸ member)

theorem Sound.queued (sound : Sound s) {publishing subscribing : Bool} (other : operation ≠ .pubAck)
    (absent : operation ∉ s.client.sendOperations) (few : s.client.sendOperations.length ≤ 2)
    (publishes : .publish ∈ s.client.sendOperations ++ [operation] → publishing = true)
    (subscribes : .subscribe ∈ s.client.sendOperations ++ [operation] → subscribing = true) :
    Sound { s with client := queueSendOperation s.client operation, publishing, subscribing } := by
  have acks : Operation.pubAck ∈ s.client.sendOperations ++ [operation] ↔
      .pubAck ∈ s.client.sendOperations := by
    simp [other.symm]
  constructor
  · exact sound.fits few
  · simpa [queueSendOperation] using nodup_concat sound.distinct absent
  · simp only [queueSendOperation, processSendOperations_sendOperations, length_append,
      length_singleton, maxSendOperations]
    omega
  · simpa [queueSendOperation] using publishes
  · simpa [queueSendOperation] using subscribes
  · simpa only [queueSendOperation, processSendOperations_sendOperations, acks,
      processSendOperations_executingNotification] using sound.handled
  · have log := sound.log
    simp only [unacknowledged] at log ⊢
    simpa only [queueSendOperation, processSendOperations_sendOperations, acks,
      processSendOperations_executingNotification,
      processSendOperations_receivedPacketIdentifier] using log

theorem Sound.popped (sound : Sound s) (front : s.client.sendOperations = operation :: rest)
    (client : StateConnected) (again publishing subscribing : Bool) (other : operation ≠ .pubAck)
    (operations : client.sendOperations = rest ++ if again then [operation] else [])
    (room : client.overflowed = false)
    (executing : client.executingNotification = s.client.executingNotification)
    (identifier : client.receivedPacketIdentifier = s.client.receivedPacketIdentifier)
    (publishes : .publish ∈ client.sendOperations → publishing = true)
    (subscribes : .subscribe ∈ client.sendOperations → subscribing = true) :
    Sound { s with client, publishing, subscribing } := by
  have distinct := sound.distinct
  rw [front, nodup_cons] at distinct
  have acks : Operation.pubAck ∈ client.sendOperations ↔ .pubAck ∈ s.client.sendOperations := by
    rw [operations, front]
    cases again <;> simp [other.symm]
  constructor
  · exact room
  · rw [operations]
    cases again with
    | false => simpa using distinct.2
    | true => simpa using nodup_concat distinct.2 distinct.1
  · have short := sound.short
    rw [front] at short
    rw [operations]
    cases again with
    | false =>
      simp only [length_cons, Bool.false_eq_true, if_false, append_nil] at short ⊢
      omega
    | true => simpa using short
  · exact publishes
  · exact subscribes
  · rw [acks, executing]
    exact sound.handled
  · have log := sound.log
    simp only [unacknowledged] at log ⊢
    simpa only [acks, executing, identifier] using log

theorem Sound.acknowledgedFront (sound : Sound s)
    (front : s.client.sendOperations = operation :: rest) (other : operation ≠ .pubAck)
    (few : again = true → s.client.sendOperations.length ≤ 2) {publishing subscribing : Bool}
    (publishes : .publish ∈ rest ++ (if again then [operation] else []) → publishing = true)
    (subscribes : .subscribe ∈ rest ++ (if again then [operation] else []) → subscribing = true) :
    Sound { s with
      client := { popFrontOperation (if again then queueSendOperation s.client operation else s.client) with
        operationTimeout := false }
      publishing, subscribing } := by
  have operations : (popFrontOperation (if again then queueSendOperation s.client operation
      else s.client)).sendOperations = rest ++ if again then [operation] else [] := by
    cases again <;> simp [popFrontOperation, queueSendOperation, front]
  apply sound.popped front { popFrontOperation (if again then queueSendOperation s.client operation
    else s.client) with operationTimeout := false } again publishing subscribing other operations
  · cases again with
    | false => simpa [popFrontOperation] using sound.room
    | true => simpa [popFrontOperation] using sound.fits (few rfl)
  · cases again <;> simp [popFrontOperation, queueSendOperation]
  · cases again <;> simp [popFrontOperation, queueSendOperation]
  · simpa only [operations] using publishes
  · simpa only [operations] using subscribes

theorem Sound.pubAckReceived (sound : Sound s)
    (few : again = true → s.client.sendOperations.length ≤ 2) :
    Sound { s with
      client := StateConnected.pubAckReceived s.client again
      publishing := if s.client.sendOperations.head? = some .publish then again else s.publishing } := by
  unfold StateConnected.pubAckReceived
  dsimp only
  split
  next front =>
    obtain ⟨rest, front⟩ := head?_eq_some_iff.mp front
    have distinct := sound.distinct
    rw [front, nodup_cons] at distinct
    apply sound.acknowledgedFront front (by decide) few
    · cases again with
      | false => simpa using distinct.1
      | true => exact fun _ => rfl
    · intro member
      apply sound.subscribing
      rw [front]
      cases again <;> simpa using member
  next => exact ⟨sound.room, sound.distinct, sound.short, sound.publishing, sound.subscribing,
      sound.handled, sound.log⟩

theorem Sound.subAckReceived (sound : Sound s)
    (few : again = true → s.client.sendOperations.length ≤ 2) :
    Sound { s with
      client := StateConnected.subAckReceived s.client again
      subscribing :=
        if s.client.sendOperations.head? = some .subscribe then again else s.subscribing } := by
  unfold StateConnected.subAckReceived
  dsimp only
  split
  next front =>
    obtain ⟨rest, front⟩ := head?_eq_some_iff.mp front
    have distinct := sound.distinct
    rw [front, nodup_cons] at distinct
    apply sound.acknowledgedFront front (by decide) few
    · intro member
      apply sound.publishing
      rw [front]
      cases again <;> simpa using member
    · cases again with
      | false => simpa using distinct.1
      | true => exact fun _ => rfl
  next => exact ⟨sound.room, sound.distinct, sound.short, sound.publishing, sound.subscribing,
      sound.handled, sound.log⟩

theorem Sound.sameQueue (sound : Sound s) (client : StateConnected)
    (operations : client.sendOperations = s.client.sendOperations)
    (room : client.overflowed = s.client.overflowed)
    (executing : client.executingNotification = s.client.executingNotification)
    (identifier : client.receivedPacketIdentifier = s.client.receivedPacketIdentifier) :
    Sound { s with client } := by
  refine ⟨room.trans sound.room, ?_, ?_, ?_, ?_, ?_, ?_⟩
  · exact operations ▸ sound.distinct
  · exact operations ▸ sound.short
  · exact operations ▸ sound.publishing
  · exact operations ▸ sound.subscribing
  · rw [operations, executing]
    exact sound.handled
  · have log := sound.log
    simp only [unacknowledged] at log ⊢
    simpa only [operations, executing, identifier] using log

theorem sound_handles (sound : Sound s) (unhurried : Unhurried s (.handles again))
    (taken : s.handles again = some t) : Sound t := by
  unfold Session.handles at taken
  split at taken
  next => cases taken
  next packet rest arrived =>
    split at taken
    next => cases taken
    next idle =>
      simp only [Unhurried, arrived] at unhurried
      cases packet with
      | publish packetIdentifier =>
        cases taken
        have log := sound.log
        have nothing : s.unacknowledged = [] := by
          simp only [unacknowledged]
          rw [if_neg (not_or.mpr ⟨idle, unhurried⟩)]
        rw [nothing, append_nil] at log
        refine ⟨sound.room, sound.distinct, sound.short, sound.publishing, sound.subscribing,
          fun waits => absurd waits unhurried, ?_⟩
        simp [unacknowledged, payloadWritten, publishReceived, log]
      | pubAck =>
        cases taken
        have kept := sound.pubAckReceived unhurried
        exact ⟨kept.room, kept.distinct, kept.short, kept.publishing, kept.subscribing,
          kept.handled, kept.log⟩
      | subAck =>
        cases taken
        have kept := sound.subAckReceived unhurried
        exact ⟨kept.room, kept.distinct, kept.short, kept.publishing, kept.subscribing,
          kept.handled, kept.log⟩
      | pingResp =>
        cases taken
        have kept := sound.sameQueue (handlePingReply s.client)
          (by simp [handlePingReply, startPing]) (by simp [handlePingReply, startPing])
          (by simp [handlePingReply, startPing]) (by simp [handlePingReply, startPing])
        exact ⟨kept.room, kept.distinct, kept.short, kept.publishing, kept.subscribing,
          kept.handled, kept.log⟩

theorem sound_notificationDone (sound : Sound s) (executing : s.client.executingNotification = true)
    (calm : ¬ Crowded s .pubAck) : Sound { s with client := notificationDone s.client } := by
  have absent : .pubAck ∉ s.client.sendOperations := by
    intro waits
    rw [sound.handled waits] at executing
    cases executing
  have few := length_le_two sound.distinct absent calm
  have fits : (queueSendOperation s.client .pubAck).overflowed = false := sound.fits few
  constructor
  · simpa [notificationDone, queueSendOperation] using fits
  · simpa [notificationDone, queueSendOperation] using nodup_concat sound.distinct absent
  · simp only [notificationDone, queueSendOperation, processSendOperations_sendOperations,
      length_append, length_singleton, maxSendOperations]
    omega
  · simpa [notificationDone, queueSendOperation] using sound.publishing
  · simpa [notificationDone, queueSendOperation] using sound.subscribing
  · simp [notificationDone, queueSendOperation]
  · have log := sound.log
    simp only [unacknowledged, executing, true_or, if_true] at log
    simp [unacknowledged, notificationDone, queueSendOperation, log]

theorem Sound.pingRestarted {client : StateConnected} (sound : Sound { s with client }) :
    Sound { s with client := if client.waitingForPingReply then client else startPing client } := by
  split
  · exact sound
  · exact ⟨sound.room, sound.distinct, sound.short, sound.publishing, sound.subscribing,
      sound.handled, sound.log⟩

theorem sound_pubAck (sound : Sound s) (front : s.client.sendOperations = .pubAck :: rest) :
    Sound { s with
      client := popFrontOperation { s.client with streamRequested := false }
      acknowledged := s.acknowledged ++ [s.client.receivedPacketIdentifier] } := by
  have distinct := sound.distinct
  have short := sound.short
  have idle : s.client.executingNotification = false := by
    apply sound.handled
    rw [front]
    exact mem_cons_self
  rw [front, nodup_cons] at distinct
  rw [front, length_cons] at short
  have operations : (popFrontOperation { s.client with streamRequested := false }).sendOperations =
      rest := by
    simp [popFrontOperation, front]
  constructor
  · simpa [popFrontOperation] using sound.room
  · simpa only [operations] using distinct.2
  · simp only [operations]
    omega
  · intro waits
    apply sound.publishing
    rw [front]
    exact mem_cons_of_mem _ (operations ▸ waits)
  · intro waits
    apply sound.subscribing
    rw [front]
    exact mem_cons_of_mem _ (operations ▸ waits)
  · intro waits
    exact absurd (operations ▸ waits) distinct.1
  · have log := sound.log
    have waited : s.unacknowledged = [s.client.receivedPacketIdentifier] := by
      simp [unacknowledged, front]
    have nothing : unacknowledged { s with
        client := popFrontOperation { s.client with streamRequested := false }
        acknowledged := s.acknowledged ++ [s.client.receivedPacketIdentifier] } = [] := by
      simp only [unacknowledged, operations]
      rw [if_neg]
      simp [popFrontOperation, idle, distinct.1]
    rw [nothing, append_nil, log, waited]

theorem sound_sendStreamAvailable (sound : Sound s) {client : StateConnected} {sent : Sent}
    (available : sendStreamAvailable s.client = some (client, sent)) :
    Sound ({ s with client }.written sent) := by
  unfold StateConnected.sendStreamAvailable at available
  split at available
  next => cases available
  next operation rest front =>
    cases operation with
    | publish =>
      cases available
      have same := sound.sameQueue { s.client with
        streamRequested := false
        operationTimeout := true
        packetIdentifier := generatePacketIdentifier s.client.packetIdentifier } rfl rfl rfl rfl
      have restarted := same.pingRestarted
      exact ⟨restarted.room, restarted.distinct, restarted.short, restarted.publishing,
        restarted.subscribing, restarted.handled, restarted.log⟩
    | subscribe =>
      cases available
      have same := sound.sameQueue { s.client with
        streamRequested := false, operationTimeout := true } rfl rfl rfl rfl
      have restarted := same.pingRestarted
      exact ⟨restarted.room, restarted.distinct, restarted.short, restarted.publishing,
        restarted.subscribing, restarted.handled, restarted.log⟩
    | pubAck =>
      cases available
      have popped := sound_pubAck sound front
      exact Sound.pingRestarted (s := { s with
        acknowledged := s.acknowledged ++ [s.client.receivedPacketIdentifier] }) popped
    | ping =>
      cases available
      have operations : (popFrontOperation { s.client with
          streamRequested := false
          waitingForPingReply := true
          pingTimer := some .pingReplyTimeout }).sendOperations = rest ++ [] := by
        simp [popFrontOperation, front]
      have later {other : Operation} (waits : other ∈ rest ++ []) :
          other ∈ s.client.sendOperations := by
        rw [front]
        exact mem_cons_of_mem _ (by simpa using waits)
      have popped := sound.popped front (popFrontOperation { s.client with
          streamRequested := false
          waitingForPingReply := true
          pingTimer := some .pingReplyTimeout }) false s.publishing s.subscribing (by decide) operations
        (by simpa [popFrontOperation] using sound.room) (by simp [popFrontOperation])
        (by simp [popFrontOperation])
        (fun waits => sound.publishing (later (operations ▸ waits)))
        (fun waits => sound.subscribing (later (operations ▸ waits)))
      exact Sound.pingRestarted (s := s) popped

theorem sound_step {a : Action} (sound : Sound s) (unhurried : Unhurried s a)
    (taken : step s a = some t) : Sound t := by
  cases a with
  | publish =>
    simp only [step] at taken
    split at taken <;> cases taken
    next free =>
      have absent : .publish ∉ s.client.sendOperations := fun waits => free (sound.publishing waits)
      apply sound.queued (by decide) absent (length_le_two sound.distinct absent unhurried)
      · exact fun _ => rfl
      · intro waits
        apply sound.subscribing
        simpa using waits
  | subscribe =>
    simp only [step] at taken
    split at taken <;> cases taken
    next free =>
      have absent : .subscribe ∉ s.client.sendOperations :=
        fun waits => free (sound.subscribing waits)
      apply sound.queued (by decide) absent (length_le_two sound.distinct absent unhurried)
      · intro waits
        apply sound.publishing
        simpa using waits
      · exact fun _ => rfl
  | arrives packet =>
    have kept (incoming : List Incoming) (publishWritten subscribeWritten : Bool) :
        Sound { s with incoming, publishWritten, subscribeWritten } :=
      ⟨sound.room, sound.distinct, sound.short, sound.publishing, sound.subscribing,
        sound.handled, sound.log⟩
    simp only [step, arrives] at taken
    cases packet with
    | publish | pingResp =>
      cases taken
      exact kept _ _ _
    | pubAck | subAck =>
      simp only at taken
      split at taken <;> cases taken
      exact kept _ _ _
  | handles again => exact sound_handles sound unhurried taken
  | notificationDone =>
    simp only [step] at taken
    split at taken <;> cases taken
    next executing => exact sound_notificationDone sound executing unhurried
  | sendStreamAvailable =>
    simp only [step] at taken
    split at taken
    next =>
      obtain ⟨⟨client, sent⟩, available, rfl⟩ := Option.map_eq_some_iff.mp taken
      exact sound_sendStreamAvailable sound available
    next => cases taken
  | pingTimerExpires =>
    obtain ⟨client, expired, rfl⟩ := Option.map_eq_some_iff.mp taken
    unfold StateConnected.pingTimerExpires at expired
    split at expired <;> cases expired
    have stopped := sound.sameQueue { s.client with pingTimer := none } rfl rfl rfl rfl
    have few := length_le_two sound.distinct unhurried.1 unhurried.2
    apply stopped.queued (by decide) unhurried.1 few
    · intro waits
      apply sound.publishing
      simpa using waits
    · intro waits
      apply sound.subscribing
      simpa using waits

def oneAfterTheOther : List Action :=
  [.publish, .arrives (.publish 7), .handles false, .sendStreamAvailable, .notificationDone,
    .arrives .pubAck, .handles true, .sendStreamAvailable, .arrives (.publish 8), .handles false]

/-- A second message arrives while the acknowledgement of the first one waits for that of
the broker. -/
def twoInARow : List Action :=
  [.publish, .sendStreamAvailable, .arrives (.publish 7), .handles false, .notificationDone,
    .arrives (.publish 8), .handles false]

end Session

end Mqtt
