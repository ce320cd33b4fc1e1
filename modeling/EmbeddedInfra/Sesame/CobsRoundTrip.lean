import EmbeddedInfra.Sesame.CobsSending
import EmbeddedInfra.Sesame.CobsResynchronises

/-! What one peer writes, the other one receives: both halves follow the encoding of the
messages written so far, the receiver behind the sender. -/

namespace Sesame

open List

open Cobs (Decoder wire reports)
open Runs (Reachable anyStep)

namespace CobsLink

def consumed (s : CobsLink) : Bytes := s.sender.serialData.take s.acknowledged

structure Kept (maxMessageSize : Nat) (s : CobsLink) : Prop where
  wrote : s.sender.Wrote s.written
  contents : ∀ contents ∈ s.written, contents ≠ [] ∧ contents.length ≤ maxMessageSize
  sound : s.receiver.Sound
  acknowledged : s.acknowledged ≤ s.sender.serialData.length
  decoded : Decoder.start.feed s.consumed = (s.receiver.decoder, s.receiver.messagesReceived)

variable {maxMessageSize : Nat} {keeps : Nat → Bool}

theorem kept_construct : Kept maxMessageSize construct where
  wrote := CobsSender.wrote_construct
  contents _ member := absurd member List.not_mem_nil
  sound := CobsReceiver.sound_construct
  acknowledged := le_rfl
  decoded := rfl

variable {s : CobsLink}

theorem Kept.serialData_prefix (kept : Kept maxMessageSize s) :
    s.sender.serialData <+: wire s.written := ⟨_, kept.wrote.output⟩

theorem consumed_append_available (s : CobsLink) :
    s.consumed ++ s.available = s.sender.serialData := take_append_drop _ _

theorem Kept.sender (kept : Kept maxMessageSize s) {sender : CobsSender} {written : List Bytes}
    (wrote : sender.Wrote written)
    (contents : ∀ contents ∈ written, contents ≠ [] ∧ contents.length ≤ maxMessageSize)
    (grown : s.sender.serialData <+: sender.serialData) :
    Kept maxMessageSize { s with sender := sender, written := written } := by
  obtain ⟨more, grown⟩ := grown
  refine ⟨wrote, contents, kept.sound, ?_, ?_⟩
  · rw [← grown, length_append]
    exact Nat.le_add_right_of_le kept.acknowledged
  · have same : sender.serialData.take s.acknowledged = s.consumed := by
      rw [← grown, take_append_of_le_length kept.acknowledged, consumed]
    rw [consumed, same]
    exact kept.decoded

def reception (s : CobsLink) : CobsReception := ⟨s.receiver, s.sender.serialData, s.acknowledged⟩

theorem Kept.follows (kept : Kept maxMessageSize s) :
    s.reception.Follows (CobsReceiver.receiveBufferSize maxMessageSize) := by
  refine ⟨kept.sound, kept.acknowledged, kept.decoded, ?_⟩
  have nonempty := fun contents member => (kept.contents contents member).1
  have small : ∀ contents ∈ s.written,
      contents.length ≤ CobsReceiver.receiveBufferSize maxMessageSize := by
    intro contents member
    have bound := (kept.contents contents member).2
    unfold CobsReceiver.receiveBufferSize
    omega
  have whole := Cobs.fits_wire s.written nonempty small
  obtain ⟨rest, same⟩ := kept.serialData_prefix
  rw [← same] at whole
  exact (Decoder.fits_append _ _ _ whole).1

theorem Kept.receives (kept : Kept maxMessageSize s) {r : CobsReception}
    (follows : r.Follows (CobsReceiver.receiveBufferSize maxMessageSize))
    (arrived : r.arrived = s.sender.serialData) :
    Kept maxMessageSize { s with receiver := r.receiver, acknowledged := r.acknowledged } := by
  have acknowledged := follows.acknowledged
  have decoded := follows.decoded
  rw [CobsReception.consumed, arrived] at decoded
  exact ⟨kept.wrote, kept.contents, follows.sound, arrived ▸ acknowledged, decoded⟩

theorem step_dataReceived (s : CobsLink) (size : Nat) :
    s.step maxMessageSize keeps (.dataReceived size) =
      (s.reception.step (CobsReceiver.receiveBufferSize maxMessageSize) keeps
        (.dataReceived size)).map fun r =>
          { s with receiver := r.receiver, acknowledged := r.acknowledged } := by
  rw [step, CobsReception.step]
  change _ = Option.map _
    (if s.available.take size ≠ [] ∧ s.receiver.receivedDataReader = none then _ else none)
  split
  · rw [Option.map_map]
    rfl
  · rfl

theorem step_readerReleased (s : CobsLink) :
    s.step maxMessageSize keeps .readerReleased =
      (s.reception.step (CobsReceiver.receiveBufferSize maxMessageSize) keeps
        .readerReleased).map fun r =>
          { s with receiver := r.receiver, acknowledged := r.acknowledged } := by
  rw [step, CobsReception.step, Option.map_map]
  rfl

theorem kept_step (s : CobsLink) (a : Action) (t : CobsLink) (kept : Kept maxMessageSize s)
    (taken : s.step maxMessageSize keeps a = some t) : Kept maxMessageSize t := by
  cases a with
  | requestSendMessage size =>
    obtain ⟨sender, requested, rfl⟩ := Option.map_eq_some_iff.mp taken
    obtain ⟨wrote, same⟩ := kept.wrote.requestSendMessage requested
    exact kept.sender wrote kept.contents (same ▸ List.prefix_refl _)
  | writeMessage contents =>
    simp only [step] at taken
    split at taken
    next => cases taken
    next nonempty =>
      obtain ⟨sender, writes, rfl⟩ := Option.map_eq_some_iff.mp taken
      obtain ⟨wrote, grown, small⟩ := kept.wrote.writeMessage nonempty writes
      refine kept.sender wrote ?_ grown
      intro message member
      rcases mem_append.mp member with old | new
      · exact kept.contents message old
      · rw [mem_singleton.mp new]
        exact ⟨nonempty, small⟩
  | sendDone =>
    obtain ⟨sender, done, rfl⟩ := Option.map_eq_some_iff.mp taken
    have sending : s.sender.completion ≠ none := by
      intro none
      rw [CobsSender.sendDone, none] at done
      cases done
    obtain ⟨sender', done', wrote, grown, _⟩ := kept.wrote.sendDone sending
    cases done'.symm.trans done
    exact kept.sender wrote kept.contents grown
  | dataReceived size =>
    rw [step_dataReceived] at taken
    obtain ⟨r, received, rfl⟩ := Option.map_eq_some_iff.mp taken
    have takes : CobsReception.taking s.reception (.dataReceived size) := trivial
    exact kept.receives (CobsReception.follows_step _ (.dataReceived size) r kept.follows trivial
      received)
      (CobsReception.arrived_of_step takes received)
  | readerReleased =>
    rw [step_readerReleased] at taken
    obtain ⟨r, released, rfl⟩ := Option.map_eq_some_iff.mp taken
    have takes : CobsReception.taking s.reception .readerReleased := trivial
    exact kept.receives (CobsReception.follows_step _ .readerReleased r kept.follows trivial released)
      (CobsReception.arrived_of_step takes released)

theorem kept_of_reachable (reached : Reachable (step maxMessageSize keeps) anyStep construct s) :
    Kept maxMessageSize s :=
  reached.invariant kept_construct fun s a t kept _ taken => kept_step s a t kept taken

theorem Kept.received_prefix (kept : Kept maxMessageSize s) :
    s.receiver.messagesReceived <+: reports 1 s.written := by
  have nonempty := fun contents member => (kept.contents contents member).1
  have whole := congrArg Prod.snd (Cobs.feed_wire s.written nonempty)
  rw [← kept.wrote.output, ← consumed_append_available, append_assoc, Decoder.feed_append,
    kept.decoded] at whole
  exact ⟨_, whole⟩

theorem Kept.received_all (kept : Kept maxMessageSize s) (sent : s.sender.completion = none)
    (taken : s.available = []) :
    s.receiver.messagesReceived = reports 1 s.written := by
  have nonempty := fun contents member => (kept.contents contents member).1
  have whole := congrArg Prod.snd (Cobs.feed_wire s.written nonempty)
  have remaining : s.sender.remaining = [] := by rw [CobsSender.remaining, sent]
  rw [← kept.wrote.output, remaining, append_nil, ← consumed_append_available, taken,
    append_nil, kept.decoded] at whole
  exact whole

/-- The steps that bring what was written to its end. -/
def finishing (_ : CobsLink) : Action → Prop
  | .sendDone | .dataReceived _ | .readerReleased => True
  | _ => False

theorem Kept.finish_sending (pieces : Nat) (kept : Kept maxMessageSize s)
    (left : 2 * ((wire s.written).length - s.sender.serialData.length) + (if s.sender.completion =
      none then 0 else 1) ≤ pieces) :
    ∃ t, Reachable (step maxMessageSize keeps) finishing s t ∧ Kept maxMessageSize t ∧
      t.written = s.written ∧ t.sender.completion = none := by
  induction pieces generalizing s with
  | zero =>
    by_cases sending : s.sender.completion = none
    · exact ⟨s, .refl, kept, rfl, sending⟩
    · rw [if_neg sending] at left
      omega
  | succ pieces ih =>
    by_cases sending : s.sender.completion = none
    · exact ⟨s, .refl, kept, rfl, sending⟩
    · obtain ⟨sender, done, wrote, grown, progress⟩ := kept.wrote.sendDone sending
      have kept' := kept.sender wrote kept.contents grown
      have taken : s.step maxMessageSize keeps .sendDone =
          some { s with sender := sender } := by
        rw [step, done]
        rfl
      have bound := kept'.serialData_prefix.length_le
      have longer := grown.length_le
      simp only at bound
      rw [if_neg sending] at left
      obtain ⟨t, reached, kept'', written, complete⟩ := ih kept' (by
        simp only
        rcases progress with more | complete
        · split <;> omega
        · rw [if_pos complete]
          omega)
      exact ⟨t, (Reachable.tail .sendDone .refl trivial taken).trans reached, kept'', written, complete⟩

theorem reachable_reception {r : CobsReception}
    (reached : Reachable (CobsReception.step (CobsReceiver.receiveBufferSize maxMessageSize) keeps)
      CobsReception.taking s.reception r) :
    Reachable (step maxMessageSize keeps) finishing s
      { s with receiver := r.receiver, acknowledged := r.acknowledged } ∧
        r.arrived = s.sender.serialData := by
  induction reached with
  | refl => exact ⟨.refl, rfl⟩
  | @tail u v a _ meets last ih =>
    obtain ⟨reached, arrived⟩ := ih
    obtain ⟨receiver, bytes, acknowledged⟩ := u
    subst arrived
    refine ⟨?_, CobsReception.arrived_of_step meets last⟩
    cases a with
    | arrive bytes => exact meets.elim
    | dataReceived size =>
      exact reached.tail (Action.dataReceived size) trivial
        ((step_dataReceived _ size).trans (congrArg (Option.map _) last))
    | readerReleased =>
      exact reached.tail .readerReleased trivial
        ((step_readerReleased _).trans (congrArg (Option.map _) last))

theorem Kept.finish_receiving (kept : Kept maxMessageSize s) :
    ∃ t, Reachable (step maxMessageSize keeps) finishing s t ∧ Kept maxMessageSize t ∧
      t.written = s.written ∧ t.sender = s.sender ∧ t.available = [] := by
  obtain ⟨r, taking, follows, -, empty⟩ := kept.follows.finish keeps _ le_rfl
  obtain ⟨reached, arrived⟩ := reachable_reception taking
  refine ⟨_, reached, kept.receives follows arrived, rfl, rfl, ?_⟩
  rw [CobsReception.available, arrived] at empty
  exact empty

theorem Kept.sent_prefix (kept : Kept maxMessageSize s) :
    s.sender.messagesSent <+: (reports 1 s.written).map Prod.snd := by
  cases sending : s.sender.sendingUserData with
  | false =>
    rw [(kept.wrote.idle sending).2.2.2]
    exact List.prefix_refl _
  | true =>
    obtain ⟨_, _, before, contents, split, sent, _⟩ := kept.wrote.busy sending
    rw [split, sent, ← CobsSender.sizes, CobsSender.sizes_concat]
    exact List.prefix_append _ _

/-- Round trip: whatever the order of the steps, the receiver delivers the messages that
were written, in order, and can always be brought to deliver all of them; between the
delimiters no zero is sent; and both ends account for the same sizes, within what
`MessageSize` says. -/
theorem round_trip (maxMessageSize : Nat) (keeps : Nat → Bool) (s : CobsLink)
    (reached : Reachable (step maxMessageSize keeps) anyStep construct s) :
    s.receiver.messagesReceived.map Prod.fst <+: s.written ∧
    (s.sender.completion = none → s.available = [] →
      s.receiver.messagesReceived.map Prod.fst = s.written) ∧
    (∃ t, Reachable (step maxMessageSize keeps) finishing s t ∧
      t.receiver.messagesReceived.map Prod.fst = s.written) ∧
    s.sender.serialData <+: wire s.written ∧
    (∀ contents ∈ s.written, 0 ∉ Cobs.encode contents) ∧
    ∀ i contents size, s.receiver.messagesReceived[i]? = some (contents, size) →
      (∀ sent, s.sender.messagesSent[i]? = some sent → size = sent) ∧
      size ≤ CobsSender.messageSize contents.length + if i = 0 then 1 else 0 := by
  have kept := kept_of_reachable reached
  have received := kept.received_prefix
  have getElem?_of_prefix : ∀ {α : Type} {front whole : List α} {i : Nat} {x : α},
      front <+: whole → front[i]? = some x → whole[i]? = some x := by
    rintro α front whole i x ⟨rest, rfl⟩ found
    exact (getElem?_append_left (List.getElem?_eq_some_iff.mp found).1).trans found
  refine ⟨?_, ?_, ?_, kept.serialData_prefix, fun contents _ => Cobs.zero_notMem_encode contents,
    ?_⟩
  · have front := received.map Prod.fst
    rwa [Cobs.map_reports] at front
  · intro sent taken
    rw [kept.received_all sent taken, Cobs.map_reports]
  · obtain ⟨u, sending, keptU, writtenU, complete⟩ := kept.finish_sending _ le_rfl
    obtain ⟨t, receiving, keptT, writtenT, sender, empty⟩ := keptU.finish_receiving
    refine ⟨t, sending.trans receiving, ?_⟩
    rw [keptT.received_all (sender ▸ complete) empty, Cobs.map_reports, writtenT, writtenU]
  · intro i contents size found
    have report := getElem?_of_prefix received found
    refine ⟨?_, Cobs.reports_le 1 s.written i (contents, size) report⟩
    intro sent told
    have size' := getElem?_of_prefix kept.sent_prefix told
    rw [getElem?_map, report] at size'
    exact Option.some.inj size'

/-- Two messages, the second one received after a pause for the reader of the first. -/
theorem round_trip_pausedReader : ∃ s, Reachable (step 4 fun _ => true) anyStep construct s ∧
    s.written = [[5, 6, 0], [7]] ∧ s.receiver.messagesReceived = [([5, 6, 0], 6), ([7], 3)] ∧
      s.receiver.messagesReceived.map Prod.fst <+: s.written := by
  obtain ⟨s, reached, shown⟩ := Runs.exists_of_execute (step 4 fun _ => true) construct
    [.requestSendMessage 3, .writeMessage [5, 6, 0], .sendDone, .dataReceived 2, .sendDone,
      .sendDone, .dataReceived 4, .requestSendMessage 1, .sendDone, .sendDone,
      .writeMessage [7], .sendDone, .dataReceived 9, .sendDone, .readerReleased,
      .dataReceived 1, .dataReceived 9]
    (fun s => s.written = [[5, 6, 0], [7]] ∧
      s.receiver.messagesReceived = [([5, 6, 0], 6), ([7], 3)]) (by decide +kernel)
  obtain ⟨written, received⟩ := of_decide_eq_true shown
  exact ⟨s, reached, written, received, (round_trip 4 _ s reached).1⟩

end CobsLink

end Sesame
