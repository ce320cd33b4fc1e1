import EmbeddedInfra.Sesame.CobsReceiving

/-! The receiving half on arbitrary bytes: what it stores stays in its buffer, and after a
delimiter it is in step again, as long as nothing that it decodes is longer than the buffer. -/

namespace Sesame

open List
open Option (bind_eq_some_iff map_eq_some_iff)

open Cobs (Decoder)
open Runs (Reachable anyStep)

/-- A receiver, with all bytes that the serial communication was sent and how many of them the
receiver took. -/
structure CobsReception where
  receiver : CobsReceiver
  arrived : Bytes
  acknowledged : Nat
  deriving DecidableEq

namespace CobsReception

def construct : CobsReception := ⟨.construct, [], 0⟩

def available (s : CobsReception) : Bytes := s.arrived.drop s.acknowledged

def consumed (s : CobsReception) : Bytes := s.arrived.take s.acknowledged

inductive Action
  | arrive (bytes : Bytes)
  | dataReceived (size : Nat)
  | readerReleased

/-- Any bytes arrive; `dataReceived` is a turn of the loop in `DataReceived`, for a contiguous
range of any size. There is no step where an assertion fails. -/
def step (capacity : Nat) (keeps : Nat → Bool) (s : CobsReception) :
    Action → Option CobsReception
  | .arrive bytes => some { s with arrived := s.arrived ++ bytes }
  | .dataReceived size =>
    let range := s.available.take size
    if range ≠ [] ∧ s.receiver.receivedDataReader = none then
      (s.receiver.receivedData capacity keeps range).map fun (receiver, rest) =>
        { s with
          receiver := receiver
          acknowledged := s.acknowledged + (range.length - rest.length) }
    else none
  | .readerReleased => s.receiver.readerReleased.map ({ s with receiver := · })

/-- Nothing that the bytes are decoded to is longer than the buffer. -/
def fitting (capacity : Nat) (s : CobsReception) : Action → Prop
  | .arrive bytes => Decoder.start.Fits capacity (s.arrived ++ bytes)
  | _ => True

def taking (_ : CobsReception) : Action → Prop
  | .arrive _ => False
  | _ => True

end CobsReception

namespace CobsReceiver

variable {capacity : Nat} {keeps : Nat → Bool} {s t : CobsReceiver} {data rest : Bytes}

theorem stored_receivedPayload (received : s.receivedPayload capacity data = some t) :
    t.receivedMessage.length ≤ capacity := by
  rw [receivedPayload] at received
  split at received
  next fits =>
    obtain rfl := Option.some.inj received
    exact (length_append ..).trans_le fits
  next => cases received

theorem stored_messageBoundary (stored : s.receivedMessage.length ≤ capacity)
    (boundary : s.messageBoundary keeps data = some (t, rest)) :
    t.receivedMessage.length ≤ capacity := by
  obtain ⟨u, finished, same⟩ := map_eq_some_iff.mp boundary
  obtain ⟨rfl, -⟩ := Prod.mk.inj same
  simp only [finishMessage] at finished
  split at finished
  next =>
    obtain rfl := Option.some.inj finished
    exact stored
  next =>
    split at finished
    next =>
      split at finished
      next =>
        obtain rfl := Option.some.inj finished
        exact stored
      next =>
        obtain rfl := Option.some.inj finished
        exact (drop_sublist ..).length_le.trans stored
    next => cases finished

theorem stored_extractOverhead (stored : s.receivedMessage.length ≤ capacity)
    (extracted : s.extractOverhead capacity keeps data = some (t, rest)) :
    t.receivedMessage.length ≤ capacity := by
  obtain ⟨overhead, -, extracted⟩ := bind_eq_some_iff.mp extracted
  simp only at extracted
  split at extracted
  next =>
    refine stored_messageBoundary ?_ extracted
    exact stored
  next =>
    obtain ⟨u, received, same⟩ := map_eq_some_iff.mp extracted
    obtain ⟨rfl, -⟩ := Prod.mk.inj same
    split at received
    next =>
      obtain rfl := Option.some.inj received
      exact stored
    next =>
      have stored' := stored_receivedPayload received
      exact stored'

theorem stored_extractData (stored : s.receivedMessage.length ≤ capacity)
    (extracted : s.extractData capacity keeps data = some (t, rest)) :
    t.receivedMessage.length ≤ capacity := by
  obtain ⟨⟨u, behind⟩, forwarded, extracted⟩ := bind_eq_some_iff.mp extracted
  have stored' : u.receivedMessage.length ≤ capacity := by
    split at forwarded
    next =>
      obtain ⟨rfl, -⟩ := Prod.mk.inj (Option.some.inj forwarded)
      exact stored
    next =>
      obtain ⟨v, received, same⟩ := map_eq_some_iff.mp forwarded
      obtain ⟨rfl, -⟩ := Prod.mk.inj same
      have stored' := stored_receivedPayload received
      exact stored'
  simp only at extracted
  split at extracted
  next =>
    obtain ⟨rfl, -⟩ := Prod.mk.inj (Option.some.inj extracted)
    exact stored'
  next => exact stored_messageBoundary stored' extracted

theorem stored_receivedDataFor (turns : Nat) (stored : s.receivedMessage.length ≤ capacity)
    (received : s.receivedDataFor capacity keeps turns data = some (t, rest)) :
    t.receivedMessage.length ≤ capacity := by
  induction turns generalizing s data with
  | zero =>
    rw [receivedDataFor] at received
    split at received
    next =>
      obtain ⟨rfl, -⟩ := Prod.mk.inj (Option.some.inj received)
      exact stored
    next => cases received
  | succ turns ih =>
    rw [receivedDataFor] at received
    split at received
    next =>
      obtain ⟨rfl, -⟩ := Prod.mk.inj (Option.some.inj received)
      exact stored
    next =>
      simp only at received
      split at received
      next =>
        obtain ⟨⟨u, behind⟩, extracted, received⟩ := bind_eq_some_iff.mp received
        have stored' := stored_extractOverhead stored extracted
        simp only at received
        split at received
        next => exact ih stored' received
        next =>
          obtain ⟨rfl, -⟩ := Prod.mk.inj (Option.some.inj received)
          exact stored'
      next =>
        obtain ⟨⟨u, behind⟩, extracted, received⟩ := bind_eq_some_iff.mp received
        exact ih (stored_extractData stored extracted) received

end CobsReceiver

namespace CobsReception

/-- The receiver has decoded what it took. -/
structure Follows (capacity : Nat) (s : CobsReception) : Prop where
  sound : s.receiver.Sound
  acknowledged : s.acknowledged ≤ s.arrived.length
  decoded : Decoder.start.feed s.consumed = (s.receiver.decoder, s.receiver.messagesReceived)
  fits : Decoder.start.Fits capacity s.arrived

variable {capacity : Nat} {keeps : Nat → Bool} {s : CobsReception}

theorem consumed_append_available (s : CobsReception) : s.consumed ++ s.available = s.arrived :=
  take_append_drop _ _

theorem stored_step (s : CobsReception) (a : Action) (t : CobsReception)
    (stored : s.receiver.receivedMessage.length ≤ capacity)
    (taken : s.step capacity keeps a = some t) :
    t.receiver.receivedMessage.length ≤ capacity := by
  cases a with
  | arrive bytes =>
    obtain rfl := Option.some.inj taken
    exact stored
  | dataReceived size =>
    simp only [step] at taken
    split at taken
    next =>
      obtain ⟨⟨receiver, rest⟩, received, rfl⟩ := map_eq_some_iff.mp taken
      exact CobsReceiver.stored_receivedDataFor _ stored received
    next => cases taken
  | readerReleased =>
    obtain ⟨receiver, released, rfl⟩ := map_eq_some_iff.mp taken
    obtain ⟨messageSize, -, rfl⟩ := map_eq_some_iff.mp released
    exact (drop_sublist ..).length_le.trans stored

theorem arrived_of_step {a : Action} {t : CobsReception} (takes : taking s a)
    (taken : s.step capacity keeps a = some t) : t.arrived = s.arrived := by
  cases a with
  | arrive bytes => exact takes.elim
  | dataReceived size =>
    simp only [step] at taken
    split at taken
    next =>
      obtain ⟨_, -, rfl⟩ := map_eq_some_iff.mp taken
      rfl
    next => cases taken
  | readerReleased =>
    obtain ⟨_, -, rfl⟩ := map_eq_some_iff.mp taken
    rfl

variable (keeps) in
theorem Follows.dataReceived (follows : Follows capacity s) (size : Nat)
    (nonempty : s.available.take size ≠ []) (noReader : s.receiver.receivedDataReader = none) :
    ∃ t, s.step capacity keeps (.dataReceived size) = some t ∧ Follows capacity t ∧
      t.arrived = s.arrived ∧ s.acknowledged < t.acknowledged := by
  have whole := follows.fits
  rw [← consumed_append_available, ← take_append_drop size s.available] at whole
  have fits := (Decoder.fits_append _ _ _ whole).2
  rw [follows.decoded] at fits
  obtain ⟨receiver, rest, used, received, takes, progress⟩ := CobsReceiver.takes_receivedData
    capacity keeps s.receiver (s.available.take size) follows.sound noReader
      (Decoder.fits_append _ _ _ fits).1
  have split := takes.split
  have length : (s.available.take size).length - rest.length = used.length := by
    rw [split, length_append, Nat.add_sub_cancel_right]
  obtain ⟨behind, front⟩ : used <+: s.available :=
    List.IsPrefix.trans ⟨rest, split.symm⟩ (List.take_prefix _ _)
  have positive := length_pos_iff.mpr (progress nonempty)
  have total := congrArg List.length (consumed_append_available s)
  rw [← front, consumed, length_append, length_append, length_take,
    min_eq_left follows.acknowledged] at total
  refine ⟨{ s with receiver := receiver, acknowledged := s.acknowledged + used.length }, ?_, ?_,
    rfl, Nat.lt_add_of_pos_right positive⟩
  · simp only [step, received, Option.map_some, length]
    rw [if_pos ⟨nonempty, noReader⟩]
  · refine ⟨takes.sound, by simp only; omega, ?_, follows.fits⟩
    have consumed' : s.arrived.take (s.acknowledged + used.length) = s.consumed ++ used := by
      rw [take_add, consumed, ← available, ← front, take_left]
    rw [consumed]
    simp only
    rw [consumed', Decoder.feed_append, follows.decoded, takes.decoder, takes.messages]

theorem Follows.readerReleased (follows : Follows capacity s) {receiver : CobsReceiver}
    (released : s.receiver.readerReleased = some receiver) :
    Follows capacity { s with receiver := receiver } := by
  obtain ⟨decoder, sound, messages, -⟩ :=
    CobsReceiver.readerReleased_eq s.receiver receiver follows.sound released
  exact ⟨sound, follows.acknowledged,
    follows.decoded.trans (congrArg₂ Prod.mk decoder.symm messages.symm), follows.fits⟩

theorem follows_step (s : CobsReception) (a : Action) (t : CobsReception)
    (follows : Follows capacity s) (meets : fitting capacity s a)
    (taken : s.step capacity keeps a = some t) : Follows capacity t := by
  cases a with
  | arrive bytes =>
    obtain rfl := Option.some.inj taken
    have same : (s.arrived ++ bytes).take s.acknowledged = s.consumed :=
      take_append_of_le_length follows.acknowledged
    exact ⟨follows.sound,
      follows.acknowledged.trans (length_append ▸ Nat.le_add_right _ _),
      (congrArg _ same).trans follows.decoded, meets⟩
  | dataReceived size =>
    have enabled : s.available.take size ≠ [] ∧ s.receiver.receivedDataReader = none := by
      by_contra disabled
      simp only [step, if_neg disabled] at taken
      cases taken
    obtain ⟨t', taken', follows', -⟩ :=
      follows.dataReceived keeps size enabled.1 enabled.2
    cases taken'.symm.trans taken
    exact follows'
  | readerReleased =>
    obtain ⟨receiver, released, rfl⟩ := map_eq_some_iff.mp taken
    exact follows.readerReleased released

variable (keeps) in
theorem Follows.finish (left : Nat) (follows : Follows capacity s)
    (bound : s.available.length ≤ left) :
    ∃ t, Reachable (step capacity keeps) taking s t ∧ Follows capacity t ∧
      t.arrived = s.arrived ∧ t.available = [] := by
  induction left generalizing s with
  | zero => exact ⟨s, .refl, follows, rfl, length_eq_zero_iff.mp (Nat.le_zero.mp bound)⟩
  | succ left ih =>
    by_cases empty : s.available = []
    · exact ⟨s, .refl, follows, rfl, empty⟩
    · obtain ⟨u, first, followsU, arrivedU, availableU, noReader⟩ :
          ∃ u, Reachable (step capacity keeps) taking s u ∧ Follows capacity u ∧
            u.arrived = s.arrived ∧ u.available = s.available ∧
              u.receiver.receivedDataReader = none := by
        cases held : s.receiver.receivedDataReader with
        | none => exact ⟨s, .refl, follows, rfl, rfl, held⟩
        | some messageSize =>
          have released : s.receiver.readerReleased = some { s.receiver with
              receivedDataReader := none
              receivedMessage := s.receiver.receivedMessage.drop messageSize } := by
            rw [CobsReceiver.readerReleased, held]
            rfl
          exact ⟨_, .tail .readerReleased .refl trivial (congrArg (Option.map _) released),
            follows.readerReleased released, rfl, rfl, rfl⟩
      obtain ⟨v, taken, followsV, arrivedV, more⟩ := followsU.dataReceived keeps
        u.available.length (by rwa [take_length, availableU]) noReader
      have shorter : v.available.length ≤ left := by
        have inside := followsV.acknowledged
        rw [← availableU, available, length_drop] at bound
        rw [arrivedV] at inside
        rw [available, length_drop, arrivedV]
        omega
      obtain ⟨t, reached, followsT, arrivedT, done⟩ := ih followsV shorter
      exact ⟨t, (first.tail (Action.dataReceived _) trivial taken).trans reached, followsT,
        arrivedT.trans (arrivedV.trans arrivedU), done⟩

theorem Follows.delivered (follows : Follows capacity s) (taken : s.available = [])
    {garbage rest : Bytes} {messages : List Bytes}
    (arrived : s.arrived = garbage ++ 0 :: (Cobs.stream messages ++ rest))
    (nonempty : ∀ contents ∈ messages, contents ≠ []) :
    messages <:+: s.receiver.messagesReceived.map Prod.fst := by
  have whole := consumed_append_available s
  rw [taken, append_nil] at whole
  have decoded := congrArg Prod.snd follows.decoded
  obtain ⟨before, boundary⟩ : ∃ before,
      (Decoder.start.feed (garbage ++ [0])).1 = { Decoder.start with taken := before } := by
    rw [Decoder.feed_append]
    simp only [Decoder.feed, Decoder.take, if_true, Decoder.boundary]
    split
    · exact ⟨_, rfl⟩
    · exact ⟨0, rfl⟩
  rw [whole, arrived, ← singleton_append, ← append_assoc, Decoder.feed_append,
    Decoder.feed_append, boundary, Cobs.feed_stream before messages nonempty] at decoded
  rw [show s.receiver.messagesReceived = _ from decoded.symm]
  simp only [map_append, Cobs.map_reports]
  exact ⟨_, _, append_assoc _ _ _⟩

/-- On any bytes that are decoded to nothing longer than the buffer no assertion fails, what is
stored stays in the buffer, and all bytes can be taken; and messages whose encoding follows a
delimiter are delivered. -/
theorem resynchronises (capacity : Nat) (keeps : Nat → Bool) (s : CobsReception)
    (reached : Reachable (step capacity keeps) (fitting capacity) construct s) :
    s.receiver.receivedMessage.length ≤ capacity ∧
    (∀ size, s.available.take size ≠ [] → s.receiver.receivedDataReader = none →
      (s.step capacity keeps (.dataReceived size)).isSome) ∧
    (∃ t, Reachable (step capacity keeps) taking s t ∧ t.arrived = s.arrived ∧ t.available = []) ∧
    (s.available = [] → ∀ garbage messages rest,
      s.arrived = garbage ++ 0 :: (Cobs.stream messages ++ rest) →
        (∀ contents ∈ messages, contents ≠ []) →
          messages <:+: s.receiver.messagesReceived.map Prod.fst) := by
  have follows : Follows capacity s :=
    reached.invariant ⟨CobsReceiver.sound_construct, le_rfl, rfl, Nat.zero_le _⟩ follows_step
  have stored := @Reachable.invariant _ _ _ _ _
    (fun s => s.receiver.receivedMessage.length ≤ capacity) (Nat.zero_le _)
    (fun s a t stored _ => stored_step s a t stored) s reached
  refine ⟨stored, fun size nonempty noReader => ?_, ?_,
    fun taken garbage messages rest => follows.delivered taken⟩
  · obtain ⟨t, taken, -⟩ := follows.dataReceived keeps size nonempty noReader
    exact taken ▸ rfl
  · obtain ⟨t, taken, -, arrived, done⟩ := follows.finish keeps _ le_rfl
    exact ⟨t, taken, arrived, done⟩

instance decidableFits (capacity : Nat) : ∀ (s : Decoder) (data : Bytes),
    Decidable (s.Fits capacity data)
  | s, [] => inferInstanceAs (Decidable (s.contents.length ≤ capacity))
  | s, byte :: rest =>
    haveI := decidableFits capacity (s.take byte).1 rest
    inferInstanceAs (Decidable (_ ∧ _))

instance (capacity : Nat) (s : CobsReception) : DecidablePred (fitting capacity s)
  | .arrive bytes => decidableFits capacity .start (s.arrived ++ bytes)
  | .dataReceived _ => .isTrue trivial
  | .readerReleased => .isTrue trivial

/-- A frame is cut short, and the frame of `[7, 0]` follows the next delimiter. -/
theorem resynchronises_cutShort : ∃ s, Reachable (step 5 fun _ => true) (fitting 5) construct s ∧
    s.receiver.messagesReceived.map Prod.fst = [[9, 0, 9], [7, 0]] ∧
    s.receiver.receivedMessage.length ≤ 5 := by
  obtain ⟨s, reached, shown⟩ := Runs.exists_of_executeIf (fitting 5) (step 5 fun _ => true)
    construct [.arrive [2, 9, 2, 9, 0, 2, 7, 1, 0], .dataReceived 9, .readerReleased,
      .dataReceived 9]
    (fun s => s.receiver.messagesReceived.map Prod.fst = [[9, 0, 9], [7, 0]]) (by decide +kernel)
  exact ⟨s, reached, of_decide_eq_true shown, (resynchronises 5 _ s reached).1⟩

/-- A frame of more bytes than the buffer has: an assertion fails. -/
theorem not_resynchronises : ∃ s,
    Reachable (step (CobsReceiver.receiveBufferSize 1) fun _ => false) anyStep construct s ∧
    s.available.take 5 ≠ [] ∧ s.receiver.receivedDataReader = none ∧
    s.step (CobsReceiver.receiveBufferSize 1) (fun _ => false) (.dataReceived 5) = none := by
  obtain ⟨s, reached, shown⟩ := Runs.exists_of_execute
    (step (CobsReceiver.receiveBufferSize 1) fun _ => false) construct [.arrive [5, 1, 1, 1, 1]]
    (fun s => s.available.take 5 ≠ [] ∧ s.receiver.receivedDataReader = none ∧
      s.step (CobsReceiver.receiveBufferSize 1) (fun _ => false) (.dataReceived 5) = none)
    (by decide +kernel)
  exact ⟨s, reached, of_decide_eq_true shown⟩

end CobsReception

end Sesame
