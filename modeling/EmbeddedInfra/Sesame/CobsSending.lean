import EmbeddedInfra.Sesame.SesameCobs

/-! The sending half puts the encoding of a message on the wire, whatever the order in
which its pieces are handed to the serial communication. -/

namespace Sesame

open List

open Cobs (encode firstRun encodeAfter wire reports)

namespace CobsSender

/-- What is still to be handed over for the message that is being sent. -/
def remaining (s : CobsSender) : Bytes :=
  match s.completion with
  | none => []
  | some .sendFirstDelimiter => encode s.dataToSend ++ [0]
  | some .sendFrame => (encode s.dataToSend).drop 1 ++ [0]
  | some .sendData => (encode s.dataToSend).drop (1 + s.frameSize) ++ [0]
  | some .sendLastDelimiter => []

def Framed (s : CobsSender) : Prop :=
  match s.completion with
  | some .sendFirstDelimiter => s.dataToSend ≠ []
  | some .sendFrame => s.frameSize = (firstRun s.dataToSend).length + 1
  | some .sendData => s.frameSize = (firstRun s.dataToSend).length
  | _ => True

theorem findDelimiter_eq (s : CobsSender) : s.findDelimiter = (firstRun s.dataToSend).length := rfl

/-- Everything but the progress of the message that is being sent. -/
def others (s : CobsSender) :=
  (s.sendRequestedSize, s.sendingUserData, s.resetting, s.sendStorage, s.sendStream,
    s.sendStreamDiscarded, s.messagesSent)

/-- `t` is what becomes of `s` when it hands over the first piece of `rest`. -/
structure Sends (s t : CobsSender) (rest : Bytes) : Prop where
  output : t.serialData ++ t.remaining = s.serialData ++ rest
  size : t.sendSizeEncoded + s.serialData.length = s.sendSizeEncoded + t.serialData.length
  more : s.serialData.length < t.serialData.length
  busy : t.completion ≠ none
  framed : t.Framed
  first : s.sendingFirstPacket = false → t.sendingFirstPacket = false
  others : t.others = s.others

variable {s t : CobsSender} {written : List Bytes}

theorem Sends.of_same {s' : CobsSender} {rest : Bytes} (sends : Sends s' t rest)
    (serialData : s.serialData = s'.serialData) (size : s.sendSizeEncoded = s'.sendSizeEncoded)
    (first : s.sendingFirstPacket = s'.sendingFirstPacket) (others : s.others = s'.others) :
    Sends s t rest where
  output := serialData ▸ sends.output
  size := by rw [serialData, size]; exact sends.size
  more := serialData ▸ sends.more
  busy := sends.busy
  framed := sends.framed
  first := fun sent => sends.first (first ▸ sent)
  others := sends.others.trans others.symm

theorem Sends.serialData_prefix {rest : Bytes} (sends : Sends s t rest) :
    s.serialData <+: t.serialData :=
  List.prefix_of_prefix_length_le ⟨rest, sends.output.symm⟩ (List.prefix_append _ _) sends.more.le

theorem sends_of_send (s : CobsSender) (data rest : Bytes) (completion : SendCompletion)
    (nonempty : data ≠ []) (split : rest = data ++ (s.send data completion).remaining)
    (framed : (s.send data completion).Framed) : Sends s (s.send data completion) rest where
  output := by rw [split, ← append_assoc]; rfl
  size := by simp only [send, length_append]; omega
  more := by
    have positive := length_pos_iff.mpr nonempty
    simp only [send, length_append]
    omega
  busy := Option.some_ne_none _
  framed := framed
  first := id
  others := rfl

theorem sends_sendFrame (s : CobsSender) : Sends s s.sendFrame (encode s.dataToSend ++ [0]) := by
  have sends : Sends { s with frameSize := s.findDelimiter + 1 } s.sendFrame
      (encode s.dataToSend ++ [0]) := by
    apply sends_of_send
    · exact cons_ne_nil _ _
    · rw [remaining, send, Cobs.encode_eq, Cobs.frame, findDelimiter_eq]
      simp
    · simp only [Framed, send, findDelimiter_eq]
  exact sends.of_same rfl rfl rfl rfl

theorem sends_sendLastDelimiter (s : CobsSender) : Sends s s.sendLastDelimiter [0] := by
  apply sends_of_send
  · exact cons_ne_nil _ _
  · rfl
  · trivial

theorem sends_sendFirstDelimiter (s : CobsSender) (nonempty : s.dataToSend ≠ []) :
    Sends { s with sendingFirstPacket := false } s.sendFirstDelimiter
      (0 :: (encode s.dataToSend ++ [0])) := by
  apply sends_of_send
  · exact cons_ne_nil _ _
  · rfl
  · exact nonempty

theorem sends_sendOrDone (s : CobsSender) (notResetting : s.resetting = false) :
    ∃ t, s.sendOrDone = some t ∧
      Sends s t ((if s.dataToSend = [] then [] else encode s.dataToSend) ++ [0]) := by
  unfold sendOrDone
  rw [notResetting, if_neg Bool.false_ne_true]
  by_cases empty : s.dataToSend = []
  · rw [if_pos empty, if_pos empty]
    exact ⟨_, rfl, sends_sendLastDelimiter s⟩
  · rw [if_neg empty, if_neg empty]
    exact ⟨_, rfl, sends_sendFrame s⟩

theorem sends_sendFrameDone (s : CobsSender) (notResetting : s.resetting = false) :
    ∃ t, s.sendFrameDone = some t ∧
      Sends s t (encodeAfter s.frameSize (s.dataToSend.drop s.frameSize) ++ [0]) := by
  have eq : s.frameSize = 254 ↔ s.frameSize = Cobs.longestRun := Iff.rfl
  simp only [sendFrameDone, encodeAfter, eq]
  generalize s.dataToSend.drop s.frameSize = rest
  by_cases last : rest = [] ∨ s.frameSize = Cobs.longestRun
  · rw [if_pos last]
    obtain ⟨t, done, sends⟩ := sends_sendOrDone { s with dataToSend := rest } notResetting
    refine ⟨t, done, ?_⟩
    by_cases empty : rest = []
    · simp only [if_pos empty] at sends ⊢
      exact sends.of_same rfl rfl rfl rfl
    · simp only [if_neg empty, if_pos (last.resolve_left empty)] at sends ⊢
      exact sends.of_same rfl rfl rfl rfl
  · rw [if_neg last]
    rw [not_or] at last
    rw [if_neg last.1, if_neg last.2]
    have sends := sends_sendFrame { s with dataToSend := rest.tail }
    exact ⟨_, rfl, sends.of_same rfl rfl rfl rfl⟩

theorem sends_sendStreamFilled (s : CobsSender) (notResetting : s.resetting = false)
    (nonempty : s.sendStorage ≠ []) :
    ∃ t, s.sendStreamFilled = some t ∧
      Sends { s with sendingUserData := true, sendingFirstPacket := false } t
        ((if s.sendingFirstPacket then [0] else []) ++ encode s.sendStorage ++ [0]) := by
  cases first : s.sendingFirstPacket with
  | true =>
    have sends := sends_sendFirstDelimiter
      { s with sendingUserData := true, dataToSend := s.sendStorage } nonempty
    have filled : s.sendStreamFilled = some (sendFirstDelimiter
        { s with sendingUserData := true, dataToSend := s.sendStorage }) := by
      simp [sendStreamFilled, first]
    exact ⟨_, filled, sends.of_same rfl rfl rfl rfl⟩
  | false =>
    obtain ⟨t, filled, sends⟩ := sends_sendOrDone
      { s with sendingUserData := true, dataToSend := s.sendStorage } notResetting
    simp only [if_neg nonempty] at sends
    refine ⟨t, by simpa [sendStreamFilled, first] using filled, ?_⟩
    exact sends.of_same rfl rfl first.symm rfl

/-- The sizes that the messages take on the wire, the first one with the delimiter before
it. -/
def sizes (written : List Bytes) : List Nat := (reports 1 written).map Prod.snd

/-- What holds of the sender when its observer wrote these messages. -/
structure Wrote (s : CobsSender) (written : List Bytes) : Prop where
  noReset : s.resetting = false ∧ s.sendStreamDiscarded = false
  first : s.sendingFirstPacket = decide (written = [])
  output : s.serialData ++ s.remaining = wire written
  framed : s.Framed
  /-- Between two messages. -/
  idle : s.sendingUserData = false → s.completion = none ∧ s.sendStorage = [] ∧
    s.sendSizeEncoded = 0 ∧ s.messagesSent = sizes written
  /-- While the last message is being sent. -/
  busy : s.sendingUserData = true → s.completion ≠ none ∧ s.sendStream = none ∧
    ∃ before contents, written = before ++ [contents] ∧ s.messagesSent = sizes before ∧
      s.serialData.length = (wire before).length + s.sendSizeEncoded

theorem wrote_construct : construct.Wrote [] where
  noReset := ⟨rfl, rfl⟩
  first := rfl
  output := rfl
  framed := trivial
  idle _ := ⟨rfl, rfl, rfl, rfl⟩
  busy sending := nomatch sending

theorem checkReadyToSendUserData_cases (ready : s.checkReadyToSendUserData = some t) :
    t = s ∨ ∃ size, s.sendingUserData = false ∧
      t = { s with sendRequestedSize := none, sendStream := some size } := by
  unfold checkReadyToSendUserData at ready
  split at ready
  next size idle _ =>
    split at ready
    · cases ready
      exact .inr ⟨size, idle, rfl⟩
    · cases ready
  next =>
    cases ready
    exact .inl rfl

theorem checkReadyToSendUserData_isSome (s : CobsSender) (noStream : s.sendStream = none) :
    ∃ t, s.checkReadyToSendUserData = some t := by
  unfold checkReadyToSendUserData
  split
  · exact ⟨_, if_pos noStream⟩
  · exact ⟨s, rfl⟩

theorem Wrote.checkReadyToSendUserData (wrote : s.Wrote written)
    (ready : s.checkReadyToSendUserData = some t) :
    t.Wrote written ∧ t.serialData = s.serialData ∧ t.completion = s.completion := by
  rcases checkReadyToSendUserData_cases ready with rfl | ⟨size, idle, rfl⟩
  · exact ⟨wrote, rfl, rfl⟩
  · exact ⟨⟨wrote.noReset, wrote.first, wrote.output, wrote.framed, wrote.idle,
      fun sending => nomatch idle.symm.trans sending⟩, rfl, rfl⟩

theorem Wrote.requestSendMessage {size : Nat} (wrote : s.Wrote written)
    (requested : s.requestSendMessage size = some t) :
    t.Wrote written ∧ t.serialData = s.serialData := by
  unfold CobsSender.requestSendMessage at requested
  split at requested
  · have stored : Wrote { s with sendRequestedSize := some size } written :=
      ⟨wrote.noReset, wrote.first, wrote.output, wrote.framed, wrote.idle, wrote.busy⟩
    obtain ⟨wrote', serialData, _⟩ := stored.checkReadyToSendUserData requested
    exact ⟨wrote', serialData⟩
  · cases requested

theorem Wrote.writeMessage {maxSize : Nat} {contents : Bytes} (wrote : s.Wrote written)
    (nonempty : contents ≠ []) (writes : s.writeMessage maxSize contents = some t) :
    t.Wrote (written ++ [contents]) ∧ s.serialData <+: t.serialData ∧
      contents.length ≤ maxSize := by
  unfold CobsSender.writeMessage at writes
  split at writes
  next => cases writes
  next limit held =>
    split at writes
    next fits =>
      have idle : s.sendingUserData = false := by
        cases sending : s.sendingUserData with
        | false => rfl
        | true => cases held.symm.trans (wrote.busy sending).2.1
      obtain ⟨silent, empty, size, sent⟩ := wrote.idle idle
      rw [wrote.noReset.2, if_neg Bool.false_ne_true] at writes
      have storage : s.sendStorage ++ contents = contents := by rw [empty, nil_append]
      obtain ⟨u, filled, sends⟩ := sends_sendStreamFilled
        { s with
          sendStream := none
          sendStreamDiscarded := false
          sendStorage := s.sendStorage ++ contents } wrote.noReset.1
        (by rw [storage]; exact nonempty)
      cases filled.symm.trans writes
      have others := sends.others
      simp only [CobsSender.others, Prod.mk.injEq] at others
      obtain ⟨_, sending, resetting, _, stream, discarded, sent'⟩ := others
      have before : s.serialData = wire written := by
        have output := wrote.output
        rwa [remaining, silent, append_nil] at output
      have length := sends.size
      simp only [size, before] at length
      refine ⟨⟨⟨resetting.trans wrote.noReset.1, discarded⟩, ?_, ?_,
        sends.framed, ?_, ?_⟩, sends.serialData_prefix, ?_⟩
      · rw [sends.first rfl]
        simp
      · rw [sends.output, Cobs.wire_concat, before]
        simp only [storage, wrote.first, decide_eq_true_eq]
      · intro notSending
        cases sending.symm.trans notSending
      · intro _
        exact ⟨sends.busy, stream, written, contents, rfl, sent'.trans sent, by omega⟩
      · exact fits.trans ((min_le_right _ _).trans (Nat.sub_le _ _))
    next => cases writes

theorem Wrote.of_sends (wrote : s.Wrote written) (sending : s.sendingUserData = true)
    (sends : Sends s t s.remaining) : t.Wrote written := by
  have others := sends.others
  simp only [CobsSender.others, Prod.mk.injEq] at others
  obtain ⟨_, sending', resetting, _, stream, discarded, sent⟩ := others
  obtain ⟨_, noStream, before, contents, split, sizes, length⟩ := wrote.busy sending
  have notFirst : s.sendingFirstPacket = false := by
    rw [wrote.first, split]
    simp
  refine ⟨⟨resetting.trans wrote.noReset.1, discarded.trans wrote.noReset.2⟩, ?_,
    sends.output.trans wrote.output, sends.framed, ?_, ?_⟩
  · rw [sends.first notFirst, ← wrote.first, notFirst]
  · intro notSending
    cases (sending'.trans sending).symm.trans notSending
  · intro _
    have grown := sends.size
    exact ⟨sends.busy, stream.trans noStream, before, contents, split, sent.trans sizes, by omega⟩

theorem sends_sendDone (s : CobsSender) (notResetting : s.resetting = false) (framed : s.Framed)
    (completion : SendCompletion) (sending : s.completion = some completion)
    (notLast : completion ≠ .sendLastDelimiter) :
    ∃ t, s.sendDone = some t ∧ Sends s t s.remaining := by
  have split := Cobs.encode_eq s.dataToSend
  have run := Cobs.take_length_firstRun s.dataToSend
  rw [Framed, sending] at framed
  rw [sendDone, remaining, sending]
  cases completion with
  | sendFirstDelimiter =>
    obtain ⟨t, done, sends⟩ := sends_sendOrDone { s with completion := none } notResetting
    simp only [if_neg framed] at sends
    exact ⟨t, done, sends.of_same rfl rfl rfl rfl⟩
  | sendFrame =>
    simp only at framed
    have size : s.frameSize - 1 = (firstRun s.dataToSend).length := by omega
    simp only [size]
    rw [if_neg (Bool.eq_false_iff.mp notResetting)]
    by_cases empty : (firstRun s.dataToSend).length = 0
    · rw [if_neg (not_not.mpr empty)]
      obtain ⟨t, done, sends⟩ := sends_sendFrameDone { s with
        completion := none
        frameSize := (firstRun s.dataToSend).length } notResetting
      refine ⟨t, done, ?_⟩
      rw [split, Cobs.frame, length_eq_zero_iff.mp empty]
      rw [length_eq_zero_iff.mp empty] at sends
      exact sends.of_same rfl rfl rfl rfl
    · rw [if_pos empty, run]
      have nonempty : firstRun s.dataToSend ≠ [] := fun nil => empty (by rw [nil]; rfl)
      have tail : (encode s.dataToSend).drop 1 ++ [0] = firstRun s.dataToSend ++
          ((encode s.dataToSend).drop (1 + (firstRun s.dataToSend).length) ++ [0]) := by
        rw [Cobs.drop_encode, split, Cobs.frame]
        simp
      have sends := sends_of_send { s with
        completion := none
        frameSize := (firstRun s.dataToSend).length } (firstRun s.dataToSend)
        _ .sendData nonempty tail rfl
      exact ⟨_, rfl, sends.of_same rfl rfl rfl rfl⟩
  | sendData =>
    simp only at framed
    obtain ⟨t, done, sends⟩ := sends_sendFrameDone { s with completion := none } notResetting
    refine ⟨t, done, ?_⟩
    simp only
    rw [framed, Cobs.drop_encode, ← framed]
    exact sends.of_same rfl rfl rfl rfl
  | sendLastDelimiter => exact absurd rfl notLast

theorem sizes_concat (before : List Bytes) (contents : Bytes) :
    sizes (before ++ [contents]) =
      sizes before ++ [(if before = [] then 1 else 0) + Cobs.wireSize contents] := by
  rw [sizes, Cobs.reports_concat, map_append]
  rfl

theorem Wrote.sendLastDelimiterDone (wrote : s.Wrote written)
    (sending : s.completion = some .sendLastDelimiter) :
    ∃ t, s.sendDone = some t ∧ t.Wrote written ∧ t.serialData = s.serialData ∧
      t.completion = none := by
  have busy : s.sendingUserData = true := by
    cases sending' : s.sendingUserData with
    | true => rfl
    | false => cases sending.symm.trans (wrote.idle sending').1
  obtain ⟨_, noStream, before, contents, split, sent, length⟩ := wrote.busy busy
  have output := wrote.output
  rw [remaining, sending, append_nil] at output
  have total : s.messagesSent ++ [s.sendSizeEncoded] = sizes written := by
    rw [split, sizes_concat, sent]
    congr 2
    have whole := congrArg List.length output
    rw [length, split, Cobs.wire_concat] at whole
    simp only [length_append, length_singleton, Cobs.wireSize] at whole ⊢
    (split <;> simp_all); omega
  have finished : Wrote { s with
      completion := none
      sendStorage := []
      dataToSend := []
      messagesSent := s.messagesSent ++ [s.sendSizeEncoded]
      sendSizeEncoded := 0
      sendingUserData := false } written := by
    refine ⟨wrote.noReset, wrote.first, ?_, trivial, fun _ => ⟨rfl, rfl, rfl, total⟩,
      (by simp)⟩
    rw [remaining, append_nil]
    exact output
  obtain ⟨t, ready⟩ := checkReadyToSendUserData_isSome { s with
      completion := none
      sendStorage := []
      dataToSend := []
      messagesSent := s.messagesSent ++ [s.sendSizeEncoded]
      sendSizeEncoded := 0
      sendingUserData := false } noStream
  refine ⟨t, ?_, finished.checkReadyToSendUserData ready⟩
  rw [sendDone, sending]
  simp only
  rw [if_neg (Bool.eq_false_iff.mp wrote.noReset.1)]
  exact ready

/-- Whenever the serial communication is done with a piece, either the next one follows or
the message is complete. -/
theorem Wrote.sendDone (wrote : s.Wrote written) (sending : s.completion ≠ none) :
    ∃ t, s.sendDone = some t ∧ t.Wrote written ∧ s.serialData <+: t.serialData ∧
      (s.serialData.length < t.serialData.length ∨ t.completion = none) := by
  obtain ⟨completion, sending⟩ := Option.ne_none_iff_exists'.mp sending
  by_cases last : completion = .sendLastDelimiter
  · subst last
    obtain ⟨t, done, wrote', serialData, complete⟩ := wrote.sendLastDelimiterDone sending
    exact ⟨t, done, wrote', serialData ▸ List.prefix_refl _, .inr complete⟩
  · obtain ⟨t, done, sends⟩ := sends_sendDone s wrote.noReset.1 wrote.framed completion
      sending last
    have busy : s.sendingUserData = true := by
      cases sending' : s.sendingUserData with
      | true => rfl
      | false => cases sending.symm.trans (wrote.idle sending').1
    exact ⟨t, done, wrote.of_sends busy sends, sends.serialData_prefix, .inl sends.more⟩

end CobsSender

end Sesame
