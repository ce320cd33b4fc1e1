import EmbeddedInfra.Sesame.SesameCobs

/-! The receiving half decodes its bytes as the decoder does that takes them one by one,
however they are cut into ranges and wherever it pauses for a reader. -/

namespace Sesame

open List

open Cobs (Decoder)

namespace CobsReceiver

variable (s : CobsReceiver)

def unfinished : Bytes := s.receivedMessage.drop (s.receivedDataReader.getD 0)

def decoder : Decoder :=
  ⟨s.nextOverhead, s.overheadPositionIsPseudo, s.unfinished, s.receiveSizeEncoded⟩

structure Sound (s : CobsReceiver) : Prop where
  positive : 0 < s.nextOverhead
  size : s.currentMessageSize = s.unfinished.length

/-- Either no reader is held, or nothing came since the message that it reads. -/
def Open : Prop :=
  s.receivedDataReader = none ∨
    (s.nextOverhead = 1 ∧ s.overheadPositionIsPseudo = true ∧ s.unfinished = [])

theorem sound_construct : construct.Sound := ⟨Nat.one_pos, rfl⟩

/-- From `s` to `t`, the bytes of `data` before `rest` were decoded. -/
structure Takes (s : CobsReceiver) (data : Bytes) (t : CobsReceiver) (rest used : Bytes) : Prop where
  split : data = used ++ rest
  decoder : (s.decoder.feed used).1 = t.decoder
  messages : t.messagesReceived = s.messagesReceived ++ (s.decoder.feed used).2
  sound : t.Sound

theorem Takes.trans {s t u : CobsReceiver} {data more rest used used' : Bytes}
    (first : Takes s data t more used) (second : Takes t more u rest used') :
    Takes s data u rest (used ++ used') where
  split := by rw [first.split, second.split, append_assoc]
  decoder := by rw [Decoder.feed_append, first.decoder, second.decoder]
  messages := by
    rw [Decoder.feed_append, second.messages, first.messages, first.decoder, append_assoc]
  sound := second.sound

section

variable (capacity : Nat) (keeps : Nat → Bool)

variable (s : CobsReceiver)

theorem finishMessage_eq (sound : s.Sound) (opened : s.Open) :
    ∃ t, s.finishMessage keeps = some t ∧ t.unfinished = [] ∧ t.currentMessageSize = 0 ∧
      t.receiveSizeEncoded = (if s.unfinished = [] then s.receiveSizeEncoded else 0) ∧
      t.messagesReceived = s.messagesReceived ++
        (if s.unfinished = [] then [] else [(s.unfinished, s.receiveSizeEncoded)]) := by
  have size := sound.size
  unfold finishMessage
  by_cases empty : s.unfinished = []
  · rw [empty, length_nil] at size
    rw [size, if_pos rfl, if_pos empty, if_pos empty, append_nil]
    exact ⟨_, rfl, empty, rfl, rfl, rfl⟩
  · have noReader : s.receivedDataReader = none :=
      opened.resolve_right fun held => empty held.2.2
    have whole : s.unfinished = s.receivedMessage := by
      rw [unfinished, noReader, Option.getD_none, drop_zero]
    have positive : s.currentMessageSize ≠ 0 := by
      rw [size]
      exact fun zero => empty (length_eq_zero_iff.mp zero)
    rw [whole] at size
    simp only [if_neg positive, if_pos noReader, if_neg empty]
    rw [whole, size, take_length, drop_length]
    split
    · exact ⟨_, rfl, drop_length, rfl, rfl, rfl⟩
    · exact ⟨_, rfl, by simp [unfinished], rfl, rfl, rfl⟩

theorem takes_messageBoundary (rest : Bytes) (sound : s.Sound) (opened : s.Open) :
    ∃ t, s.messageBoundary keeps (0 :: rest) = some (t, rest) ∧
      Takes s (0 :: rest) t rest [0] ∧ t.Open := by
  obtain ⟨t, finished, empty, none, size, messages⟩ := finishMessage_eq keeps
    { s with receiveSizeEncoded := s.receiveSizeEncoded + 1 } ⟨sound.positive, sound.size⟩ opened
  have fed : s.decoder.feed [0] = (s.decoder.boundary.1, s.decoder.boundary.2.toList) := by
    simp [Decoder.feed, Decoder.take]
  refine ⟨{ t with nextOverhead := 1, overheadPositionIsPseudo := true }, ?_, ?_, ?_⟩
  · rw [messageBoundary, finished]
    rfl
  · refine ⟨rfl, ?_, ?_, Nat.one_pos, ?_⟩
    · rw [fed]
      change s.decoder.boundary.1 = ⟨1, true, t.unfinished, t.receiveSizeEncoded⟩
      rw [empty, size, Decoder.boundary]
      change (if s.unfinished = [] then _ else _ : Decoder × Option (Bytes × Nat)).1 =
        ⟨1, true, [], if s.unfinished = [] then _ else _⟩
      split <;> rfl
    · rw [fed]
      change t.messagesReceived = _
      rw [messages, Decoder.boundary]
      change _ ++ (if s.unfinished = [] then _ else _) = _ ++
        (if s.unfinished = [] then _ else _ : Decoder × Option (Bytes × Nat)).2.toList
      split <;> rfl
    · exact none.trans (congrArg List.length empty).symm
  · exact .inr ⟨rfl, rfl, empty⟩

theorem receivedPayload_eq (data : Bytes) (sound : s.Sound) (noReader : s.receivedDataReader = none)
    (fits : (s.unfinished ++ data).length ≤ capacity) :
    ∃ t, s.receivedPayload capacity data = some t ∧
      t = { s with
        receivedMessage := s.receivedMessage ++ data
        currentMessageSize := s.currentMessageSize + data.length } ∧
      t.unfinished = s.unfinished ++ data ∧ t.currentMessageSize = t.unfinished.length := by
  have whole : s.unfinished = s.receivedMessage := by
    rw [unfinished, noReader, Option.getD_none, drop_zero]
  have after : CobsReceiver.unfinished { s with
      receivedMessage := s.receivedMessage ++ data
      currentMessageSize := s.currentMessageSize + data.length } = s.unfinished ++ data := by
    rw [unfinished, noReader, Option.getD_none, drop_zero, whole]
  rw [whole, length_append] at fits
  rw [receivedPayload, if_pos fits]
  exact ⟨_, rfl, rfl, after, by rw [after, length_append, ← sound.size]⟩

theorem messageBoundary_nextOverhead (nextOverhead : Nat) (data : Bytes) :
    messageBoundary keeps { s with nextOverhead := nextOverhead } data =
      messageBoundary keeps s data := by
  simp only [messageBoundary, finishMessage]
  split_ifs <;> rfl

theorem takes_extractOverhead (byte : UInt8) (rest : Bytes) (sound : s.Sound) (opened : s.Open)
    (overhead : s.nextOverhead = 1) (fits : s.decoder.Fits capacity (byte :: rest)) :
    ∃ t, s.extractOverhead capacity keeps (byte :: rest) = some (t, rest) ∧
      Takes s (byte :: rest) t rest [byte] := by
  by_cases zero : byte = 0
  · subst zero
    obtain ⟨t, boundary, takes, _⟩ := takes_messageBoundary keeps s rest sound opened
    refine ⟨t, ?_, takes⟩
    rw [← boundary, ← messageBoundary_nextOverhead keeps s 0]
    rfl
  · have positive : byte.toNat ≠ 0 := fun value => zero (UInt8.toNat_inj.mp value)
    have fed : s.decoder.feed [byte] = (⟨byte.toNat, byte.toNat = 255,
        if s.overheadPositionIsPseudo then s.unfinished else s.unfinished ++ [0],
        s.receiveSizeEncoded + 1⟩, []) := by
      simp only [Decoder.feed, Decoder.take, if_neg zero]
      rw [if_pos (show s.decoder.overhead = 1 from overhead)]
      rfl
    simp only [extractOverhead, head?_cons, Option.bind_some, if_neg positive, tail_cons]
    cases pseudo : s.overheadPositionIsPseudo with
    | true =>
      refine ⟨_, rfl, rfl, ?_, ?_, Nat.pos_of_ne_zero positive, sound.size⟩
      · rw [fed, pseudo]
        rfl
      · rw [fed, append_nil]
    | false =>
      have noReader : s.receivedDataReader = none :=
        opened.resolve_right fun held => by cases pseudo.symm.trans held.2.1
      have room : (s.unfinished ++ [0]).length ≤ capacity := by
        have next := fits.2.contents
        simp only [Decoder.take, if_neg zero] at next
        rw [if_pos (show s.decoder.overhead = 1 from overhead)] at next
        simpa [decoder, pseudo] using next
      obtain ⟨t, received, eq, unfinished, size⟩ := receivedPayload_eq capacity
        { s with
          nextOverhead := byte.toNat
          receiveSizeEncoded := s.receiveSizeEncoded + 1 } [0]
        ⟨Nat.pos_of_ne_zero positive, sound.size⟩ noReader room
      rw [pseudo] at received
      rw [if_neg Bool.false_ne_true, received]
      refine ⟨_, rfl, rfl, ?_, ?_, ?_, size⟩
      · rw [fed, pseudo]
        change _ = Decoder.mk t.nextOverhead (t.nextOverhead = 255) t.unfinished
          t.receiveSizeEncoded
        rw [unfinished, eq]
        rfl
      · rw [fed, append_nil, eq]
      · rw [eq]
        exact Nat.pos_of_ne_zero positive

theorem takes_forwardData (contents rest : Bytes) (sound : s.Sound)
    (noReader : s.receivedDataReader = none) (nonzero : 0 ∉ contents)
    (inside : contents.length < s.nextOverhead) (fits : s.decoder.Fits capacity (contents ++ rest)) :
    ∃ t, s.forwardData capacity contents (contents ++ rest) = some (t, rest) ∧
      Takes s (contents ++ rest) t rest contents ∧ t.receivedDataReader = none := by
  have fed := Decoder.feed_run s.decoder contents nonzero inside
  have room := (Decoder.fits_append s.decoder contents rest fits).2.contents
  rw [fed] at room
  obtain ⟨t, received, eq, unfinished, size⟩ := receivedPayload_eq capacity s contents sound
    noReader room
  rw [forwardData, received, drop_left]
  refine ⟨_, rfl, ⟨rfl, ?_, ?_, ?_, size⟩, ?_⟩
  · rw [fed]
    change _ = Decoder.mk (t.nextOverhead - contents.length) t.overheadPositionIsPseudo
      t.unfinished (t.receiveSizeEncoded + contents.length)
    rw [unfinished, eq]
    rfl
  · rw [fed, append_nil, eq]
  · rw [eq]
    exact Nat.sub_pos_of_lt inside
  · rw [eq]
    exact noReader

theorem takes_extractData (data : Bytes) (sound : s.Sound) (noReader : s.receivedDataReader = none)
    (overhead : s.nextOverhead ≠ 1) (nonempty : data ≠ []) (fits : s.decoder.Fits capacity data) :
    ∃ t rest used, s.extractData capacity keeps data = some (t, rest) ∧
      Takes s data t rest used ∧ used ≠ [] ∧ t.Open := by
  have positive := sound.positive
  have nonzero : 0 ∉ (data.take (s.nextOverhead - 1)).takeWhile (· ≠ 0) := by
    intro member
    have zero := mem_takeWhile_imp member
    simp at zero
  have stopped := head?_dropWhile_not (· ≠ 0) (data.take (s.nextOverhead - 1))
  have inside : ((data.take (s.nextOverhead - 1)).takeWhile (· ≠ 0)).length < s.nextOverhead := by
    have short := (List.takeWhile_prefix (l := data.take (s.nextOverhead - 1)) (· ≠ 0)).length_le
    rw [length_take] at short
    omega
  have range : data.take (s.nextOverhead - 1) ≠ [] := by
    rw [Ne, take_eq_nil_iff, not_or]
    exact ⟨by omega, nonempty⟩
  have split : (data.take (s.nextOverhead - 1)).takeWhile (· ≠ 0) ++
      ((data.take (s.nextOverhead - 1)).dropWhile (· ≠ 0) ++ data.drop (s.nextOverhead - 1)) =
        data := by
    rw [← append_assoc, takeWhile_append_dropWhile, take_append_drop]
  rw [← takeWhile_append_dropWhile (p := (· ≠ 0)) (l := data.take (s.nextOverhead - 1))]
    at range
  simp only [extractData]
  generalize (data.take (s.nextOverhead - 1)).takeWhile (· ≠ 0) = preDelimiter at *
  generalize (data.take (s.nextOverhead - 1)).dropWhile (· ≠ 0) = postDelimiter at *
  generalize data.drop (s.nextOverhead - 1) = behind at *
  subst split
  -- With nothing before it, the delimiter comes first; otherwise a run is forwarded.
  have delimiter : postDelimiter = [] ∨ ∃ rest, postDelimiter = 0 :: rest := by
    cases postDelimiter with
    | nil => exact .inl rfl
    | cons byte rest => exact .inr ⟨rest, by simpa using stopped⟩
  by_cases first : preDelimiter = []
  · subst first
    rcases delimiter with rfl | ⟨rest, rfl⟩
    · exact absurd rfl range
    · obtain ⟨t, boundary, takes, opened⟩ := takes_messageBoundary keeps s (rest ++ behind) sound
        (.inl noReader)
      exact ⟨t, _, _, boundary, takes, cons_ne_nil _ _, opened⟩
  · obtain ⟨t, forwarded, takes, released⟩ := takes_forwardData capacity s preDelimiter
      (postDelimiter ++ behind) sound noReader nonzero inside fits
    rw [if_neg first, forwarded, Option.bind_some]
    rcases delimiter with rfl | ⟨rest, rfl⟩
    · exact ⟨t, _, _, rfl, takes, first, .inl released⟩
    · obtain ⟨u, boundary, more, opened⟩ := takes_messageBoundary keeps t (rest ++ behind)
        takes.sound (.inl released)
      exact ⟨u, _, _, boundary, takes.trans more, by simp, opened⟩

theorem takes_receivedDataFor (turns : Nat) (s : CobsReceiver) (data : Bytes) (sound : s.Sound)
    (opened : s.Open) (enough : data.length ≤ turns) (fits : s.decoder.Fits capacity data) :
    ∃ t rest used, s.receivedDataFor capacity keeps turns data = some (t, rest) ∧
      Takes s data t rest used ∧ (data ≠ [] → used ≠ []) := by
  induction turns generalizing s data with
  | zero =>
    have empty : data = [] := length_eq_zero_iff.mp (Nat.le_zero.mp enough)
    subst empty
    exact ⟨s, [], [], rfl, ⟨rfl, rfl, by simp [Decoder.feed], sound⟩, fun some => some⟩
  | succ turns ih =>
    by_cases empty : data = []
    · subst empty
      exact ⟨s, [], [], rfl, ⟨rfl, rfl, by simp [Decoder.feed], sound⟩, fun some => some⟩
    · rw [receivedDataFor, if_neg empty]
      by_cases overhead : s.nextOverhead = 1
      · obtain ⟨byte, rest, rfl⟩ := exists_cons_of_ne_nil empty
        obtain ⟨t, extracted, takes⟩ := takes_extractOverhead capacity keeps s byte rest sound
          opened overhead fits
        simp only [if_pos overhead, extracted, Option.bind_some]
        split
        next released =>
          have later := (Decoder.fits_append s.decoder [byte] rest fits).2
          rw [takes.decoder] at later
          obtain ⟨u, rest', used, received, more, _⟩ := ih t rest takes.sound (.inl released)
            (by simpa using enough) later
          exact ⟨u, rest', _, received, takes.trans more, by simp⟩
        next => exact ⟨t, rest, _, rfl, takes, by simp⟩
      · have noReader : s.receivedDataReader = none :=
          opened.resolve_right fun held => overhead held.1
        obtain ⟨t, rest, used, extracted, takes, some, opened'⟩ := takes_extractData capacity
          keeps s data sound noReader overhead empty fits
        simp only [if_neg overhead, extracted, Option.bind_some]
        have split := takes.split
        subst split
        have later := (Decoder.fits_append s.decoder used rest fits).2
        rw [takes.decoder] at later
        have positive := length_pos_iff.mpr some
        rw [length_append] at enough
        obtain ⟨u, rest', used', received, more, _⟩ := ih t rest takes.sound opened'
          (by omega) later
        exact ⟨u, rest', _, received, takes.trans more, by simp [some]⟩

theorem takes_receivedData (data : Bytes) (sound : s.Sound) (noReader : s.receivedDataReader = none)
    (fits : s.decoder.Fits capacity data) :
    ∃ t rest used, s.receivedData capacity keeps data = some (t, rest) ∧
      Takes s data t rest used ∧ (data ≠ [] → used ≠ []) :=
  takes_receivedDataFor capacity keeps data.length s data sound (.inl noReader) le_rfl fits

theorem readerReleased_eq (t : CobsReceiver) (sound : s.Sound)
    (released : s.readerReleased = some t) :
    t.decoder = s.decoder ∧ t.Sound ∧ t.messagesReceived = s.messagesReceived ∧
      t.receivedDataReader = none := by
  obtain ⟨messageSize, held, rfl⟩ := Option.map_eq_some_iff.mp released
  have same : CobsReceiver.unfinished { s with
      receivedDataReader := none
      receivedMessage := s.receivedMessage.drop messageSize } = s.unfinished := by
    rw [unfinished, unfinished, held]
    rfl
  refine ⟨?_, ⟨sound.positive, sound.size.trans (congrArg List.length same.symm)⟩, rfl, rfl⟩
  rw [decoder, same]
  rfl

end

end CobsReceiver

end Sesame
