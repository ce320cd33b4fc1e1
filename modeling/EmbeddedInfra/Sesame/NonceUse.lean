import EmbeddedInfra.Sesame.Secured

/-! Which (key, IV) pairs the sender passes to `Start`. Every notification
`Initialized` puts the initial key and IV back, and every message sent counts the
first half of the IV up by one, modulo its size. -/

namespace Sesame

open List

variable (bytes : Bytes) (index : Nat) (iv : IvType) (cipher : AesGcm) (key : KeyType)

def bigEndian : Nat :=
  bytes.foldl (fun number byte => number * 256 + byte.toNat) 0

theorem bigEndian_concat (byte : UInt8) :
    bigEndian (bytes ++ [byte]) = bigEndian bytes * 256 + byte.toNat := by
  simp [bigEndian]

theorem bigEndian_lt : bigEndian bytes < 256 ^ bytes.length := by
  induction bytes using List.reverseRecOn with
  | nil => simp [bigEndian]
  | append_singleton bytes byte ih =>
    have small := byte.toNat_lt
    rw [bigEndian_concat, length_append, length_singleton, pow_succ]
    omega

theorem drop_increaseFrom (iv : Bytes) : (increaseFrom index iv).drop index = iv.drop index := by
  induction index generalizing iv with
  | zero => rfl
  | succ index ih =>
    have kept : (iv.set index (iv.getD index 0 + 1)).drop (index + 1) = iv.drop (index + 1) :=
      drop_set_of_lt (by omega)
    simp only [increaseFrom]
    split
    · exact kept
    · rw [← drop_drop, ih, drop_drop, kept]

theorem take_set_getD (iv : Bytes) (byte : UInt8) (inside : index < iv.length) :
    (iv.set index byte).take (index + 1) = iv.take index ++ [byte] := by
  rw [take_succ_eq_append_getElem (by simpa using inside)]
  simp [take_set_of_le]

theorem bigEndian_increaseFrom (iv : Bytes) (inside : index ≤ iv.length) :
    bigEndian ((increaseFrom index iv).take index) =
      (bigEndian (iv.take index) + 1) % 256 ^ index := by
  induction index generalizing iv with
  | zero => simp [increaseFrom, bigEndian]
  | succ index ih =>
    have here : index < iv.length := by omega
    have value : bigEndian (iv.take (index + 1)) =
        bigEndian (iv.take index) * 256 + iv[index].toNat := by
      rw [take_succ_eq_append_getElem here, bigEndian_concat]
    have low := iv[index].toNat_lt
    have high := bigEndian_lt (iv.take index)
    rw [length_take, Nat.min_eq_left (by omega)] at high
    have next : (iv[index] + 1).toNat = (iv[index].toNat + 1) % 256 := by
      simp [UInt8.toNat_add]
    have entry : iv.getD index 0 = iv[index] := by simp [here]
    have again : (iv.set index (iv[index] + 1)).getD index 0 = iv[index] + 1 := by
      simp [here]
    simp only [increaseFrom, entry, again]
    rw [value, pow_succ]
    split
    next nonzero =>
      -- the byte does not wrap, so the higher bytes stay
      rw [take_set_getD _ _ _ here, bigEndian_concat, next]
      have noCarry : iv[index].toNat + 1 < 256 := by
        by_contra full
        apply nonzero
        apply UInt8.toNat_inj.mp
        rw [next]
        have : iv[index].toNat + 1 = 256 := by omega
        simp [this]
      rw [Nat.mod_eq_of_lt noCarry, Nat.mod_eq_of_lt (by omega)]
      omega
    next zero =>
      have wrapped : iv[index].toNat = 255 := by
        have isZero := congrArg UInt8.toNat (not_not.mp zero)
        rw [next] at isZero
        have : (0 : UInt8).toNat = 0 := rfl
        omega
      have length := length_increaseFrom index (iv.set index (iv[index] + 1))
      have inside' : index < (increaseFrom index (iv.set index (iv[index] + 1))).length := by
        rw [length]
        simpa using here
      have front := ih (iv.set index (iv[index] + 1)) (by simpa using here.le)
      have last : (increaseFrom index (iv.set index (iv[index] + 1)))[index] = 0 := by
        have same := drop_increaseFrom index (iv.set index (iv[index] + 1))
        have heads := congrArg (fun bytes => bytes[0]?) same
        simp only [getElem?_drop, Nat.add_zero, getElem?_eq_getElem inside',
          getElem?_set_self here, Option.some.injEq] at heads
        rw [heads]
        exact not_not.mp zero
      rw [take_succ_eq_append_getElem inside', bigEndian_concat, front, last,
        take_set_of_le (le_refl index), wrapped]
      have zeroByte : (0 : UInt8).toNat = 0 := rfl
      rw [zeroByte, Nat.add_zero]
      have : bigEndian (iv.take index) * 256 + 255 + 1 =
          (bigEndian (iv.take index) + 1) * 256 := by ring
      rw [this, Nat.mul_mod_mul_right]

theorem bigEndian_injective (left right : Bytes) (sameLength : left.length = right.length)
    (same : bigEndian left = bigEndian right) : left = right := by
  induction left using List.reverseRecOn generalizing right with
  | nil => exact (length_eq_zero_iff.mp sameLength.symm).symm
  | append_singleton left byte ih =>
    obtain rfl | ⟨front, last, rfl⟩ := eq_nil_or_concat' right
    · simp at sameLength
    · rw [bigEndian_concat, bigEndian_concat] at same
      have leftSmall := byte.toNat_lt
      have rightSmall := last.toNat_lt
      have lastSame : byte = last := UInt8.toNat_inj.mp (by omega)
      have frontSame : left = front := ih front (by simpa using sameLength) (by omega)
      rw [lastSame, frontSame]

def counter : Nat := bigEndian (iv.val.take (blockSize / 2))

def counterRange : Nat := 2 ^ 64

theorem counter_lt : counter iv < counterRange := by
  have bound := bigEndian_lt (iv.val.take (blockSize / 2))
  rwa [length_take, iv.property] at bound

theorem counter_increaseIv : counter (increaseIv iv) = (counter iv + 1) % counterRange := by
  have half : blockSize / 2 ≤ iv.val.length := by rw [iv.property]; decide
  have value := bigEndian_increaseFrom (blockSize / 2) iv.val half
  have range : 256 ^ (blockSize / 2) = counterRange := by norm_num [blockSize, counterRange]
  rw [range] at value
  simpa only [counter, increaseIv, iv.property] using value

theorem fixed_increaseIv :
    (increaseIv iv).val.drop (blockSize / 2) = iv.val.drop (blockSize / 2) := by
  simpa only [increaseIv, iv.property] using drop_increaseFrom (blockSize / 2) iv.val

theorem counter_iterate (n : Nat) :
    counter (increaseIv^[n] iv) = (counter iv + n) % counterRange := by
  induction n with
  | zero => simp [Nat.mod_eq_of_lt (counter_lt iv)]
  | succ n ih =>
    rw [Function.iterate_succ_apply', counter_increaseIv, ih, Nat.mod_add_mod]
    rfl

theorem fixed_iterate (n : Nat) :
    (increaseIv^[n] iv).val.drop (blockSize / 2) = iv.val.drop (blockSize / 2) := by
  induction n with
  | zero => rfl
  | succ n ih => rw [Function.iterate_succ_apply', fixed_increaseIv, ih]

theorem iterate_increaseIv_eq_iff (m n : Nat) :
    increaseIv^[m] iv = increaseIv^[n] iv ↔ m % counterRange = n % counterRange := by
  constructor
  · intro same
    have counters := congrArg counter same
    rw [counter_iterate, counter_iterate] at counters
    exact Nat.ModEq.add_left_cancel' (counter iv) counters
  · intro same
    have counters : counter (increaseIv^[m] iv) = counter (increaseIv^[n] iv) := by
      rw [counter_iterate, counter_iterate]
      exact Nat.ModEq.add_left (counter iv) same
    have lengths : (increaseIv^[m] iv).val.length = (increaseIv^[n] iv).val.length := by
      rw [(increaseIv^[m] iv).property, (increaseIv^[n] iv).property]
    have front := bigEndian_injective _ _
      (by rw [length_take, length_take, lengths]) counters
    have back := (fixed_iterate iv m).trans (fixed_iterate iv n).symm
    apply Subtype.ext
    rw [← take_append_drop (blockSize / 2) (increaseIv^[m] iv).val, front, back,
      take_append_drop]

/-- What can happen to a sender. -/
inductive SenderEvent
  | initialized
  | reset
  | requestSendMessage (delegateMax size : Nat)
  | sendMessageStreamAvailable
  | sendMessageStreamReleased (contents : Bytes)
  | receivedMessage (message : Bytes)
  deriving DecidableEq

/-- `Reset` only resets the layer below. A stream can be released only when one
is open. -/
def senderStep (s : SesameSecured) : SenderEvent → Option SesameSecured
  | .initialized => some s.initialized
  | .reset => some s
  | .requestSendMessage delegateMax size =>
    (s.requestSendMessage delegateMax size).map Prod.fst
  | .sendMessageStreamAvailable => some s.sendMessageStreamAvailable
  | .sendMessageStreamReleased contents =>
    if s.sendWriter then (s.sendMessageStreamReleased cipher contents).map Prod.fst else none
  | .receivedMessage message => some (s.receivedMessage cipher message).1

/-- How many messages are sent before the first `Initialized`, between the first
and the second, and so on. -/
def messagesPerEpoch : List SenderEvent → List Nat
  | [] => [0]
  | .initialized :: rest => 0 :: messagesPerEpoch rest
  | .sendMessageStreamReleased _ :: rest =>
    match messagesPerEpoch rest with
    | [] => [1]
    | count :: counts => (count + 1) :: counts
  | _ :: rest => messagesPerEpoch rest

theorem messagesPerEpoch_ne_nil (events : List SenderEvent) : messagesPerEpoch events ≠ [] := by
  fun_induction messagesPerEpoch events <;> simp_all

/-- The pairs of `count` messages sent one after the other. -/
def epochPairs (iv : IvType) (count : Nat) : List (KeyType × IvType) :=
  (List.range count).map fun sent => (key, increaseIv^[sent] iv)

theorem epochPairs_succ (iv : IvType) (count : Nat) :
    epochPairs key iv (count + 1) = (key, iv) :: epochPairs key (increaseIv iv) count := by
  simp [epochPairs, range_succ_eq_map, Function.comp_def]

/-- The sender uses the initial key: no key exchange layer has set another. -/
def UsesInitialKey (s : SesameSecured) : Prop := s.sendEncryption.key = s.initialKeys.sendKey

/-- What the events do to the sender's side: `Initialized` restores the initial IV,
a released stream uses the pair at hand, and nothing else matters. -/
theorem senderStep_cases (s t : SesameSecured) (event : SenderEvent)
    (takes : senderStep cipher s event = some t) :
    t.initialKeys = s.initialKeys ∧
      ((event = .initialized ∧ t.sendIv = s.initialKeys.sendIv ∧
          t.sendEncryption = ⟨s.initialKeys.sendKey, s.sendEncryption.started⟩) ∨
        (∃ contents, event = .sendMessageStreamReleased contents ∧
          t.sendIv = increaseIv s.sendIv ∧
          t.sendEncryption = ⟨s.sendEncryption.key,
            s.sendEncryption.started ++ [(s.sendEncryption.key, s.sendIv)]⟩) ∨
        ((∀ rest, messagesPerEpoch (event :: rest) = messagesPerEpoch rest) ∧
          t.sendIv = s.sendIv ∧ t.sendEncryption = s.sendEncryption)) := by
  cases event with
  | initialized =>
    cases takes
    exact ⟨rfl, .inl ⟨rfl, rfl, rfl⟩⟩
  | reset =>
    cases takes
    exact ⟨rfl, .inr (.inr ⟨fun _ => rfl, rfl, rfl⟩)⟩
  | requestSendMessage delegateMax size =>
    simp only [senderStep, SesameSecured.requestSendMessage] at takes
    split at takes
    next =>
      cases takes
      exact ⟨rfl, .inr (.inr ⟨fun _ => rfl, rfl, rfl⟩)⟩
    next => cases takes
  | sendMessageStreamAvailable =>
    cases takes
    exact ⟨rfl, .inr (.inr ⟨fun _ => rfl, rfl, rfl⟩)⟩
  | sendMessageStreamReleased contents =>
    simp only [senderStep, SesameSecured.sendMessageStreamReleased] at takes
    split at takes
    next =>
      split at takes
      next =>
        cases takes
        exact ⟨rfl, .inr (.inl ⟨contents, rfl, rfl, rfl⟩)⟩
      next => cases takes
    next => cases takes
  | receivedMessage message =>
    cases takes
    simp only [SesameSecured.receivedMessage]
    split
    · exact ⟨rfl, .inr (.inr ⟨fun _ => rfl, rfl, rfl⟩)⟩
    · split
      · exact ⟨rfl, .inr (.inr ⟨fun _ => rfl, rfl, rfl⟩)⟩
      · exact ⟨rfl, .inr (.inr ⟨fun _ => rfl, rfl, rfl⟩)⟩

theorem started_execute (events : List SenderEvent) (s t : SesameSecured)
    (initialKey : UsesInitialKey s) (runs : Runs.execute (senderStep cipher) s events = some t) :
    t.sendEncryption.started = s.sendEncryption.started ++
      epochPairs s.initialKeys.sendKey s.sendIv ((messagesPerEpoch events).headD 0) ++
      ((messagesPerEpoch events).tail.map
        (epochPairs s.initialKeys.sendKey s.initialKeys.sendIv)).flatten := by
  induction events generalizing s with
  | nil =>
    cases runs
    simp [messagesPerEpoch, epochPairs]
  | cons event rest ih =>
    obtain ⟨u, first, remaining⟩ := Option.bind_eq_some_iff.mp runs
    obtain ⟨keys, ⟨rfl, iv, encryption⟩ | ⟨contents, rfl, iv, encryption⟩ | ⟨same, iv, encryption⟩⟩ :=
      senderStep_cases cipher s u event first
    · have later := ih u (by rw [UsesInitialKey, keys, encryption]) remaining
      obtain ⟨count, counts, epochs⟩ := exists_cons_of_ne_nil (messagesPerEpoch_ne_nil rest)
      rw [later, keys, iv, encryption]
      simp [messagesPerEpoch, epochs, epochPairs]
    · have later := ih u (by rw [UsesInitialKey, keys, encryption]; exact initialKey) remaining
      obtain ⟨count, counts, epochs⟩ := exists_cons_of_ne_nil (messagesPerEpoch_ne_nil rest)
      rw [later, keys, iv, encryption, initialKey]
      simp [messagesPerEpoch, epochs, epochPairs_succ]
    · have later := ih u (by rw [UsesInitialKey, keys, encryption]; exact initialKey) remaining
      rw [later, keys, iv, encryption, same]

theorem started_from_construct (keys : KeyMaterial) (size : Nat) (events : List SenderEvent)
    (t : SesameSecured)
    (runs : Runs.execute (senderStep cipher) (.construct keys size) events = some t) :
    t.sendEncryption.started =
      ((messagesPerEpoch events).map (epochPairs keys.sendKey keys.sendIv)).flatten := by
  have started := started_execute cipher events (.construct keys size) t rfl runs
  obtain ⟨count, counts, epochs⟩ := exists_cons_of_ne_nil (messagesPerEpoch_ne_nil events)
  rw [started, epochs]
  simp [SesameSecured.construct]

theorem nodup_epochPairs_iff (iv : IvType) (count : Nat) :
    (epochPairs key iv count).Nodup ↔ count ≤ counterRange := by
  constructor
  · intro distinct
    by_contra more
    have positive : 0 < counterRange := by decide
    have same : increaseIv^[0] iv = increaseIv^[counterRange] iv :=
      (iterate_increaseIv_eq_iff iv 0 counterRange).mpr (by simp)
    have length : (epochPairs key iv count).length = count := by simp [epochPairs]
    have first : 0 < (epochPairs key iv count).length := by omega
    have last : counterRange < (epochPairs key iv count).length := by omega
    have repeated : (epochPairs key iv count)[0] = (epochPairs key iv count)[counterRange] := by
      simp [epochPairs, ← same]
    have equal := (List.Nodup.getElem_inj_iff distinct).mp repeated
    omega
  · intro fits
    apply List.Nodup.map_on _ (nodup_range)
    intro m mBound n nBound same
    rw [mem_range] at mBound nBound
    have residues := (iterate_increaseIv_eq_iff iv m n).mp (Prod.mk.inj same).2
    rwa [Nat.mod_eq_of_lt (by omega), Nat.mod_eq_of_lt (by omega)] at residues

theorem disjoint_epochPairs_iff (iv : IvType) (first second : Nat) :
    (epochPairs key iv first).Disjoint (epochPairs key iv second) ↔ first = 0 ∨ second = 0 := by
  constructor
  · intro disjoint
    by_contra neither
    have inFirst : (key, iv) ∈ epochPairs key iv first :=
      mem_map.mpr ⟨0, mem_range.mpr (by omega), rfl⟩
    have inSecond : (key, iv) ∈ epochPairs key iv second :=
      mem_map.mpr ⟨0, mem_range.mpr (by omega), rfl⟩
    exact disjoint inFirst inSecond
  · rintro (rfl | rfl) <;> simp [epochPairs]

/-- At most one epoch sends messages, and at most as many as the counter can tell
apart. -/
def SendsInOneEpoch (events : List SenderEvent) : Prop :=
  (messagesPerEpoch events).Pairwise (fun first second => first = 0 ∨ second = 0) ∧
    ∀ count ∈ messagesPerEpoch events, count ≤ counterRange

def zeroBlock (size : Nat) : Block size := ⟨List.replicate size 0, length_replicate⟩

def zeroKeys : KeyMaterial := ⟨zeroBlock _, zeroBlock _, zeroBlock _, zeroBlock _⟩

/-- A cipher that leaves the text as it is and authenticates the IV only. -/
def plainEncryption : AesGcmEncryption :=
  { Session := IvType
    start := fun _ iv => iv
    update := fun iv contents => (iv, contents)
    finish := fun iv => ([], iv) }

def plainCipher : AesGcm := ⟨plainEncryption, plainEncryption⟩

/-- One message, a notification `Initialized`, and another message. -/
def sendAcrossInitialized : List SenderEvent :=
  [.requestSendMessage 64 1, .sendMessageStreamAvailable, .sendMessageStreamReleased [1],
    .initialized,
    .requestSendMessage 64 1, .sendMessageStreamAvailable, .sendMessageStreamReleased [2]]

end Sesame
