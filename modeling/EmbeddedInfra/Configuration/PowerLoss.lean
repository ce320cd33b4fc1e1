import EmbeddedInfra.Configuration.ConfigurationBlob

/-! A configuration store survives the loss of power: one of its blobs holds the last
configuration or the one that was being written. -/

namespace Configuration

open List

open CrashLogic Hal
open Bootloader (word wordBytes bytesOf)

variable {blobs : ConfigurationBlobs}

/-! ### Images of configurations -/

namespace ConfigurationBlobs

variable (blobs)

def Fits (configuration : List Byte) : Prop := headerSize + configuration.length ≤ blobs.blobSize

/-- What a blob holds that a configuration has been written to. -/
def image (configuration : List Byte) : List Byte :=
  let sized := wordBytes (BitVec.ofNat 32 configuration.length) ++ configuration
  (blobs.sha256 sized).toList.take hashSize ++ (sized ++
    List.replicate (blobs.blobSize - headerSize - configuration.length) 0xff)

variable {blobs} {configuration : List Byte}

theorem length_hash (message : List Byte) :
    ((blobs.sha256 message).toList.take hashSize).length = hashSize := by
  rw [length_take, Vector.length_toList]
  rfl

theorem Fits.length_image (fits : blobs.Fits configuration) :
    (blobs.image configuration).length = blobs.blobSize := by
  simp only [Fits, headerSize] at fits
  rw [image, length_append, length_hash]
  simp only [length_append, Bootloader.length_wordBytes, length_replicate, hashSize,
    headerSize]
  omega

theorem Fits.size_toNat (fits : blobs.Fits configuration) :
    (BitVec.ofNat 32 configuration.length).toNat = configuration.length := by
  have addressable := blobs.addressable
  simp only [Fits, headerSize] at fits
  exact Nat.mod_eq_of_lt (by omega)

theorem mod_sizeWidth {size : Nat} (small : size ≤ blobs.blobSize) :
    size % 2 ^ blobs.sizeWidth = size := by
  have addressable := blobs.addressable
  have wide : 2 ^ 32 ≤ 2 ^ blobs.sizeWidth := Nat.pow_le_pow_right (by decide) blobs.wide
  exact Nat.mod_eq_of_lt (by omega)

theorem take_sized (fits : blobs.Fits configuration) (fill : List Byte) :
    (wordBytes (BitVec.ofNat 32 configuration.length) ++ (configuration ++ fill)).take
        ((configuration.length + 4) % 2 ^ blobs.sizeWidth) =
      wordBytes (BitVec.ofNat 32 configuration.length) ++ configuration := by
  have small : configuration.length + 4 ≤ blobs.blobSize := by
    simp only [Fits, headerSize] at fits
    omega
  rw [mod_sizeWidth small, ← append_assoc]
  apply take_left'
  rw [length_append, Bootloader.length_wordBytes]
  omega

theorem prepareBlobForWriting_eq (fits : blobs.Fits configuration) {header : List Byte}
    (length : header.length = headerSize) :
    blobs.prepareBlobForWriting (header ++ configuration ++
        List.replicate (blobs.blobSize - headerSize - configuration.length) 0xff)
        (BitVec.ofNat 32 configuration.length) = blobs.image configuration := by
  have hash : (header.take hashSize).length = hashSize := by
    rw [length_take, length]
    rfl
  have front : (header ++ configuration ++
      List.replicate (blobs.blobSize - headerSize - configuration.length) (0xff : Byte)).take
        hashSize = header.take hashSize := by
    rw [append_assoc, take_append_of_le_length (by rw [length]; decide)]
  have back : (header ++ configuration ++
      List.replicate (blobs.blobSize - headerSize - configuration.length) (0xff : Byte)).drop
        headerSize = configuration ++
          List.replicate (blobs.blobSize - headerSize - configuration.length) 0xff := by
    rw [append_assoc, drop_left' length]
  rw [prepareBlobForWriting, front, back, append_assoc]
  simp only [drop_left' hash]
  rw [fits.size_toNat, take_sized fits, image, append_assoc]

theorem drop_image (configuration : List Byte) :
    (blobs.image configuration).drop hashSize =
      wordBytes (BitVec.ofNat 32 configuration.length) ++ (configuration ++
        List.replicate (blobs.blobSize - headerSize - configuration.length) 0xff) := by
  rw [← append_assoc]
  exact drop_left' (length_hash _)

theorem storedSize_image (configuration : List Byte) :
    storedSize (blobs.image configuration) = BitVec.ofNat 32 configuration.length := by
  have stored : ∀ k, k < 4 → bytesOf (blobs.image configuration) (hashSize + k) =
      (wordBytes (BitVec.ofNat 32 configuration.length)).getD k 0 := by
    intro k small
    have byte : ((blobs.image configuration).drop hashSize).getD k 0 =
        (wordBytes (BitVec.ofNat 32 configuration.length)).getD k 0 := by
      rw [drop_image, getD_append _ _ _ _ small]
    rw [bytesOf, ← byte, getD_eq_getElem?_getD, getD_eq_getElem?_getD,
      getElem?_drop]
  exact Bootloader.word_eq (stored 0 (by decide)) (stored 1 (by decide)) (stored 2 (by decide))
    (stored 3 (by decide))

theorem Fits.valid (fits : blobs.Fits configuration) :
    blobs.blobIsValid (blobs.image configuration) = true := by
  have whole : configuration.length + headerSize ≤ blobs.blobSize := by
    rw [Nat.add_comm]
    exact fits
  rw [blobIsValid, storedSize_image, fits.size_toNat, mod_sizeWidth whole,
    if_neg (Nat.not_lt.mpr whole), drop_image]
  simp only [take_sized fits, beq_iff_eq]
  exact (take_left' (length_hash _)).symm

theorem Fits.currentBlob (fits : blobs.Fits configuration) {store : ConfigurationStoreBase}
    {blob : Blob} (contents : store.blob = blobs.image configuration)
    (size : store.currentSize blob = BitVec.ofNat 32 configuration.length) :
    store.currentBlob blob = configuration := by
  have header : ((blobs.sha256 (wordBytes (BitVec.ofNat 32 configuration.length) ++
      configuration)).toList.take hashSize ++
        wordBytes (BitVec.ofNat 32 configuration.length)).length = headerSize := by
    rw [length_append, length_hash, Bootloader.length_wordBytes]
    rfl
  rw [ConfigurationStoreBase.currentBlob, contents, size, fits.size_toNat, image]
  simp only [append_assoc]
  rw [← append_assoc, drop_left' header, take_left' rfl]

end ConfigurationBlobs

/-! ### The loss of power -/

/-- What the blob at a reference holds. -/
def ConfigurationBlobs.contents (blobs : ConfigurationBlobs) (memory : Memory Blob) (blob : Blob) :
    List Byte :=
  (memory blob).read 0 blobs.blobSize

def Valid (blobs : ConfigurationBlobs) (memory : Memory Blob) (blob : Blob) : Prop :=
  blobs.blobIsValid (blobs.contents memory blob) = true

def Erased (blobs : ConfigurationBlobs) (memory : Memory Blob) (blob : Blob) : Prop :=
  ∀ i, i < blobs.blobSize → (memory blob).memory i = erasedByte

/-- What the loss of power leaves of a write or an erase: any mix of old, new and erased
bytes, which validates only if it is what was there before or what was being written. -/
inductive Torn (blobs : ConfigurationBlobs) (memory : Memory Blob) :
    FlashOperation Blob → Memory Blob → Prop
  | write (blob : Blob) (buffer : List Byte) (address : Nat) (left : Contents)
      (mix : ∀ i, left.memory i = (memory blob).memory i ∨
        left.memory i = ((memory blob).program buffer address).memory i ∨
        left.memory i = erasedByte)
      (complete : Valid blobs (Function.update memory blob left) blob →
        blobs.contents (Function.update memory blob left) blob = blobs.contents memory blob ∨
        blobs.contents (Function.update memory blob left) blob =
          ((memory blob).program buffer address).read 0 blobs.blobSize) :
      Torn blobs memory (.writeBuffer blob buffer address) (Function.update memory blob left)
  | erase (blob : Blob) (first last : Nat) (left : Contents)
      (mix : ∀ i, left.memory i = (memory blob).memory i ∨ left.memory i = erasedByte)
      (complete : Valid blobs (Function.update memory blob left) blob →
        blobs.contents (Function.update memory blob left) blob = blobs.contents memory blob) :
      Torn blobs memory (.eraseSectors blob first last) (Function.update memory blob left)

def device (blobs : ConfigurationBlobs) : Device (Memory Blob) (FlashOperation Blob) where
  does := fun operation s t => t = carryOut blobs.sectors operation s
  tears := fun operation s t => Torn blobs s operation t

/-- The hash of what an erased blob holds is not made of erased bytes. -/
def ErasedIsInvalid (blobs : ConfigurationBlobs) : Prop :=
  blobs.blobIsValid (List.replicate blobs.blobSize erasedByte) = false

variable {memory t : Memory Blob} {crash : Nat → Memory Blob → Prop} {performed : Nat} {blob : Blob}

theorem Erased.contents_eq (erased : Erased blobs memory blob) :
    blobs.contents memory blob = List.replicate blobs.blobSize erasedByte := by
  apply ext_getElem
  · rw [ConfigurationBlobs.contents, Contents.length_read, length_replicate]
  · intro i _ inside
    rw [length_replicate] at inside
    simp only [ConfigurationBlobs.contents, Contents.getElem_read, Nat.zero_add,
      getElem_replicate]
    exact erased i inside

theorem Erased.not_valid (erased : Erased blobs memory blob) (invalid : ErasedIsInvalid blobs) :
    ¬ Valid blobs memory blob := by
  rw [Valid, erased.contents_eq, invalid]
  decide

variable {left : Contents} {post : Nat → Unit → Memory Blob → Prop}

theorem contents_of_ne {other : Blob} (different : other ≠ blob) :
    blobs.contents (Function.update memory blob left) other = blobs.contents memory other := by
  rw [ConfigurationBlobs.contents, ConfigurationBlobs.contents, Function.update_of_ne different]

theorem erased_carryOut (blob : Blob) :
    Erased blobs (carryOut blobs.sectors
      (.eraseSectors blob 0 (blobs.sectors blob).numberOfSectors) memory) blob := by
  intro i inside
  rw [carryOut, Function.update_self]
  apply Contents.erase_inside
  · rw [(blobs.sectors blob).first]
    exact Nat.zero_le i
  · rw [← (blobs.sectors blob).totalSize_eq]
    exact lt_of_lt_of_le inside (blobs.fits_flash blob)

theorem eraseBlob_safely (blob : Blob) (now : crash performed memory)
    (torn : ∀ left, (Valid blobs (Function.update memory blob left) blob →
      blobs.contents (Function.update memory blob left) blob = blobs.contents memory blob) →
      crash performed (Function.update memory blob left))
    (whole : ∀ left, Erased blobs (Function.update memory blob left) blob →
      crash (performed + 1) (Function.update memory blob left) ∧
      post (performed + 1) () (Function.update memory blob left)) :
    (blobs.eraseBlob blob).Safely (device blobs) crash post performed memory := by
  rw [ConfigurationBlobs.eraseBlob, eraseAll, eraseSectors, Program.safely_operate]
  refine ⟨now, ?_, ?_⟩
  · intro t tear
    cases tear with
    | erase _ _ _ left _ complete => exact torn left complete
  · rintro t rfl
    exact whole _ (erased_carryOut blob)

theorem length_block (blob : Blob) (index : Nat) (memory : Memory Blob) :
    ((memory blob).read index (min blobs.verificationSize (blobs.blobSize - index))).length =
      min blobs.verificationSize (blobs.blobSize - index) :=
  Contents.length_read ..

theorem verifyIfIsErased_safely {post : Nat → Bool → Memory Blob → Prop} (blocks index : Nat)
    (enough : blobs.blobSize ≤ index + blocks) (within : index ≤ blobs.blobSize)
    (before : ∀ i, i < index → (memory blob).memory i = erasedByte)
    (now : crash performed memory)
    (finish : ∀ erased, (erased = true → Erased blobs memory blob) → post performed erased memory) :
    (blobs.verifyIfIsErased blob blocks index).Safely (device blobs) crash post performed
      memory := by
  have last : index = blobs.blobSize → Erased blobs memory blob :=
    fun same i inside => before i (same ▸ inside)
  induction blocks generalizing index with
  | zero => exact ⟨now, finish true fun _ => last (by omega)⟩
  | succ blocks ih =>
    rw [ConfigurationBlobs.verifyIfIsErased]
    split
    next more =>
      rw [readBuffer, Program.safely_reading_bind]
      have positive := blobs.verification_pos
      split
      next clear =>
        have next : ∀ i, i < index + min blobs.verificationSize (blobs.blobSize - index) →
            (memory blob).memory i = erasedByte := by
          intro i small
          by_cases old : i < index
          · exact before i old
          · have inside : i - index < ((memory blob).read index
                (min blobs.verificationSize (blobs.blobSize - index))).length := by
              rw [length_block]
              omega
            have byte := all_eq_true.mp clear _ (getElem_mem inside)
            rw [Contents.getElem_read, beq_iff_eq, Nat.add_sub_cancel' (by omega)] at byte
            exact byte
        rw [length_block]
        apply ih
        · omega
        · omega
        · exact next
        · intro same i inside
          exact next i (by omega)
      next => exact ⟨now, finish false nofun⟩
    next done => exact ⟨now, finish true fun _ => last (not_not.mp done)⟩

theorem take_drop_contents (memory : Memory Blob) (blob : Blob) (index : Nat) :
    ((blobs.contents memory blob).drop index).take blobs.verificationSize =
      (memory blob).read index (min blobs.verificationSize (blobs.blobSize - index)) := by
  apply ext_getElem
  · rw [length_take, length_drop, ConfigurationBlobs.contents, Contents.length_read,
      Contents.length_read]
  · intro i _ _
    simp only [ConfigurationBlobs.contents, getElem_take, getElem_drop,
      Contents.getElem_read, Nat.zero_add]

theorem verifyBlock_safely {post : Nat → Bool → Memory Blob → Prop} (blocks index : Nat)
    (now : crash performed memory) (finish : post performed true memory) :
    (blobs.verifyBlock blob (blobs.contents memory blob) blocks index).Safely (device blobs) crash
      post performed memory := by
  induction blocks generalizing index with
  | zero => exact ⟨now, finish⟩
  | succ blocks ih =>
    rw [ConfigurationBlobs.verifyBlock]
    split
    next =>
      rw [readBuffer, Program.safely_reading_bind, if_pos (take_drop_contents memory blob index).symm]
      exact ih _
    next => exact ⟨now, finish⟩

/-! ### The store -/

open ConfigurationStoreBase

/-- Every blob that validates holds the last configuration or the next one, and there is one
if there is a last configuration. -/
structure Cut (blobs : ConfigurationBlobs) (last next : Option (List Byte))
    (memory : Memory Blob) : Prop where
  known : ∀ blob, Valid blobs memory blob → ∃ configuration, blobs.Fits configuration ∧
    (last = some configuration ∨ next = some configuration) ∧
    blobs.contents memory blob = blobs.image configuration
  kept : last ≠ none → ∃ blob, Valid blobs memory blob

/-- The store is ready for the next write: its blob is erased, and the other one holds the
current configuration. -/
structure Ready (blobs : ConfigurationBlobs) (current : Option (List Byte))
    (store : ConfigurationStoreBase) (memory : Memory Blob) : Prop where
  other : store.inactiveBlob = store.activeBlob.other
  length : store.blob.length = blobs.blobSize
  erased : Erased blobs memory store.activeBlob
  some : ∀ configuration, current = some configuration → blobs.Fits configuration ∧
    blobs.contents memory store.inactiveBlob = blobs.image configuration
  none : current = none → ¬ Valid blobs memory store.inactiveBlob

theorem Blob.other_ne (blob : Blob) : blob.other ≠ blob := by
  cases blob with
  | first | second => decide

theorem Blob.eq_or_eq_other (blob one : Blob) : one = blob ∨ one = blob.other := by
  cases blob with
  | first =>
    cases one with
    | first => exact Or.inl rfl
    | second => exact Or.inr rfl
  | second =>
    cases one with
    | first => exact Or.inr rfl
    | second => exact Or.inl rfl

variable {last next : Option (List Byte)}

theorem Cut.update (cut : Cut blobs last next memory)
    (complete : Valid blobs (Function.update memory blob left) blob →
      blobs.contents (Function.update memory blob left) blob = blobs.contents memory blob)
    (safe : Valid blobs memory blob.other ∨ ¬ Valid blobs memory blob) :
    Cut blobs last next (Function.update memory blob left) := by
  have same : ∀ one, Valid blobs (Function.update memory blob left) one →
      blobs.contents (Function.update memory blob left) one = blobs.contents memory one := by
    intro one valid
    rcases blob.eq_or_eq_other one with rfl | rfl
    · exact complete valid
    · exact contents_of_ne blob.other_ne
  constructor
  · intro one valid
    rw [same one valid]
    apply cut.known one
    rw [Valid, ← same one valid]
    exact valid
  · intro some
    have other : Valid blobs memory blob.other := by
      rcases safe with valid | invalid
      · exact valid
      · obtain ⟨one, valid⟩ := cut.kept some
        rcases blob.eq_or_eq_other one with rfl | rfl
        · exact absurd valid invalid
        · exact valid
    refine ⟨blob.other, ?_⟩
    rw [Valid, contents_of_ne blob.other_ne]
    exact other

theorem eraseUnlessErased_safely (cut : Cut blobs last next memory) (blob : Blob)
    (safe : Valid blobs memory blob.other ∨ ¬ Valid blobs memory blob)
    (finish : ∀ n t, Erased blobs t blob → Cut blobs last next t →
      blobs.contents t blob.other = blobs.contents memory blob.other → post n () t)
    (invalid : ErasedIsInvalid blobs) :
    (eraseUnlessErased blobs blob).Safely (device blobs) (fun _ t => Cut blobs last next t) post
      performed memory := by
  rw [eraseUnlessErased, Program.safely_bind, ConfigurationBlobs.isErased]
  apply verifyIfIsErased_safely _ _ (by omega) (Nat.zero_le _) (fun i small => by omega) cut
  intro erased all
  split
  next clear => exact ⟨cut, finish _ _ (all clear) cut rfl⟩
  next =>
    apply eraseBlob_safely blob cut
    · intro left complete
      exact cut.update complete safe
    · intro left erased
      have kept : Cut blobs last next (Function.update memory blob left) :=
        cut.update (fun valid => absurd valid (erased.not_valid invalid)) safe
      exact ⟨kept, finish _ _ erased kept (contents_of_ne blob.other_ne)⟩

variable {configuration : List Byte}

theorem storedSize_of_image (holds : blobs.contents memory blob = blobs.image configuration) :
    ConfigurationBlobs.storedSize (blobs.contents memory blob) =
      BitVec.ofNat 32 configuration.length := by
  rw [holds, ConfigurationBlobs.storedSize_image]

/-- What a recovery comes to: the configuration that it deserializes is the last one or the
next one, and the store is ready. -/
def Recovered (blobs : ConfigurationBlobs) (last next : Option (List Byte))
    (result : ConfigurationStoreBase × Option (List Byte)) (memory : Memory Blob) : Prop :=
  (result.2 = last ∨ ∃ configuration, next = some configuration ∧
    result.2 = some configuration) ∧ Ready blobs result.2 result.1 memory

theorem loaded_safely (cut : Cut blobs last next memory) (valid : Valid blobs memory blob)
    (invalid : ErasedIsInvalid blobs) (store : ConfigurationStoreBase)
    (active : store.activeBlob = blob) (inactive : store.inactiveBlob = blob.other)
    (contents : store.blob = blobs.contents memory blob)
    (size : store.currentSize blob = ConfigurationBlobs.storedSize (blobs.contents memory blob)) :
    (do
      eraseUnlessErased blobs store.inactiveBlob
      pure (store.onBlobLoaded true)).Safely (device blobs) (fun _ t => Cut blobs last next t)
      (fun _ result t => Recovered blobs last next result t) performed memory := by
  obtain ⟨configuration, fits, known, holds⟩ := cut.known blob valid
  have other : blob.other.other = blob := by
    cases blob with
    | first | second => rfl
  have deserialized : store.swap.currentBlob store.swap.inactiveBlob = configuration := by
    apply fits.currentBlob
    · exact contents.trans holds
    · change store.currentSize store.activeBlob = _
      rw [active, size, storedSize_of_image holds]
  rw [inactive, Program.safely_bind]
  apply eraseUnlessErased_safely cut blob.other (Or.inl (by rwa [other])) _ invalid
  intro n t erased cut' same
  rw [other] at same
  refine ⟨cut', ?_, ?_⟩
  · rw [onBlobLoaded, if_pos rfl, deserialized]
    rcases known with lastIs | nextIs
    · exact Or.inl lastIs.symm
    · exact Or.inr ⟨configuration, nextIs, rfl⟩
  · rw [onBlobLoaded, if_pos rfl, deserialized]
    constructor
    · change store.activeBlob = store.inactiveBlob.other
      rw [active, inactive, other]
    · change store.blob.length = _
      rw [contents, ConfigurationBlobs.contents, Contents.length_read]
    · change Erased blobs t store.inactiveBlob
      rwa [inactive]
    · intro one is
      obtain rfl := Option.some.inj is
      refine ⟨fits, ?_⟩
      change blobs.contents t store.activeBlob = _
      rw [active, same, holds]
    · nofun

theorem recoverBlob_safely {post : Nat → ConfigurationStoreBase × Bool → Memory Blob → Prop}
    (store : ConfigurationStoreBase) (blob : Blob) (now : crash performed memory)
    (valid : Valid blobs memory blob → post performed ({ store with
      blob := blobs.contents memory blob
      currentSize := Function.update store.currentSize blob
        (ConfigurationBlobs.storedSize (blobs.contents memory blob)) }, true) memory)
    (invalid : ¬ Valid blobs memory blob →
      post performed ({ store with blob := blobs.contents memory blob }, false) memory) :
    (blobs.recoverBlob store blob).Safely (device blobs) crash post performed memory := by
  rw [ConfigurationBlobs.recoverBlob, readBuffer, Program.safely_reading_bind]
  split
  next validates => exact ⟨now, valid validates⟩
  next fails => exact ⟨now, invalid fails⟩

theorem recover_safely (cut : Cut blobs last next memory) (invalid : ErasedIsInvalid blobs)
    (ram : List Byte) :
    ((construct ram).recover blobs).Safely (device blobs) (fun _ t => Cut blobs last next t)
      (fun _ result t => Recovered blobs last next result t) 0 memory := by
  rw [recover, Program.safely_bind]
  apply recoverBlob_safely _ _ cut
  · intro first
    rw [if_pos rfl]
    apply loaded_safely cut first invalid
    · rfl
    · rfl
    · rfl
    · simp only [Function.update_self]
  · intro first
    rw [if_neg Bool.false_ne_true, Program.safely_bind]
    apply recoverBlob_safely _ _ cut
    · intro second
      apply loaded_safely cut second invalid
      · rfl
      · rfl
      · rfl
      · simp only [Function.update_self]
    · intro (second : ¬ Valid blobs memory .second)
      rw [Program.safely_bind]
      apply eraseUnlessErased_safely cut .first (Or.inr first) _ invalid
      intro n t erased cut' same
      have nothing : last = none := by
        by_contra some
        obtain ⟨blob, valid⟩ := cut.kept some
        cases blob with
        | first => exact first valid
        | second => exact second valid
      refine ⟨cut', Or.inl nothing.symm, ?_⟩
      constructor
      · rfl
      · exact Contents.length_read ..
      · exact erased
      · nofun
      · intro _ (valid : Valid blobs t .second)
        apply second
        rw [Valid, ← show blobs.contents t .second = blobs.contents memory .second from same]
        exact valid

theorem contents_program (fits : blobs.Fits configuration) (erased : Erased blobs memory blob) :
    ((memory blob).program (blobs.image configuration) 0).read 0 blobs.blobSize =
      blobs.image configuration := by
  apply ext_getElem
  · rw [Contents.length_read, fits.length_image]
  · intro i _ inside
    have small : i < blobs.blobSize := fits.length_image ▸ inside
    rw [Contents.getElem_read]
    apply Contents.program_erased
    rw [Nat.zero_add]
    exact erased i small

theorem write_safely {current : Option (List Byte)} {store : ConfigurationStoreBase}
    (ready : Ready blobs current store memory) (invalid : ErasedIsInvalid blobs)
    (fits : blobs.Fits configuration) :
    (store.write blobs configuration).Safely (device blobs)
      (fun _ t => Cut blobs current (some configuration) t)
      (fun _ result t => ∃ store', result = some store' ∧
        Ready blobs (some configuration) store' t) 0 memory := by
  have free : ¬ Valid blobs memory store.activeBlob := ready.erased.not_valid invalid
  have different : store.inactiveBlob ≠ store.activeBlob := by
    rw [ready.other]
    exact Blob.other_ne _
  have image : blobs.prepareBlobForWriting (store.blob.take headerSize ++ configuration ++
      List.replicate (blobs.blobSize - headerSize - configuration.length) 0xff)
      (BitVec.ofNat 32 configuration.length) = blobs.image configuration := by
    apply ConfigurationBlobs.prepareBlobForWriting_eq fits
    rw [length_take, ready.length]
    exact min_eq_left blobs.header_fits
  -- The other blob keeps the current configuration while this one is written.
  have while_writing : ∀ left, (Valid blobs (Function.update memory store.activeBlob left)
      store.activeBlob → blobs.contents (Function.update memory store.activeBlob left)
        store.activeBlob = blobs.image configuration) →
      Cut blobs current (some configuration) (Function.update memory store.activeBlob left) := by
    intro left complete
    constructor
    · intro blob valid
      rcases store.activeBlob.eq_or_eq_other blob with rfl | rfl
      · exact ⟨configuration, fits, Or.inr rfl, complete valid⟩
      · rw [← ready.other, Valid, contents_of_ne different] at valid
        rw [← ready.other, contents_of_ne different]
        cases is : current with
        | none => exact absurd valid (ready.none is)
        | some one => exact ⟨one, (ready.some one is).1, Or.inl rfl, (ready.some one is).2⟩
    · intro some
      obtain ⟨one, is⟩ := Option.ne_none_iff_exists'.mp some
      refine ⟨store.inactiveBlob, ?_⟩
      rw [Valid, contents_of_ne different, (ready.some one is).2]
      exact (ready.some one is).1.valid
  have before : Cut blobs current (some configuration) memory := by
    have same := while_writing (memory store.activeBlob)
    rw [Function.update_eq_self] at same
    exact same fun valid => absurd valid free
  rw [write, Program.safely_bind, serialize, ConfigurationBlobs.writeBlob, Program.safely_bind,
    writeBuffer, Program.safely_operate, image]
  refine ⟨before, ?_, ?_⟩
  · intro t tear
    cases tear with
    | write _ _ _ left _ complete =>
      apply while_writing
      intro valid
      rcases complete valid with old | new
      · exact absurd (by rw [Valid, ← old]; exact valid) free
      · exact new.trans (contents_program fits ready.erased)
  · rintro t rfl
    rw [carryOut]
    generalize written : (memory store.activeBlob).program (blobs.image configuration) 0 = left
    have holds : blobs.contents (Function.update memory store.activeBlob left)
        store.activeBlob = blobs.image configuration := by
      rw [ConfigurationBlobs.contents, Function.update_self, ← written]
      exact contents_program fits ready.erased
    have cut := while_writing left fun _ => holds
    refine ⟨cut, ?_⟩
    rw [Program.safely_bind, ← holds]
    apply verifyBlock_safely _ _ cut
    refine ⟨cut, ?_⟩
    simp only [if_true]
    rw [Program.safely_bind]
    have valid : Valid blobs (Function.update memory store.activeBlob left) store.activeBlob := by
      rw [Valid, holds]
      exact fits.valid
    have back : store.inactiveBlob.other = store.activeBlob := by
      rw [ready.other]
      cases store.activeBlob with
      | first | second => rfl
    apply eraseBlob_safely store.inactiveBlob cut
    · intro right complete
      exact cut.update complete (Or.inl (by rwa [back]))
    · intro right erased
      have cut' := cut.update (fun valid => absurd valid (erased.not_valid invalid))
        (Or.inl (by rwa [back]))
      refine ⟨cut', cut', _, rfl, ?_⟩
      constructor
      · exact back.symm
      · exact Contents.length_read ..
      · exact erased
      · intro one is
        obtain rfl := Option.some.inj is
        refine ⟨fits, ?_⟩
        change blobs.contents _ store.activeBlob = _
        rw [contents_of_ne different.symm, holds]
      · nofun

/-! ### Histories -/

/-- The power is off, with the configuration written last and the one that was being written;
or it is on, and the store has the current configuration. -/
inductive Phase where
  | off (last next : Option (List Byte))
  | on (current : Option (List Byte)) (store : ConfigurationStoreBase)

/-- What recoveries and writes leave in the flashes, each of which the loss of power may cut. -/
inductive History (blobs : ConfigurationBlobs) : Phase → Memory Blob → Prop
  | fresh (memory : Memory Blob) (nothing : ∀ blob, ¬ Valid blobs memory blob) :
      History blobs (.off none none) memory
  | recoveryCut {last next : Option (List Byte)} {s t : Memory Blob} {performed : Nat}
      (ram : List Byte) (before : History blobs (.off last next) s)
      (cut : Program.Interrupted (device blobs) ((construct ram).recover blobs) s performed t) :
      History blobs (.off last next) t
  | recovered {last next : Option (List Byte)} {s t : Memory Blob} {performed : Nat}
      {result : ConfigurationStoreBase × Option (List Byte)} (ram : List Byte)
      (before : History blobs (.off last next) s)
      (ended : Program.Ends (device blobs) ((construct ram).recover blobs) s result performed t) :
      History blobs (.on result.2 result.1) t
  | written {current : Option (List Byte)} {store after : ConfigurationStoreBase}
      {s t : Memory Blob} {performed : Nat} {configuration : List Byte}
      (before : History blobs (.on current store) s) (fits : blobs.Fits configuration)
      (ended : Program.Ends (device blobs) (store.write blobs configuration) s (some after)
        performed t) : History blobs (.on (some configuration) after) t
  | writeCut {current : Option (List Byte)} {store : ConfigurationStoreBase}
      {s t : Memory Blob} {performed : Nat} {configuration : List Byte}
      (before : History blobs (.on current store) s) (fits : blobs.Fits configuration)
      (cut : Program.Interrupted (device blobs) (store.write blobs configuration) s performed t) :
      History blobs (.off current (some configuration)) t

def Kept (blobs : ConfigurationBlobs) (memory : Memory Blob) : Phase → Prop
  | .off last next => Cut blobs last next memory
  | .on current store => Ready blobs current store memory

theorem History.kept (invalid : ErasedIsInvalid blobs) {phase : Phase}
    (history : History blobs phase memory) : Kept blobs memory phase := by
  induction history with
  | fresh memory nothing =>
    exact ⟨fun blob valid => absurd valid (nothing blob), fun some => absurd rfl some⟩
  | recoveryCut ram _ cut ih => exact (recover_safely ih invalid ram).interrupted cut
  | recovered ram _ ended ih => exact ((recover_safely ih invalid ram).ends ended).2
  | written _ fits ended ih =>
    obtain ⟨_, same, ready⟩ := (write_safely ih invalid fits).ends ended
    obtain rfl := Option.some.inj same
    exact ready
  | writeCut _ fits cut ih => exact (write_safely ih invalid fits).interrupted cut

theorem does_carryOut (operation : FlashOperation Blob) (s : Memory Blob) :
    (device blobs).does operation s (carryOut blobs.sectors operation s) := rfl

/-- After any history, a recovery that is not cut ends with the configuration written last or
the one that was being written, and the blob that the next write uses is erased. -/
theorem recovers (invalid : ErasedIsInvalid blobs)
    (history : History blobs (.off last next) memory) (ram : List Byte) :
    (∃ result performed t,
      Program.Ends (device blobs) ((construct ram).recover blobs) memory result performed t) ∧
    ∀ result performed t,
      Program.Ends (device blobs) ((construct ram).recover blobs) memory result performed t →
      (result.2 = last ∨ ∃ configuration, next = some configuration ∧
        result.2 = some configuration) ∧
      (last ≠ none → result.2 ≠ none) ∧ Erased blobs t result.1.activeBlob := by
  have cut : Cut blobs last next memory := history.kept invalid
  constructor
  · exact ⟨_, _, _, (Program.ends_run does_carryOut _ memory).choose_spec⟩
  · intro result performed t ended
    obtain ⟨outcome, ready⟩ := (recover_safely cut invalid ram).ends ended
    refine ⟨outcome, ?_, ready.erased⟩
    intro some
    rcases outcome with same | ⟨configuration, -, same⟩
    · rwa [same]
    · rw [same]
      exact Option.some_ne_none configuration

theorem exists_history (invalid : ErasedIsInvalid blobs) {other : List Byte}
    (fits : blobs.Fits configuration) (otherFits : blobs.Fits other)
    (nothing : ∀ blob, ¬ Valid blobs memory blob) :
    ∃ t, History blobs (.off (some configuration) (some other)) t := by
  obtain ⟨_, ended⟩ := Program.ends_run does_carryOut ((construct []).recover blobs) memory
  have on := History.recovered [] (.fresh memory nothing) ended
  have ready : Ready blobs _ _ _ := on.kept invalid
  obtain ⟨_, writes⟩ := Program.ends_run does_carryOut
    ((Program.run (carryOut blobs.sectors) ((construct []).recover blobs) memory).1.1.write blobs
      configuration)
    (Program.run (carryOut blobs.sectors) ((construct []).recover blobs) memory).2
  obtain ⟨after, same, -⟩ := (write_safely ready invalid fits).ends writes
  rw [same] at writes
  exact ⟨_, .writeCut (.written on fits writes) otherFits .here⟩

theorem sixtyFour_pos : 0 < 64 := by decide

def smallBlobs : ConfigurationBlobs where
  sectors := fun _ => homogeneous 1 64 Nat.one_pos sixtyFour_pos
  blobSize := 32
  verificationSize := 16
  sizeWidth := 64
  sha256 := fun message => Vector.ofFn fun k => message.getD k 0
  header_fits := by decide
  fits_flash := fun _ => by decide
  addressable := by decide
  wide := by decide
  verification_pos := by decide

/-- One of two configurations is recovered when the write of the second one was cut. -/
theorem recovers_smallBlobs :
    ∃ (memory t : Memory Blob) (result : ConfigurationStoreBase × Option (List Byte))
      (performed : Nat),
      History smallBlobs (.off (some [1]) (some [2])) memory ∧
      Program.Ends (device smallBlobs) ((construct []).recover smallBlobs) memory result performed
        t ∧
      (result.2 = some [1] ∨ result.2 = some [2]) ∧ Erased smallBlobs t result.1.activeBlob := by
  have invalid : ErasedIsInvalid smallBlobs := by
    unfold ErasedIsInvalid
    decide
  have nothing : ∀ blob, ¬ Valid smallBlobs (fun _ => Contents.erased) blob := by
    intro blob
    exact Erased.not_valid (fun _ _ => rfl) invalid
  have one : smallBlobs.Fits [1] := by
    unfold ConfigurationBlobs.Fits
    decide
  have two : smallBlobs.Fits [2] := by
    unfold ConfigurationBlobs.Fits
    decide
  obtain ⟨memory, history⟩ := exists_history invalid one two nothing
  obtain ⟨⟨result, performed, t, ended⟩, every⟩ := recovers invalid history []
  obtain ⟨outcome, -, erased⟩ := every result performed t ended
  refine ⟨memory, t, result, performed, history, ended, ?_, erased⟩
  rcases outcome with same | ⟨configuration, next, same⟩
  · exact Or.inl same
  · obtain rfl := Option.some.inj next
    exact Or.inr same

theorem cut_of_ready {current : Option (List Byte)} {store : ConfigurationStoreBase}
    (ready : Ready blobs current store memory) (invalid : ErasedIsInvalid blobs) :
    Cut blobs current none memory := by
  constructor
  · intro blob valid
    rcases store.activeBlob.eq_or_eq_other blob with rfl | rfl
    · exact absurd valid (ready.erased.not_valid invalid)
    · rw [← ready.other] at valid ⊢
      cases current with
      | none => exact absurd valid (ready.none rfl)
      | some configuration =>
        obtain ⟨fits, holds⟩ := ready.some configuration rfl
        exact ⟨configuration, fits, .inl rfl, holds⟩
  · intro some
    obtain ⟨configuration, is⟩ := Option.ne_none_iff_exists'.mp some
    obtain ⟨fits, holds⟩ := ready.some configuration is
    exact ⟨store.inactiveBlob, by rw [Valid, holds]; exact fits.valid⟩

/-- Restarts, however many of them the loss of power cuts, change neither the current configuration
nor that the next write finds an erased blob. -/
theorem restarts_keep {current : Option (List Byte)} {store : ConfigurationStoreBase}
    {s : Memory Blob} (invalid : ErasedIsInvalid blobs)
    (history : History blobs (.on current store) memory)
    (restarts : Survives (device blobs) (fun ram => (construct ram).recover blobs) anywhere memory s)
    (ram : List Byte) :
    (∃ result performed t,
      Program.Ends (device blobs) ((construct ram).recover blobs) s result performed t) ∧
    ∀ result performed t,
      Program.Ends (device blobs) ((construct ram).recover blobs) s result performed t →
        result.2 = current ∧ Erased blobs t result.1.activeBlob := by
  have same {result : ConfigurationStoreBase × Option (List Byte)} {t : Memory Blob}
      (recovered : Recovered blobs current none result t) : result.2 = current := by
    rcases recovered.1 with same | ⟨_, nothing, _⟩
    · exact same
    · cases nothing
  have cut : Cut blobs current none s := by
    have ready : Ready blobs current store memory := history.kept invalid
    refine restarts.invariant (cut_of_ready ready invalid) ?_ fun _ ram _ _ cut _ reset =>
      (recover_safely cut invalid ram).interrupted reset
    intro s ram result performed t cut ended
    have recovered := (recover_safely cut invalid ram).ends ended
    rw [← same recovered]
    exact cut_of_ready recovered.2 invalid
  refine ⟨⟨_, _, _, (Program.ends_run does_carryOut _ s).choose_spec⟩, ?_⟩
  intro result performed t ended
  have recovered := (recover_safely cut invalid ram).ends ended
  exact ⟨same recovered, recovered.2.erased⟩

theorem restarts_keep_smallBlobs :
    ∃ (store : ConfigurationStoreBase) (memory t : Memory Blob) (performed : Nat)
      (current : Option (List Byte)) (result : ConfigurationStoreBase × Option (List Byte)),
      History smallBlobs (.on current store) memory ∧
      Program.Ends (device smallBlobs) ((construct []).recover smallBlobs) memory result performed
        t ∧ result.2 = current := by
  have invalid : ErasedIsInvalid smallBlobs := by
    unfold ErasedIsInvalid
    decide
  have fits (byte : Byte) : smallBlobs.Fits [byte] := Nat.le_of_ble_eq_true rfl
  have nothing (blob : Blob) : ¬ Valid smallBlobs (fun _ => Contents.erased) blob :=
    Erased.not_valid (fun _ _ => rfl) invalid
  obtain ⟨memory, history⟩ := exists_history invalid (fits 1) (fits 2) nothing
  obtain ⟨_, ended⟩ := Program.ends_run does_carryOut ((construct []).recover smallBlobs) memory
  have on := History.recovered [] history ended
  obtain ⟨⟨result, performed, t, again⟩, every⟩ := restarts_keep invalid on .start []
  exact ⟨_, _, t, performed, _, result, on, again, (every result performed t again).1⟩

end Configuration
