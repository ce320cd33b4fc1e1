import EmbeddedInfra.Bootloader.BootSequence
import EmbeddedInfra.Bootloader.JournalRecords

/-! The installation of one image: decryption chunk by chunk gives the decrypted image, and
the copy asks the slot to hold it. -/

namespace Bootloader

open CrashLogic Hal List StatusJournal

namespace Decryptor

variable (encrypt : List Byte → List Byte)

variable (decryptor : Decryptor)

theorem decryptPart_append (front back : List Byte) :
    decryptor.decryptPart encrypt (front ++ back) =
      ((decryptor.decryptPart encrypt front).1 ++
          ((decryptor.decryptPart encrypt front).2.decryptPart encrypt back).1,
        ((decryptor.decryptPart encrypt front).2.decryptPart encrypt back).2) := by
  induction front generalizing decryptor with
  | nil => rfl
  | cons byte rest ih => simp only [cons_append, decryptPart, ih]

@[simp] theorem length_decryptPart (data : List Byte) :
    (decryptor.decryptPart encrypt data).1.length = data.length := by
  induction data generalizing decryptor with
  | nil => rfl
  | cons byte rest ih => simp only [decryptPart, length_cons, ih]

theorem decryptPart_state {data other : List Byte} (same : data.length = other.length) :
    (decryptor.decryptPart encrypt data).2 = (decryptor.decryptPart encrypt other).2 := by
  induction data generalizing decryptor other with
  | nil =>
    rw [length_nil] at same
    rw [eq_nil_of_length_eq_zero same.symm]
  | cons byte rest ih =>
    cases other with
    | nil => cases same
    | cons first others =>
      rw [length_cons, length_cons] at same
      exact ih (decryptor.decryptByte encrypt byte).2 (Nat.succ.inj same)

end Decryptor

variable (memory : Nat → Byte)

@[simp] theorem length_bytesAt (address size : Nat) :
    (bytesAt memory address size).length = size := by
  rw [bytesAt, length_map, length_range]

theorem bytesAt_zero (address : Nat) : bytesAt memory address 0 = [] := rfl

theorem bytesAt_add (address front back : Nat) :
    bytesAt memory address (front + back) =
      bytesAt memory address front ++ bytesAt memory (address + front) back := by
  simp only [bytesAt, range_add, map_append, List.map_map]
  congr 1
  apply map_congr_left
  intro k _
  exact congrArg memory (Nat.add_assoc address front k).symm

namespace BootSequence

variable (boot : BootSequence) {device : Device (Memory Flash) (FlashOperation Flash)}
  {crash : Nat → Memory Flash → Prop} {performed : Nat} {memory : Memory Flash}

variable (address : Nat)

def imageSizeAt : Nat := (boot.openImage address).1.imageSize.toNat

def imageAt : List Byte :=
  ((boot.openImage address).2.decryptPart boot.encrypt
    (bytesAt boot.packFlash (imageAddress address) (boot.imageSizeAt address))).1

@[simp] theorem length_imageAt : (boot.imageAt address).length = boot.imageSizeAt address := by
  rw [imageAt, Decryptor.length_decryptPart, length_bytesAt]

theorem bufferSize_pos : 0 < boot.bufferSize :=
  lt_of_lt_of_le (by decide) boot.buffer_large

theorem decryptPart_chunk (offset size : Nat) (within : offset + size ≤ boot.imageSizeAt address) :
    (((boot.openImage address).2.decryptPart boot.encrypt
        (bytesAt boot.packFlash (imageAddress address) offset)).2.decryptPart boot.encrypt
      (bytesAt boot.packFlash (imageAddress address + offset) size)).1 =
      ((boot.imageAt address).drop offset).take size := by
  obtain ⟨rest, total⟩ := Nat.exists_eq_add_of_le within
  rw [imageAt, total, Nat.add_assoc, bytesAt_add, bytesAt_add, Decryptor.decryptPart_append,
    Decryptor.decryptPart_append, drop_left' (by simp), take_left' (by simp)]

theorem decryptPart_next (offset size : Nat) :
    (((boot.openImage address).2.decryptPart boot.encrypt
        (bytesAt boot.packFlash (imageAddress address) offset)).2.decryptPart boot.encrypt
      (bytesAt boot.packFlash (imageAddress address + offset) size)).2 =
      ((boot.openImage address).2.decryptPart boot.encrypt
        (bytesAt boot.packFlash (imageAddress address) (offset + size))).2 := by
  rw [bytesAt_add, Decryptor.decryptPart_append]

def chunkSize (offset : Nat) : Nat :=
  min boot.bufferSize (boot.imageSizeAt address - offset)

def chunkAt (offset : Nat) : List Byte :=
  ((boot.imageAt address).drop offset).take (boot.chunkSize address offset)

@[simp] theorem length_chunkAt (offset : Nat) :
    (boot.chunkAt address offset).length = boot.chunkSize address offset := by
  rw [chunkAt, length_take, length_drop, length_imageAt]
  exact min_eq_left (min_le_right _ _)

theorem getElem_chunkAt (offset k : Nat) (within : k < (boot.chunkAt address offset).length)
    (inside : offset + k < (boot.imageAt address).length) :
    (boot.chunkAt address offset)[k] = (boot.imageAt address)[offset + k] := by
  simp only [chunkAt, getElem_take, getElem_drop]

theorem copyFrom_safely (inv : Nat → Memory Flash → Prop)
    (now : ∀ n offset s, inv offset s → crash n s)
    (torn : ∀ n offset s t, inv offset s → offset < boot.imageSizeAt address →
      device.tears (.writeBuffer .slot (boot.chunkAt address offset) offset) s t → crash n t)
    (step : ∀ offset s t, inv offset s → offset < boot.imageSizeAt address →
      device.does (.writeBuffer .slot (boot.chunkAt address offset) offset) s t →
      inv (offset + boot.chunkSize address offset) t) (chunks offset : Nat)
    (enough : boot.imageSizeAt address ≤ offset + chunks)
    (within : offset ≤ boot.imageSizeAt address) (starts : inv offset memory) :
    (boot.copyFrom (imageAddress address) (boot.imageSizeAt address) chunks offset
      ((boot.openImage address).2.decryptPart boot.encrypt
        (bytesAt boot.packFlash (imageAddress address) offset)).2).Safely device crash
      (fun _ _ t => inv (boot.imageSizeAt address) t) performed memory := by
  induction chunks generalizing offset performed memory with
  | zero =>
    have last : offset = boot.imageSizeAt address := le_antisymm within enough
    exact ⟨now _ _ _ starts, last ▸ starts⟩
  | succ chunks ih =>
    rw [copyFrom]
    split
    next more =>
      have some_byte : 0 < boot.chunkSize address offset :=
        lt_min boot.bufferSize_pos (Nat.sub_pos_of_lt more)
      have fits : offset + boot.chunkSize address offset ≤ boot.imageSizeAt address := by
        have short : boot.chunkSize address offset ≤ boot.imageSizeAt address - offset :=
          min_le_right _ _
        omega
      have written := boot.decryptPart_chunk address offset _ fits
      have next := boot.decryptPart_next address offset (boot.chunkSize address offset)
      change Program.Safely _ _ _ (writeBuffer Flash.slot
        (((boot.openImage address).2.decryptPart boot.encrypt _).2.decryptPart boot.encrypt
          (bytesAt boot.packFlash (imageAddress address + offset)
            (boot.chunkSize address offset))).1 offset >>= fun _ => _) _ _
      rw [Program.safely_bind, written, writeBuffer, Program.safely_operate]
      refine ⟨now _ _ _ starts, fun t => torn _ offset _ t starts more, ?_⟩
      intro t does
      have kept := step offset memory t starts more does
      refine ⟨now _ _ _ kept, ?_⟩
      rw [length_bytesAt]
      change Program.Safely _ _ _ (boot.copyFrom _ _ _ (offset + boot.chunkSize address offset)
        (((boot.openImage address).2.decryptPart boot.encrypt _).2.decryptPart boot.encrypt
          (bytesAt boot.packFlash (imageAddress address + offset)
            (boot.chunkSize address offset))).2) _ _
      rw [next]
      exact ih _ (by omega) fits kept
    next last =>
      have last : offset = boot.imageSizeAt address := by omega
      exact ⟨now _ _ _ starts, last ▸ starts⟩

theorem copy_eq :
    boot.copy (imageAddress address) (boot.openImage address).1.imageSize
        (boot.openImage address).2 =
      boot.copyFrom (imageAddress address) (boot.imageSizeAt address) (boot.imageSizeAt address) 0
        ((boot.openImage address).2.decryptPart boot.encrypt
          (bytesAt boot.packFlash (imageAddress address) 0)).2 := by
  rw [bytesAt_zero, Decryptor.decryptPart, copy, imageSizeAt]

theorem readBackFrom_safely (imageSize chunks offset : Nat) (message : List Byte)
    {post : Nat → List Byte → Memory Flash → Prop}
    (enough : imageSize ≤ offset + chunks) (within : offset ≤ imageSize)
    (now : crash performed memory)
    (finish : post performed
      (message ++ (memory .slot).read offset (imageSize - offset)) memory) :
    (boot.readBackFrom imageSize chunks offset message).Safely device crash post performed
      memory := by
  induction chunks generalizing offset message with
  | zero =>
    have last : imageSize - offset = 0 := by omega
    rw [last] at finish
    exact ⟨now, by simpa [Contents.read] using finish⟩
  | succ chunks ih =>
    rw [readBackFrom]
    split
    next more =>
      have some_byte : 0 < min boot.bufferSize (imageSize - offset) :=
        lt_min boot.bufferSize_pos (Nat.sub_pos_of_lt more)
      have short : min boot.bufferSize (imageSize - offset) ≤ imageSize - offset :=
        min_le_right _ _
      rw [readBuffer, Program.safely_reading_bind, Contents.length_read]
      apply ih
      · omega
      · omega
      · rw [append_assoc]
        have split : (memory .slot).read offset (imageSize - offset) =
            (memory .slot).read offset (min boot.bufferSize (imageSize - offset)) ++
              (memory .slot).read (offset + min boot.bufferSize (imageSize - offset))
                (imageSize - (offset + min boot.bufferSize (imageSize - offset))) := by
          have total : imageSize - offset = min boot.bufferSize (imageSize - offset) +
              (imageSize - (offset + min boot.bufferSize (imageSize - offset))) := by omega
          calc
            _ = bytesAt (memory .slot).memory offset (min boot.bufferSize (imageSize - offset) +
                  (imageSize - (offset + min boot.bufferSize (imageSize - offset)))) :=
              congrArg ((memory .slot).read offset) total
            _ = _ := bytesAt_add ..
        rwa [← split]
    next last =>
      have last : imageSize - offset = 0 := by omega
      rw [last] at finish
      exact ⟨now, by simpa [Contents.read] using finish⟩

theorem slotSize_lt : boot.slotSize < 2 ^ 32 := by
  rw [slotSize, boot.slot_size]
  exact BitVec.isLt _

theorem roomForImage_toNat (large : imageDescriptorSize ≤ boot.slotSize) :
    boot.roomForImage.toNat = boot.slotSize - imageDescriptorSize := by
  have small := boot.slotSize_lt
  simp only [imageDescriptorSize] at large ⊢
  rw [roomForImage, BitVec.toNat_sub, BitVec.toNat_ofNat, BitVec.toNat_ofNat,
    imageDescriptorSize]
  omega

theorem sizeFits_iff (large : imageDescriptorSize ≤ boot.slotSize) (imageSize : BitVec 32) :
    boot.sizeFits imageSize = true ↔
      applicationHeaderOffset + ApplicationHeader.size ≤ imageSize.toNat ∧
        imageSize.toNat ≤ boot.slotSize - imageDescriptorSize := by
  rw [sizeFits, Bool.and_eq_true, decide_eq_true_iff, decide_eq_true_iff, BitVec.le_def,
    boot.roomForImage_toNat large]

theorem imageAddress_counter :
    imageAddress address - ImageHeaderEpilogue.size - Decryptor.stateSize =
      address + ImageHeaderPrologue.size := by
  rw [imageAddress, Nat.add_sub_cancel, Nat.add_sub_cancel]

theorem startFitsTarget_eq
    (long : applicationHeaderOffset + ApplicationHeader.size ≤ boot.imageSizeAt address) :
    boot.startFitsTarget (imageAddress address) (boot.openImage address).1.imageSize =
      imageStartFitsTarget (boot.imageAt address) boot.layout boot.target := by
  have buffer := boot.buffer_large
  simp only [imageStartCheckSize] at buffer
  simp only [applicationHeaderOffset, ApplicationHeader.size] at long
  have stream : (Decryptor.decryptPart boot.encrypt
      (.reset (bytesAt boot.packFlash (address + ImageHeaderPrologue.size) Decryptor.stateSize))
      (List.replicate ImageHeaderEpilogue.size 0)).2 = (boot.openImage address).2 := by
    rw [openImage]
    apply Decryptor.decryptPart_state
    rw [length_replicate, length_bytesAt]
  rw [startFitsTarget, imageAddress_counter, stream]
  generalize same : min boot.bufferSize
    (min (boot.openImage address).1.imageSize.toNat imageStartCheckSize) = size
  have size_le : size ≤ boot.imageSizeAt address :=
    same ▸ le_trans (min_le_right _ _) (min_le_left _ _)
  have size_ge : 1088 ≤ size := same ▸ le_min (by omega) (le_min long (by decide))
  have start := boot.decryptPart_chunk address 0 size (by omega)
  rw [bytesAt_zero, Decryptor.decryptPart, drop_zero, Nat.add_zero] at start
  rw [start]
  apply imageStartFitsTarget_congr
  · rw [length_imageAt]
    exact long
  · rw [length_take, length_imageAt]
    exact le_min size_ge long
  · intro k small
    simp only [applicationHeaderOffset, ApplicationHeader.size] at small
    simp only [bytesOf, getD_eq_getElem?_getD, getElem?_take]
    rw [if_pos (by omega)]

theorem upgrade_eq {address : Nat}
    (destination : (boot.openImage address).1.destinationAddress = boot.layout.slotBegin)
    (size : boot.sizeFits (boot.openImage address).1.imageSize = true)
    (start : boot.startFitsTarget (imageAddress address) (boot.openImage address).1.imageSize =
      true) :
    boot.upgrade (imageAddress address) (boot.openImage address).1.imageSize
        (boot.openImage address).1.destinationAddress (boot.openImage address).2 = (do
      boot.eraseFor (boot.openImage address).1.imageSize
      boot.copy (imageAddress address) (boot.openImage address).1.imageSize
        (boot.openImage address).2
      boot.writeDescriptor (boot.openImage address).1.imageSize
      pure 0) := by
  rw [upgrade, if_neg (not_not.mpr destination), if_neg (by rw [size]; decide),
    if_neg (by rw [start]; decide)]

def descriptorOf (message : List Byte) : ImageDescriptor :=
  ⟨ImageDescriptor.validMagic, (boot.openImage address).1.imageSize, (boot.sha256 message).toList,
    List.replicate 24 0xff⟩

@[simp] theorem length_descriptorOf (message : List Byte) :
    (boot.descriptorOf address message).bytes.length = imageDescriptorSize := by
  simp only [descriptorOf, ImageDescriptor.bytes, length_append, length_wordBytes,
    Vector.length_toList, length_replicate, imageDescriptorSize]

theorem readImageDescriptor_descriptorOf {slot : Contents} {address start : Nat}
    {message : List Byte}
    (stored : ∀ k, k < imageDescriptorSize →
      slot.memory (start + k) = (boot.descriptorOf address message).bytes.getD k 0) :
    readImageDescriptor slot start = boot.descriptorOf address message :=
  readImageDescriptor_eq (by simp only [descriptorOf, Vector.length_toList])
    (by simp only [descriptorOf, length_replicate]) stored

theorem writeDescriptor_safely {post : Nat → Unit → Memory Flash → Prop}
    (now : crash performed memory)
    (written : (writeBuffer Flash.slot
      (boot.descriptorOf address ((memory .slot).read 0 (boot.imageSizeAt address))).bytes
      (boot.slotSize - imageDescriptorSize)).Safely device crash post performed memory) :
    (boot.writeDescriptor (boot.openImage address).1.imageSize).Safely device crash post performed
      memory := by
  rw [writeDescriptor, Program.safely_bind]
  apply boot.readBackFrom_safely
  · exact le_of_eq (Nat.zero_add _).symm
  · exact Nat.zero_le _
  · exact now
  · exact written

/-- The image at an address is one that the application installer takes. -/
structure ImageFits (address : Nat) : Prop where
  name : characters (readImageHeaderPrologue boot.packFlash address).targetName = targetName
  destination : (boot.openImage address).1.destinationAddress = boot.layout.slotBegin
  size : boot.sizeFits (boot.openImage address).1.imageSize = true
  start : imageStartFitsTarget (boot.imageAt address) boot.layout boot.target = true

def imageNumber : Nat → Nat
  | 0 => boot.firstImage
  | number + 1 => boot.nextImage (imageNumber number)

def numberOfImages : Nat :=
  (readHeaderEpilogue boot.packFlash boot.epilogueAddress).numberOfImages.toNat

/-- The image that an installation leaves: the last one of the pack. -/
def newImage : List Byte := boot.imageAt (boot.imageNumber (boot.numberOfImages - 1))

/-- The pack passes the checks of the loader. -/
structure Verified : Prop where
  magic : (readHeaderPrologue boot.packFlash 0).magic = upgradePackMagic
  headerVersion : (readHeaderEpilogue boot.packFlash boot.epilogueAddress).headerVersion = 1
  productName : characters boot.productName =
    characters (readHeaderEpilogue boot.packFlash boot.epilogueAddress).productName
  signature : boot.isValid boot.packFlash (UpgradePackHeaderPrologue.size, boot.epilogueAddress)
    (boot.epilogueAddress, boot.epilogueAddress +
      (readHeaderPrologue boot.packFlash 0).signedContentsLength.toNat) = true

/-- The pack passes the loader, and each of its images is one for this target. -/
structure ValidPack : Prop extends boot.Verified where
  images : boot.numberOfImages ≠ 0
  fits : ∀ number, number < boot.numberOfImages → boot.ImageFits (boot.imageNumber number)

def Reads (units : Nat) (pair : UpgradePackStatus × BitVec 32) (journal : Contents) : Prop :=
  ∃ written, StatusJournal.Filled journal units written ∧
    StatusJournal.named (StatusJournal.latestOf journal written) = pair

variable {boot} {units : Nat}

theorem reads_of_holds {pair : UpgradePackStatus × BitVec 32} {t : Memory Flash}
    (holds : StatusJournal.Holds .journal units memory pair t) :
    Reads units pair (t .journal) ∧ t .slot = memory .slot := by
  obtain ⟨contents, written, rfl, filled, names⟩ := holds
  exact ⟨⟨written, filled, names⟩, rfl⟩

theorem Reads.status {pair : UpgradePackStatus × BitVec 32}
    (size : boot.journalSize = StatusJournalEntry.size * units)
    (reads : Reads units pair (memory .journal)) :
    status boot.journalSize (memory .journal) = pair.1 := by
  obtain ⟨written, filled, names⟩ := reads
  have both := named_of_filled size filled
  rw [names] at both
  exact congrArg Prod.fst both

theorem load_safely (verified : boot.Verified)
    (requested : status boot.journalSize (memory .journal) = .readyToDeploy ∨
      status boot.journalSize (memory .journal) = .deployStarted)
    {post : Nat → Bool → Memory Flash → Prop}
    (now : crash performed memory) (finish : post performed true memory) :
    boot.load.Safely device crash post performed memory := by
  have sane : (status boot.journalSize (memory .journal) = .readyToDeploy ∨
      status boot.journalSize (memory .journal) = .deployStarted) ∧
      (readHeaderPrologue boot.packFlash 0).magic = upgradePackMagic :=
    ⟨requested, verified.magic⟩
  rw [load, journalStatus, Program.safely_reading_bind, if_pos sane]
  have version := verified.headerVersion
  have name := verified.productName
  have signature := verified.signature
  rw [epilogueAddress] at version name signature
  rw [if_neg (not_not.mpr version), if_neg (not_not.mpr name), if_neg (by rw [signature]; decide)]
  exact ⟨now, finish⟩

end BootSequence

end Bootloader
