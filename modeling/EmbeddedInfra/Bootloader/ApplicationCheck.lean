import EmbeddedInfra.Bootloader.StatusJournal

/-! What an image in the application slot must show before it is started: a descriptor with
the hash of the image, vectors in the target's memory, and a header the target accepts. -/

namespace Bootloader

open Hal

def applicationHeaderOffset : Nat := 0x400
def imageDescriptorSize : Nat := 64
def imageStartCheckSize : Nat := 2048
def applicationTargetSize : Nat := 48

structure TargetLayout where
  ramBegin : BitVec 32
  ramEnd : BitVec 32
  slotBegin : BitVec 32
  slotEnd : BitVec 32

structure ApplicationHeader where
  magic : BitVec 32
  headerVersion : BitVec 16
  reserved0 : BitVec 16
  versionMajor : BitVec 16
  versionMinor : BitVec 16
  versionPatch : BitVec 16
  reserved1 : BitVec 16
  target : List Byte
  deriving DecidableEq

namespace ApplicationHeader

def size : Nat := 64
def validMagic : BitVec 32 := 0x48414d45
def currentVersion : BitVec 16 := 1

end ApplicationHeader

abbrev TargetCheck := ApplicationHeader → Bool

structure ImageDescriptor where
  magic : BitVec 32
  imageSize : BitVec 32
  sha256 : List Byte
  reserved : List Byte

namespace ImageDescriptor

def validMagic : BitVec 32 := 0x44494d45

def bytes (descriptor : ImageDescriptor) : List Byte :=
  wordBytes descriptor.magic ++ wordBytes descriptor.imageSize ++ descriptor.sha256 ++
    descriptor.reserved

end ImageDescriptor

/-- The hash function, of 32 bytes. -/
abbrev Sha256 := List Byte → Vector Byte 32

def half (memory : Nat → Byte) (address : Nat) : BitVec 16 := memory (address + 1) ++ memory address

def bytesOf (bytes : List Byte) : Nat → Byte := fun i => bytes.getD i 0

def readApplicationHeader (image : Nat → Byte) : ApplicationHeader where
  magic := word image applicationHeaderOffset
  headerVersion := half image (applicationHeaderOffset + 4)
  reserved0 := half image (applicationHeaderOffset + 6)
  versionMajor := half image (applicationHeaderOffset + 8)
  versionMinor := half image (applicationHeaderOffset + 10)
  versionPatch := half image (applicationHeaderOffset + 12)
  reserved1 := half image (applicationHeaderOffset + 14)
  target := (List.range applicationTargetSize).map fun k => image (applicationHeaderOffset + 16 + k)

def thumbBit : BitVec 32 := 1

def vectorsFitTarget (image : Nat → Byte) (layout : TargetLayout) : Bool :=
  let stackPointer := word image 0
  let resetHandler := word image 4
  let resetAddress := resetHandler &&& ~~~thumbBit
  decide (layout.ramBegin < stackPointer) && decide (stackPointer ≤ layout.ramEnd) &&
    resetHandler &&& thumbBit != 0 && decide (layout.slotBegin ≤ resetAddress) &&
    decide (resetAddress < layout.slotEnd - BitVec.ofNat 32 imageDescriptorSize)

def headerNamesTarget (image : Nat → Byte) (target : TargetCheck) : Bool :=
  let header := readApplicationHeader image
  header.magic == ApplicationHeader.validMagic &&
    header.headerVersion == ApplicationHeader.currentVersion && target header

def imageStartFitsTarget (imageStart : List Byte) (layout : TargetLayout)
    (target : TargetCheck) : Bool :=
  decide (applicationHeaderOffset + ApplicationHeader.size ≤ imageStart.length) &&
    vectorsFitTarget (bytesOf imageStart) layout && headerNamesTarget (bytesOf imageStart) target

def readImageDescriptor (slot : Contents) (address : Nat) : ImageDescriptor where
  magic := word slot.memory address
  imageSize := word slot.memory (address + 4)
  sha256 := slot.read (address + 8) 32
  reserved := slot.read (address + 40) 24

/-- The slot is given by its contents and its size. -/
def applicationIsStartable (sha256 : Sha256) (slot : Contents) (size : Nat)
    (layout : TargetLayout) (target : TargetCheck) : Bool :=
  if size < imageDescriptorSize then false
  else
    let descriptor := readImageDescriptor slot (size - imageDescriptorSize)
    if descriptor.magic ≠ ImageDescriptor.validMagic ∨
        size - imageDescriptorSize < descriptor.imageSize.toNat then false
    else
      let image := slot.read 0 descriptor.imageSize.toNat
      (sha256 image).toList == descriptor.sha256 && imageStartFitsTarget image layout target

def makeImageDescriptor (sha256 : Sha256) (image : List Byte) : ImageDescriptor where
  magic := ImageDescriptor.validMagic
  imageSize := BitVec.ofNat 32 image.length
  sha256 := (sha256 image).toList
  reserved := List.replicate 24 0xff

/-- The slot holds the image, with its descriptor, and can be started. -/
structure HoldsImage (sha256 : Sha256) (slot : Contents) (size : Nat) (layout : TargetLayout)
    (target : TargetCheck) (image : List Byte) : Prop where
  startable : applicationIsStartable sha256 slot size layout target = true
  imageSize : (readImageDescriptor slot (size - imageDescriptorSize)).imageSize.toNat = image.length
  complete : slot.read 0 image.length = image

variable {address : Nat} {slot : Contents}

variable {memory other : Nat → Byte} {layout : TargetLayout} {target : TargetCheck}
  {descriptor : ImageDescriptor} {sha256 : Sha256}

theorem word_congr (same : ∀ k, k < 4 → memory (address + k) = other (address + k)) :
    word memory address = word other address := by
  have first := same 0 (by decide)
  rw [Nat.add_zero] at first
  rw [word, word, first, same 1 (by decide), same 2 (by decide), same 3 (by decide)]

theorem half_congr (same : ∀ k, k < 2 → memory (address + k) = other (address + k)) :
    half memory address = half other address := by
  have first := same 0 (by decide)
  rw [Nat.add_zero] at first
  rw [half, half, first, same 1 (by decide)]

theorem imageStartFitsTarget_congr {image start : List Byte}
    (long : applicationHeaderOffset + ApplicationHeader.size ≤ image.length)
    (enough : applicationHeaderOffset + ApplicationHeader.size ≤ start.length)
    (same : ∀ k, k < applicationHeaderOffset + ApplicationHeader.size →
      bytesOf start k = bytesOf image k) :
    imageStartFitsTarget start layout target = imageStartFitsTarget image layout target := by
  simp only [applicationHeaderOffset, ApplicationHeader.size] at same
  have words : ∀ address, address + 4 ≤ 1088 →
      word (bytesOf start) address = word (bytesOf image) address :=
    fun address below => word_congr fun k small => same _ (by omega)
  have halves : ∀ address, address + 2 ≤ 1088 →
      half (bytesOf start) address = half (bytesOf image) address :=
    fun address below => half_congr fun k small => same _ (by omega)
  have header : readApplicationHeader (bytesOf start) = readApplicationHeader (bytesOf image) := by
    simp only [readApplicationHeader, applicationHeaderOffset, words _ (by decide : 1024 + 4 ≤ 1088),
      halves _ (by decide : 1024 + 4 + 2 ≤ 1088), halves _ (by decide : 1024 + 6 + 2 ≤ 1088),
      halves _ (by decide : 1024 + 8 + 2 ≤ 1088), halves _ (by decide : 1024 + 10 + 2 ≤ 1088),
      halves _ (by decide : 1024 + 12 + 2 ≤ 1088), halves _ (by decide : 1024 + 14 + 2 ≤ 1088),
      ApplicationHeader.mk.injEq, true_and]
    apply List.map_congr_left
    intro k member
    have small := List.mem_range.mp member
    simp only [applicationTargetSize] at small
    exact same _ (by omega)
  simp only [imageStartFitsTarget, vectorsFitTarget, headerNamesTarget, header, long, enough,
    words 0 (by decide), words 4 (by decide)]

theorem readImageDescriptor_eq (hash : descriptor.sha256.length = 32)
    (reserved : descriptor.reserved.length = 24)
    (stored : ∀ k, k < imageDescriptorSize →
      slot.memory (address + k) = descriptor.bytes.getD k 0) :
    readImageDescriptor slot address = descriptor := by
  rcases descriptor with ⟨magic, imageSize, sha256, rest⟩
  simp only at hash reserved
  have front : ∀ k, 8 ≤ k → (ImageDescriptor.mk magic imageSize sha256 rest).bytes.getD k 0 =
      (sha256 ++ rest).getD (k - 8) 0 := by
    intro k large
    simp only [ImageDescriptor.bytes]
    rw [List.append_assoc, List.getD_append_right _ _ _ _ (by simpa using large)]
    rfl
  have magic_eq : word slot.memory address = magic :=
    word_eq (stored 0 (by decide)) (stored 1 (by decide)) (stored 2 (by decide))
      (stored 3 (by decide))
  have imageSize_eq : word slot.memory (address + 4) = imageSize :=
    word_eq (stored 4 (by decide)) (stored 5 (by decide)) (stored 6 (by decide))
      (stored 7 (by decide))
  have sha256_eq : slot.read (address + 8) 32 = sha256 := by
    apply List.ext_getElem (by rw [Contents.length_read, hash])
    intro k small inside
    have byte := stored (8 + k) (by simp only [imageDescriptorSize]; omega)
    rw [front _ (by omega), Nat.add_sub_cancel_left, List.getD_append _ _ _ _ inside,
      List.getD_eq_getElem _ _ inside, ← Nat.add_assoc] at byte
    rw [Contents.getElem_read, byte]
  have reserved_eq : slot.read (address + 40) 24 = rest := by
    apply List.ext_getElem (by rw [Contents.length_read, reserved])
    intro k small inside
    have byte := stored (40 + k) (by simp only [imageDescriptorSize]; omega)
    rw [front _ (by omega), List.getD_append_right _ _ _ _ (by omega), hash,
      show 40 + k - 8 - 32 = k by omega, List.getD_eq_getElem _ _ inside,
      ← Nat.add_assoc] at byte
    rw [Contents.getElem_read, byte]
  simp only [readImageDescriptor, magic_eq, imageSize_eq, sha256_eq, reserved_eq]

theorem applicationIsStartable_iff {size : Nat} (large : imageDescriptorSize ≤ size)
    (stored : readImageDescriptor slot (size - imageDescriptorSize) = descriptor) :
    applicationIsStartable sha256 slot size layout target = true ↔
      descriptor.magic = ImageDescriptor.validMagic ∧
        descriptor.imageSize.toNat ≤ size - imageDescriptorSize ∧
        (sha256 (slot.read 0 descriptor.imageSize.toNat)).toList = descriptor.sha256 ∧
        imageStartFitsTarget (slot.read 0 descriptor.imageSize.toNat) layout target = true := by
  rw [applicationIsStartable, if_neg (Nat.not_lt.mpr large)]
  simp only [stored]
  by_cases broken : descriptor.magic ≠ ImageDescriptor.validMagic ∨
      size - imageDescriptorSize < descriptor.imageSize.toNat
  · rw [if_pos broken]
    apply iff_of_false (by decide)
    rintro ⟨magic, room, -⟩
    exact broken.elim (absurd magic) (absurd room ∘ Nat.not_le.mpr)
  · rw [if_neg broken, Bool.and_eq_true, beq_iff_eq]
    rw [not_or, ne_eq, not_not, Nat.not_lt] at broken
    constructor
    · rintro ⟨hash, fits⟩
      exact ⟨broken.1, broken.2, hash, fits⟩
    · rintro ⟨-, -, hash, fits⟩
      exact ⟨hash, fits⟩

theorem applicationIsStartable_eq {size : Nat} {imageSize : BitVec 32} {reserved : List Byte}
    (large : imageDescriptorSize ≤ size) (room : imageSize.toNat ≤ size - imageDescriptorSize)
    (stored : readImageDescriptor slot (size - imageDescriptorSize) =
      ⟨ImageDescriptor.validMagic, imageSize, (sha256 (slot.read 0 imageSize.toNat)).toList,
      reserved⟩) (layout : TargetLayout) (target : TargetCheck) :
    applicationIsStartable sha256 slot size layout target =
      imageStartFitsTarget (slot.read 0 imageSize.toNat) layout target := by
  rw [Bool.eq_iff_iff, applicationIsStartable_iff large stored]
  exact ⟨fun started => started.2.2.2, fun fits => ⟨rfl, room, rfl, fits⟩⟩

end Bootloader
