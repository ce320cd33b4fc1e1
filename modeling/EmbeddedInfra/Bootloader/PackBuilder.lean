import EmbeddedInfra.Bootloader.Installation

/-! The tool that builds a pack of one application image, and that the boot sequence installs
the image of every pack that it builds for the target. -/

namespace Bootloader

open Hal List Decryptor UpgradePackHeaderPrologue BootSequence

/-! ### Bytes that stand at an address -/

def halfBytes (value : BitVec 16) : List Byte := [value.extractLsb' 0 8, value.extractLsb' 8 8]

/-- The bytes stand in the memory from the address on. -/
def StandsAt (memory : Nat → Byte) (address : Nat) (bytes : List Byte) : Prop :=
  ∀ k, k < bytes.length → memory (address + k) = bytes.getD k 0

namespace StandsAt

variable {memory : Nat → Byte} {address : Nat} {bytes front back : List Byte}

theorem append (stands : StandsAt memory address (front ++ back)) :
    StandsAt memory address front ∧ StandsAt memory (address + front.length) back := by
  constructor
  · intro k inside
    rw [stands k (by rw [length_append]; omega), getD_append _ _ _ _ inside]
  · intro k inside
    rw [Nat.add_assoc, stands _ (by rw [length_append]; omega),
      getD_append_right _ _ _ _ (Nat.le_add_right _ _), Nat.add_sub_cancel_left]

theorem bytesAt_eq (stands : StandsAt memory address bytes) :
    bytesAt memory address bytes.length = bytes := by
  apply ext_getElem
  · rw [length_bytesAt]
  · intro k _ inside
    simp only [bytesAt, getElem_map, getElem_range, stands k inside,
      getD_eq_getElem _ _ inside]

theorem word_eq {value : BitVec 32} (stands : StandsAt memory address (wordBytes value)) :
    word memory address = value := by
  have stored : ∀ k, k < 4 → memory (address + k) = (wordBytes value).getD k 0 := stands
  exact Bootloader.word_eq (stored 0 (by decide)) (stored 1 (by decide)) (stored 2 (by decide))
    (stored 3 (by decide))

theorem half_eq {value : BitVec 16} (stands : StandsAt memory address (halfBytes value)) :
    half memory address = value := by
  have stored : ∀ k, k < 2 → memory (address + k) = (halfBytes value).getD k 0 := stands
  have low : memory address = value.extractLsb' 0 8 := stored 0 (by decide)
  have high : memory (address + 1) = value.extractLsb' 8 8 := stored 1 (by decide)
  rw [half, low, high]
  ext index bound
  simp only [BitVec.getElem_append, BitVec.getElem_extractLsb']
  split
  · rw [Nat.zero_add]
    exact BitVec.getLsbD_eq_getElem bound
  · rw [show 8 + (index - 8) = index by omega]
    exact BitVec.getLsbD_eq_getElem bound

end StandsAt

/-! ### The tool -/

namespace PackBuilder

structure PackDescription where
  productName : List Byte
  productVersion : List Byte
  componentName : List Byte
  destination : BitVec 32
  image : List Byte

def nameFieldSize : Nat := 64

def maxNameSize : Nat := 8

def namesFit (pack : PackDescription) : Bool :=
  decide (pack.productName.length < nameFieldSize) &&
    decide (pack.productVersion.length < nameFieldSize) &&
    decide (pack.componentName.length < nameFieldSize)

def assignZeroFilled (data : List Byte) (size : Nat) : List Byte :=
  data.take size ++ List.replicate (size - data.length) 0

/-- The bytes from an index on, in counter mode. -/
def encryptFrom (encrypt : List Byte → List Byte) (counter keyStream : List Byte) (index : Nat) :
    List Byte → List Byte
  | [] => []
  | byte :: rest =>
    if index % Decryptor.stateSize = 0 then
      (byte ^^^ (encrypt counter).getD (index % Decryptor.stateSize) 0) ::
        encryptFrom encrypt (Decryptor.increaseCounter counter) (encrypt counter) (index + 1) rest
    else
      (byte ^^^ keyStream.getD (index % Decryptor.stateSize) 0) ::
        encryptFrom encrypt counter keyStream (index + 1) rest

def encryptionAndMacMethod : BitVec 32 := 1

variable (encrypt : List Byte → List Byte)

def secure (counter data : List Byte) : List Byte :=
  counter ++ encryptFrom encrypt counter [] 0 data

def headerOf (destination : BitVec 32) (image : List Byte) : List Byte :=
  wordBytes destination ++ wordBytes (BitVec.ofNat 32 image.length)

def imageBytes (counter : List Byte) (name : List Byte) (destination : BitVec 32)
    (image : List Byte) : List Byte :=
  let rest := name ++ List.replicate (maxNameSize - name.length) 0 ++
    wordBytes encryptionAndMacMethod ++
    secure encrypt counter (headerOf destination image ++ image)
  wordBytes (BitVec.ofNat 32 (rest.length + 4)) ++ rest

def epilogueBytes (pack : PackDescription) (signatureLength : Nat) (images : Nat) : List Byte :=
  halfBytes 1 ++
    halfBytes (BitVec.ofNat 16 (UpgradePackHeaderPrologue.size + signatureLength +
      UpgradePackHeaderEpilogue.size)) ++
    wordBytes (BitVec.ofNat 32 images) ++ assignZeroFilled pack.productName nameFieldSize ++
    assignZeroFilled pack.productVersion nameFieldSize ++
    assignZeroFilled pack.componentName nameFieldSize ++ wordBytes 0

def prologueBytes (signedContents signature : List Byte) (signatureMethod : BitVec 16) :
    List Byte :=
  [UpgradePackStatus.readyToDeploy.byte] ++ upgradePackMagic ++ wordBytes 0xffffffff ++
    wordBytes (BitVec.ofNat 32 signedContents.length) ++ halfBytes signatureMethod ++
    halfBytes (BitVec.ofNat 16 signature.length)

def signedContents (counter : List Byte) (pack : PackDescription) (signatureLength : Nat) :
    List Byte :=
  epilogueBytes pack signatureLength 1 ++
    imageBytes encrypt counter targetName pack.destination pack.image

/-- The signer gives a signature of the contents and the number of its method. -/
def buildPack (counter : List Byte) (sign : List Byte → List Byte) (signatureLength : Nat)
    (signatureMethod : BitVec 16) (pack : PackDescription) : Option (List Byte) :=
  if namesFit pack = true then
    let contents := signedContents encrypt counter pack signatureLength
    some (prologueBytes contents (sign contents) signatureMethod ++ sign contents ++ contents)
  else none

theorem decryptPart_encryptFrom (data : List Byte) (counter keyStream : List Byte) (index : Nat) :
    ((Decryptor.mk counter keyStream (index % stateSize)).decryptPart encrypt
      (encryptFrom encrypt counter keyStream index data)).1 = data := by
  have next : ∀ index, (if index % stateSize + 1 = stateSize then 0
      else index % stateSize + 1) = (index + 1) % stateSize := by
    intro index
    by_cases last : index % stateSize + 1 = stateSize
    · rw [if_pos last]
      simp only [stateSize] at last ⊢
      omega
    · rw [if_neg last]
      simp only [stateSize] at last ⊢
      omega
  induction data generalizing counter keyStream index with
  | nil => rfl
  | cons byte rest ih =>
    rw [encryptFrom]
    split
    next fresh =>
      simp only [decryptPart, decryptByte, fresh, if_true]
      have position := next index
      rw [fresh] at position
      rw [position, ih, BitVec.xor_assoc, BitVec.xor_self, BitVec.xor_zero]
    next inBlock =>
      simp only [decryptPart, decryptByte, inBlock, if_false]
      rw [next index, ih, BitVec.xor_assoc, BitVec.xor_self, BitVec.xor_zero]

theorem decryptPart_secure (counter data : List Byte) :
    (decryptPart encrypt (.reset counter)
      (encryptFrom encrypt counter [] 0 data)).1 = data :=
  decryptPart_encryptFrom encrypt data counter [] 0

@[simp] theorem length_encryptFrom (data : List Byte) (counter keyStream : List Byte) (index : Nat) :
    (encryptFrom encrypt counter keyStream index data).length = data.length := by
  induction data generalizing counter keyStream index with
  | nil => rfl
  | cons byte rest ih =>
    rw [encryptFrom]
    split
    · rw [length_cons, ih, length_cons]
    · rw [length_cons, ih, length_cons]

theorem imageHeaderEpilogue_headerOf (destination : BitVec 32) (image : List Byte) :
    imageHeaderEpilogue (headerOf destination image) =
      ⟨destination, BitVec.ofNat 32 image.length⟩ := by
  have stands : StandsAt (bytesOf (headerOf destination image)) 0 (headerOf destination image) := by
    intro k _
    rw [Nat.zero_add, bytesOf]
  obtain ⟨first, second⟩ := stands.append
  rw [imageHeaderEpilogue, first.word_eq]
  exact congrArg (ImageHeaderEpilogue.mk destination) second.word_eq

variable {counter data : List Byte} {size images : Nat}

theorem opens (boot : BootSequence) {name : List Byte} {destination : BitVec 32} {image : List Byte}
    {address : Nat} (counterSize : counter.length = stateSize) (short : name.length ≤ maxNameSize)
    (imageSize : image.length < 2 ^ 32)
    (stands : StandsAt boot.packFlash address
      (imageBytes boot.encrypt counter name destination image)) :
    (readImageHeaderPrologue boot.packFlash address).targetName =
        name ++ List.replicate (maxNameSize - name.length) 0 ∧
      (boot.openImage address).1 = ⟨destination, BitVec.ofNat 32 image.length⟩ ∧
      boot.imageAt address = image := by
  have nameSize : (name ++ List.replicate (maxNameSize - name.length) (0 : Byte)).length = 8 := by
    rw [length_append, length_replicate]
    simp only [maxNameSize] at short ⊢
    omega
  obtain ⟨-, rest⟩ := stands.append
  obtain ⟨front, secured⟩ := rest.append
  obtain ⟨name8, -⟩ := front.append
  obtain ⟨counter16, encrypted⟩ := secured.append
  have name_eq := name8.bytesAt_eq
  have counter_eq := counter16.bytesAt_eq
  have encrypted_eq := encrypted.bytesAt_eq
  simp only [length_append, length_replicate, length_wordBytes, counterSize,
    stateSize] at nameSize name_eq counter_eq encrypted_eq
  simp only [nameSize, Nat.add_assoc, Nat.reduceAdd] at name_eq counter_eq encrypted_eq
  have headerSize : (headerOf destination image).length = ImageHeaderEpilogue.size := rfl
  have plain := decryptPart_secure boot.encrypt counter (headerOf destination image ++ image)
  rw [← encrypted_eq, length_encryptFrom, length_append, headerSize, bytesAt_add,
    decryptPart_append] at plain
  have parts := append_inj plain (by
    rw [length_decryptPart, length_bytesAt, headerSize])
  have opened : boot.openImage address = (imageHeaderEpilogue (headerOf destination image),
      ((reset counter).decryptPart boot.encrypt
        (bytesAt boot.packFlash (address + 32) ImageHeaderEpilogue.size)).2) := by
    rw [openImage]
    simp only [ImageHeaderPrologue.size, stateSize, Nat.add_assoc, Nat.reduceAdd,
      counter_eq, parts.1]
  have size : boot.imageSizeAt address = image.length := by
    rw [imageSizeAt, opened, imageHeaderEpilogue_headerOf]
    exact Nat.mod_eq_of_lt imageSize
  have place : imageAddress address = address + 32 + ImageHeaderEpilogue.size := by
    simp only [imageAddress, ImageHeaderPrologue.size, stateSize, Nat.add_assoc,
      Nat.reduceAdd]
  refine ⟨?_, ?_, ?_⟩
  · rw [readImageHeaderPrologue]
    exact name_eq
  · rw [opened]
    exact imageHeaderEpilogue_headerOf destination image
  · rw [imageAt, size, opened, place]
    simp only [parts.2]

/-- A boot sequence that has the image key and the product name of the pack, accepts its
signature, and has it in its staging flash. -/
structure Staged (boot : BootSequence) (counter : List Byte) (sign : List Byte → List Byte)
    (signatureLength : Nat) (signatureMethod : BitVec 16) (pack : PackDescription) : Prop where
  counterSize : counter.length = Decryptor.stateSize
  signatureSize : ∀ contents, (sign contents).length = signatureLength
  signatureFits : signatureLength < 2 ^ 16
  name : boot.productName = pack.productName
  printable : 0 ∉ pack.productName
  built : ∃ bytes, buildPack boot.encrypt counter sign signatureLength signatureMethod pack =
    some bytes ∧ StandsAt boot.packFlash 0 bytes
  accepted : ∀ signedContentsLength, boot.isValid boot.packFlash
    (UpgradePackHeaderPrologue.size, UpgradePackHeaderPrologue.size + signatureLength)
    (UpgradePackHeaderPrologue.size + signatureLength,
      UpgradePackHeaderPrologue.size + signatureLength + signedContentsLength) = true

theorem characters_assignZeroFilled (short : data.length < size) (printable : 0 ∉ data) :
    characters (assignZeroFilled data size) = characters data := by
  have all : ∀ byte ∈ data, decide (byte ≠ 0) = true := by
    intro byte member
    rw [decide_eq_true_iff]
    rintro rfl
    exact printable member
  have whole : characters data = data := by
    have appended := @List.takeWhile_append_of_pos _ _ data [] all
    rwa [append_nil, takeWhile_nil, append_nil] at appended
  have zeros : List.replicate (size - data.length) (0 : Byte) =
      0 :: List.replicate (size - data.length - 1) 0 := by
    rw [← replicate_succ, Nat.sub_add_cancel (Nat.sub_pos_of_lt short)]
  rw [whole, assignZeroFilled, take_of_length_le short.le, characters,
    takeWhile_append_of_pos all, zeros, takeWhile_cons_of_neg (by decide),
    append_nil]

theorem length_assignZeroFilled (short : data.length < size) :
    (assignZeroFilled data size).length = size := by
  rw [assignZeroFilled, length_append, length_take, length_replicate]
  omega

variable {memory : Nat → Byte} {address : Nat}

theorem readHeaderPrologue_eq {contents signature : List Byte} {method : BitVec 16}
    (stands : StandsAt memory address (prologueBytes contents signature method)) :
    readHeaderPrologue memory address = ⟨upgradePackMagic, BitVec.ofNat 32 contents.length,
      BitVec.ofNat 16 signature.length⟩ := by
  obtain ⟨front, signatureLength⟩ := stands.append
  obtain ⟨front, -⟩ := front.append
  obtain ⟨front, contentsLength⟩ := front.append
  obtain ⟨front, -⟩ := front.append
  obtain ⟨-, magic⟩ := front.append
  have magic_eq := magic.bytesAt_eq
  have contents_eq := contentsLength.word_eq
  have signature_eq := signatureLength.half_eq
  simp only [length_append, length_wordBytes, upgradePackMagic, halfBytes, length_cons,
    length_nil, Nat.reduceAdd] at magic_eq contents_eq signature_eq
  rw [readHeaderPrologue, magic_eq, contents_eq, signature_eq, upgradePackMagic]

variable {pack : PackDescription} {signatureLength : Nat}

theorem readHeaderEpilogue_eq (names : namesFit pack = true)
    (stands : StandsAt memory address (epilogueBytes pack signatureLength images)) :
    readHeaderEpilogue memory address =
      ⟨1, BitVec.ofNat 32 images, assignZeroFilled pack.productName nameFieldSize⟩ := by
  rw [namesFit, Bool.and_eq_true, Bool.and_eq_true, decide_eq_true_iff] at names
  obtain ⟨front, -⟩ := stands.append
  obtain ⟨front, -⟩ := front.append
  obtain ⟨front, -⟩ := front.append
  obtain ⟨front, productName⟩ := front.append
  obtain ⟨front, images⟩ := front.append
  obtain ⟨version, -⟩ := front.append
  have name_eq := productName.bytesAt_eq
  have images_eq := images.word_eq
  rw [length_assignZeroFilled names.1.1] at name_eq
  simp only [length_append, length_wordBytes, halfBytes, length_cons, length_nil,
    Nat.reduceAdd] at name_eq images_eq
  rw [nameFieldSize] at name_eq
  rw [readHeaderEpilogue, version.half_eq, images_eq, name_eq, nameFieldSize]

theorem length_epilogueBytes (names : namesFit pack = true) :
    (epilogueBytes pack signatureLength images).length = UpgradePackHeaderEpilogue.size := by
  rw [namesFit, Bool.and_eq_true, Bool.and_eq_true, decide_eq_true_iff, decide_eq_true_iff,
    decide_eq_true_iff] at names
  simp only [epilogueBytes, length_append, length_wordBytes, halfBytes, length_cons,
    length_nil]
  rw [length_assignZeroFilled names.1.1, length_assignZeroFilled names.1.2,
    length_assignZeroFilled names.2, nameFieldSize, UpgradePackHeaderEpilogue.size]

theorem length_prologueBytes (contents signature : List Byte) (method : BitVec 16) :
    (prologueBytes contents signature method).length = UpgradePackHeaderPrologue.size := rfl

/-- The boot sequence installs the image of every pack that the tool builds for the target. -/
theorem Staged.validPack {boot : BootSequence} {sign : List Byte → List Byte}
    {signatureMethod : BitVec 16}
    (staged : Staged boot counter sign signatureLength signatureMethod pack)
    (large : imageDescriptorSize ≤ boot.slotSize)
    (destination : pack.destination = boot.layout.slotBegin)
    (long : applicationHeaderOffset + ApplicationHeader.size ≤ pack.image.length)
    (room : pack.image.length ≤ boot.slotSize - imageDescriptorSize)
    (fits : imageStartFitsTarget pack.image boot.layout boot.target = true) :
    boot.ValidPack ∧ boot.newImage = pack.image := by
  obtain ⟨bytes, built, stands⟩ := staged.built
  have small : pack.image.length < 2 ^ 32 :=
    lt_of_le_of_lt (room.trans (Nat.sub_le _ _)) boot.slotSize_lt
  rw [buildPack] at built
  split at built
  next names =>
    obtain rfl := Option.some.inj built
    obtain ⟨front, contents⟩ := stands.append
    obtain ⟨front, -⟩ := front.append
    have prologue := readHeaderPrologue_eq front
    rw [length_append, length_prologueBytes, staged.signatureSize, Nat.zero_add] at contents
    obtain ⟨second, images⟩ := contents.append
    have epilogueAddress : boot.epilogueAddress =
        size + signatureLength := by
      rw [epilogueAddress, prologue, staged.signatureSize]
      exact congrArg (size + ·) (Nat.mod_eq_of_lt staged.signatureFits)
    have epilogue := readHeaderEpilogue_eq names second
    rw [length_epilogueBytes names, ← epilogueAddress] at images
    rw [← epilogueAddress] at epilogue
    have nameSize : targetName.length ≤ maxNameSize := by decide
    obtain ⟨name, opened, image⟩ := opens boot staged.counterSize nameSize small images
    have one : boot.numberOfImages = 1 := by
      rw [numberOfImages, epilogue]
      rfl
    have first : boot.ImageFits boot.firstImage := by
      constructor
      · rw [firstImage, name]
        decide
      · rw [firstImage, opened]
        exact destination
      · rw [firstImage, opened, boot.sizeFits_iff large]
        rw [BitVec.toNat_ofNat, Nat.mod_eq_of_lt small]
        exact ⟨long, room⟩
      · rw [firstImage, image]
        exact fits
    constructor
    · constructor
      · constructor
        · rw [prologue]
        · rw [epilogue]
        · rw [epilogue, staged.name]
          rw [namesFit, Bool.and_eq_true, Bool.and_eq_true, decide_eq_true_iff] at names
          exact (characters_assignZeroFilled names.1.1 staged.printable).symm
        · rw [epilogueAddress]
          exact staged.accepted _
      · rw [one]
        decide
      · intro number inside
        rw [one] at inside
        obtain rfl := Nat.lt_one_iff.mp inside
        exact first
    · rw [newImage, one]
      exact image
  next => cases built

/-! ### A small target -/

theorem standsAt_getD (bytes : List Byte) : StandsAt (fun i => bytes.getD i 0xff) 0 bytes := by
  intro k inside
  simp only [Nat.zero_add, getD_eq_getElem _ _ inside]

/-- An image with vectors and a header for a target with RAM from 0x20000000 on and a slot
from 0x8000 on. -/
def imageOf (fill : Byte) : List Byte :=
  wordBytes 0x20040000 ++ wordBytes 0x8441 ++ List.replicate 1016 fill ++
    wordBytes ApplicationHeader.validMagic ++ halfBytes ApplicationHeader.currentVersion ++
    List.replicate 58 0

def smallLayout : TargetLayout := ⟨0x20000000, 0x20040000, 0x8000, 0x8800⟩

def smallPack : PackDescription := ⟨[0x6d], [0x31], [0x61], 0x8000, imageOf 1⟩

def smallCounter : List Byte := List.replicate 16 7

/-- The bytes of the small pack, with a cipher that leaves its blocks as they are. -/
def smallBytes : List Byte :=
  (buildPack id smallCounter (fun _ => List.replicate 64 0) 64 1 smallPack).getD []

/-- Stands for a hash that tells the images apart. -/
def smallHash : Sha256 := fun message => Vector.ofFn fun k => message.getD (8 + k) 0

/-- A target with a journal of four entries and a slot of two sectors. -/
def smallTarget : BootSequence where
  sectors
    | .journal => homogeneous 1 64 Nat.one_pos (Nat.succ_pos _)
    | .slot => homogeneous 2 1024 Nat.two_pos (Nat.succ_pos _)
  packFlash := fun i => smallBytes.getD i 0xff
  productName := [0x6d]
  layout := smallLayout
  target := fun _ => true
  bufferSize := 2048
  sha256 := smallHash
  encrypt := id
  isValid := fun _ _ _ => true
  buffer_large := le_rfl
  slot_size := by decide

theorem slotSize_smallTarget : smallTarget.slotSize = 2048 := by decide

theorem length_imageOf (fill : Byte) : (imageOf fill).length = 1088 := by
  simp only [imageOf, length_append, length_wordBytes, halfBytes, length_cons,
    length_nil, length_replicate]

theorem staged_smallTarget :
    Staged smallTarget smallCounter (fun _ => List.replicate 64 0) 64 1 smallPack := by
  have names : namesFit smallPack = true := by decide
  constructor
  · exact length_replicate
  · exact fun _ => length_replicate
  · decide
  · rfl
  · decide
  · refine ⟨smallBytes, ?_, standsAt_getD smallBytes⟩
    rw [smallBytes, buildPack, if_pos names]
    exact congrArg some (Option.getD_some ..).symm
  · exact fun _ => rfl

theorem validPack_smallTarget :
    smallTarget.ValidPack ∧ smallTarget.newImage = imageOf 1 := by
  apply staged_smallTarget.validPack
  · rw [slotSize_smallTarget]
    decide
  · rfl
  · exact (length_imageOf 1).ge
  · rw [slotSize_smallTarget]
    exact (length_imageOf 1).le.trans (by decide)
  · decide +kernel

end PackBuilder

end Bootloader
