import EmbeddedInfra.Bootloader.ApplicationCheck

/-! The boot sequence: load the staged pack, install its images into the slot, and start the
slot if it can be started. -/

namespace Bootloader

open CrashLogic Hal

/-- The flashes that the boot sequence changes; the staging flash is only read. -/
inductive Flash where
  | journal
  | slot
  deriving DecidableEq

/-- Counter mode: the block of the key stream in use, and how far it has been used. -/
structure Decryptor where
  counter : List Byte
  currentStreamBlock : List Byte
  currentStreamBlockOffset : Nat

namespace Decryptor

def stateSize : Nat := 16

def increaseBytes : List Byte → List Byte
  | [] => []
  | byte :: rest => if byte + 1 ≠ 0 then (byte + 1) :: rest else 0 :: increaseBytes rest

def increaseCounter (counter : List Byte) : List Byte := (increaseBytes counter.reverse).reverse

/-- A reset with a counter in the state buffer; no earlier block is used after it. -/
def reset (counter : List Byte) : Decryptor := ⟨counter, [], 0⟩

variable (encrypt : List Byte → List Byte)

def decryptByte (decryptor : Decryptor) (byte : Byte) : Byte × Decryptor :=
  let fresh :=
    if decryptor.currentStreamBlockOffset = 0 then
      { decryptor with
        currentStreamBlock := encrypt decryptor.counter
        counter := increaseCounter decryptor.counter }
    else decryptor
  let offset := fresh.currentStreamBlockOffset + 1
  (byte ^^^ fresh.currentStreamBlock.getD fresh.currentStreamBlockOffset 0,
    { fresh with currentStreamBlockOffset := if offset = stateSize then 0 else offset })

def decryptPart (decryptor : Decryptor) : List Byte → List Byte × Decryptor
  | [] => ([], decryptor)
  | byte :: rest =>
    let first := decryptByte encrypt decryptor byte
    let others := decryptPart first.2 rest
    (first.1 :: others.1, others.2)

end Decryptor

def upgradePackMagic : List Byte := [0x55, 0x50, 0x48]

def upgradeErrorCodeUnknownHeaderVersion : BitVec 32 := 0
def upgradeErrorCodeInvalidSignature : BitVec 32 := 1
def upgradeErrorCodeUnknownProductName : BitVec 32 := 2
def upgradeErrorCodeNoSuitableImageUpgraderFound : BitVec 32 := 4
def errorWrongTarget : BitVec 32 := 1000
def errorWrongDestination : BitVec 32 := 1001
def errorImageSize : BitVec 32 := 1002

def bytesAt (memory : Nat → Byte) (address size : Nat) : List Byte :=
  (List.range size).map fun k => memory (address + k)

def characters (string : List Byte) : List Byte := string.takeWhile (· ≠ 0)

structure UpgradePackHeaderPrologue where
  magic : List Byte
  signedContentsLength : BitVec 32
  signatureLength : BitVec 16

def UpgradePackHeaderPrologue.size : Nat := 16

variable (pack : Nat → Byte)

def readHeaderPrologue (address : Nat) : UpgradePackHeaderPrologue where
  magic := bytesAt pack (address + 1) 3
  signedContentsLength := word pack (address + 8)
  signatureLength := half pack (address + 14)

structure UpgradePackHeaderEpilogue where
  headerVersion : BitVec 16
  numberOfImages : BitVec 32
  productName : List Byte

def UpgradePackHeaderEpilogue.size : Nat := 204

def readHeaderEpilogue (address : Nat) : UpgradePackHeaderEpilogue where
  headerVersion := half pack address
  numberOfImages := word pack (address + 4)
  productName := bytesAt pack (address + 8) 64

structure ImageHeaderPrologue where
  lengthOfHeaderAndImage : BitVec 32
  targetName : List Byte

def ImageHeaderPrologue.size : Nat := 16

def readImageHeaderPrologue (address : Nat) : ImageHeaderPrologue where
  lengthOfHeaderAndImage := word pack address
  targetName := bytesAt pack (address + 4) 8

structure ImageHeaderEpilogue where
  destinationAddress : BitVec 32
  imageSize : BitVec 32

def ImageHeaderEpilogue.size : Nat := 8

def imageHeaderEpilogue (bytes : List Byte) : ImageHeaderEpilogue where
  destinationAddress := word (bytesOf bytes) 0
  imageSize := word (bytesOf bytes) 4

def targetName : List Byte := [0x61, 0x70, 0x70]

structure BootSequence where
  sectors : Flash → Sectors
  packFlash : Nat → Byte
  productName : List Byte
  layout : TargetLayout
  target : TargetCheck
  bufferSize : Nat
  sha256 : Sha256
  encrypt : List Byte → List Byte
  isValid : (Nat → Byte) → Nat × Nat → Nat × Nat → Bool
  buffer_large : imageStartCheckSize ≤ bufferSize
  slot_size : (sectors .slot).totalSize = (layout.slotEnd - layout.slotBegin).toNat

inductive Outcome where
  | start (slotBegin : BitVec 32)
  | halt
  deriving DecidableEq

namespace BootSequence

variable (boot : BootSequence)

def slotSize : Nat := (boot.sectors .slot).totalSize

def journalSize : Nat := (boot.sectors .journal).totalSize

def journalStatus : FlashProgram Flash UpgradePackStatus :=
  .reading fun memory => StatusJournal.status boot.journalSize (memory .journal)

def writeStatus (status : UpgradePackStatus) : FlashProgram Flash Unit :=
  StatusJournal.record boot.sectors .journal status 0

def writeError (errorCode : BitVec 32) : FlashProgram Flash Unit := do
  let status ← boot.journalStatus
  StatusJournal.record boot.sectors .journal status errorCode

def markAsError (errorCode : BitVec 32) : FlashProgram Flash Unit := do
  boot.writeStatus .invalid
  boot.writeError errorCode

def load : FlashProgram Flash Bool := do
  let headerPrologue := readHeaderPrologue boot.packFlash 0
  let status ← boot.journalStatus
  let address := UpgradePackHeaderPrologue.size
  if (status = .readyToDeploy ∨ status = .deployStarted) ∧
      headerPrologue.magic = upgradePackMagic then
    let signature := (address, address + headerPrologue.signatureLength.toNat)
    let address := address + headerPrologue.signatureLength.toNat
    let signedContents := (address, address + headerPrologue.signedContentsLength.toNat)
    let headerEpilogue := readHeaderEpilogue boot.packFlash address
    if headerEpilogue.headerVersion ≠ 1 then do
      boot.markAsError upgradeErrorCodeUnknownHeaderVersion
      pure false
    else if characters boot.productName ≠ characters headerEpilogue.productName then do
      boot.markAsError upgradeErrorCodeUnknownProductName
      pure false
    else if boot.isValid boot.packFlash signature signedContents = false then do
      boot.markAsError upgradeErrorCodeInvalidSignature
      pure false
    else pure true
  else pure false

/-- The slot less its descriptor, in the arithmetic of 32 bit words. -/
def roomForImage : BitVec 32 :=
  BitVec.ofNat 32 boot.slotSize - BitVec.ofNat 32 imageDescriptorSize

variable (imageSize : BitVec 32) (address : Nat)

def sizeFits : Bool :=
  decide (applicationHeaderOffset + ApplicationHeader.size ≤ imageSize.toNat) &&
    decide (imageSize ≤ boot.roomForImage)

def startFitsTarget (imageAddress : Nat) (imageSize : BitVec 32) : Bool :=
  let counter := bytesAt boot.packFlash
    (imageAddress - ImageHeaderEpilogue.size - Decryptor.stateSize) Decryptor.stateSize
  let epilogue := Decryptor.decryptPart boot.encrypt (.reset counter)
    (List.replicate ImageHeaderEpilogue.size 0)
  let start := bytesAt boot.packFlash imageAddress
    (min boot.bufferSize (min imageSize.toNat imageStartCheckSize))
  imageStartFitsTarget (Decryptor.decryptPart boot.encrypt epilogue.2 start).1 boot.layout
    boot.target

def eraseFor : FlashProgram Flash Unit := do
  let lastImageSector := (boot.sectors .slot).sectorOfAddress (imageSize.toNat - 1)
  let descriptorSector :=
    (boot.sectors .slot).sectorOfAddress (boot.slotSize - imageDescriptorSize)
  eraseSectors .slot 0 (lastImageSector + 1)
  if lastImageSector < descriptorSector then
    eraseSector .slot descriptorSector
  else pure ()

/-- The copy from an offset on, with at most as many chunks as are given. -/
def copyFrom (imageAddress imageSize : Nat) :
    Nat → Nat → Decryptor → FlashProgram Flash Unit
  | 0, _, _ => pure ()
  | chunks + 1, offset, decryptor =>
    if offset < imageSize then do
      let chunk := bytesAt boot.packFlash (imageAddress + offset)
        (min boot.bufferSize (imageSize - offset))
      let decrypted := decryptor.decryptPart boot.encrypt chunk
      writeBuffer .slot decrypted.1 offset
      copyFrom imageAddress imageSize chunks (offset + chunk.length) decrypted.2
    else pure ()

/-- Every chunk has a byte at least, so that there are no more chunks than bytes. -/
def copy (imageAddress : Nat) (imageSize : BitVec 32) (decryptor : Decryptor) :
    FlashProgram Flash Unit :=
  boot.copyFrom imageAddress imageSize.toNat imageSize.toNat 0 decryptor

/-- The bytes that the hash of the descriptor is updated with, chunk by chunk. -/
def readBackFrom (imageSize : Nat) : Nat → Nat → List Byte → FlashProgram Flash (List Byte)
  | 0, _, message => pure message
  | chunks + 1, offset, message =>
    if offset < imageSize then do
      let chunk ← readBuffer .slot (min boot.bufferSize (imageSize - offset)) offset
      readBackFrom imageSize chunks (offset + chunk.length) (message ++ chunk)
    else pure message

def writeDescriptor : FlashProgram Flash Unit := do
  let message ← boot.readBackFrom imageSize.toNat imageSize.toNat 0 []
  let descriptor : ImageDescriptor :=
    ⟨ImageDescriptor.validMagic, imageSize, (boot.sha256 message).toList,
      List.replicate 24 0xff⟩
  writeBuffer .slot descriptor.bytes (boot.slotSize - imageDescriptorSize)

def upgrade (imageAddress : Nat) (imageSize destinationAddress : BitVec 32)
    (decryptor : Decryptor) : FlashProgram Flash (BitVec 32) :=
  if destinationAddress ≠ boot.layout.slotBegin then pure errorWrongDestination
  else if boot.sizeFits imageSize = false then pure errorImageSize
  else if boot.startFitsTarget imageAddress imageSize = false then pure errorWrongTarget
  else do
    boot.eraseFor imageSize
    boot.copy imageAddress imageSize decryptor
    boot.writeDescriptor imageSize
    pure 0

/-- The header of the image at an address, decrypted, and the decryptor after it. -/
def openImage : ImageHeaderEpilogue × Decryptor :=
  let counter := bytesAt boot.packFlash (address + ImageHeaderPrologue.size) Decryptor.stateSize
  let epilogue := Decryptor.decryptPart boot.encrypt (.reset counter)
    (bytesAt boot.packFlash (address + ImageHeaderPrologue.size + Decryptor.stateSize)
      ImageHeaderEpilogue.size)
  (imageHeaderEpilogue epilogue.1, epilogue.2)

def imageAddress : Nat :=
  address + ImageHeaderPrologue.size + Decryptor.stateSize + ImageHeaderEpilogue.size

def tryUpgradeImage : FlashProgram Flash Bool := do
  let imageHeader := readImageHeaderPrologue boot.packFlash address
  if characters imageHeader.targetName = targetName then do
    let image := boot.openImage address
    let upgradeResult ← boot.upgrade (imageAddress address) image.1.imageSize
      image.1.destinationAddress image.2
    if upgradeResult ≠ 0 then do
      boot.markAsError upgradeResult
      pure false
    else pure true
  else do
    boot.markAsError upgradeErrorCodeNoSuitableImageUpgraderFound
    pure false

def nextImage : Nat :=
  address + (readImageHeaderPrologue boot.packFlash address).lengthOfHeaderAndImage.toNat

def upgradeImages : Nat → Nat → FlashProgram Flash Unit
  | 0, _ => boot.writeStatus .deployed
  | images + 1, address => do
      let upgraded ← boot.tryUpgradeImage address
      if upgraded = true then upgradeImages images (boot.nextImage address) else pure ()

def epilogueAddress : Nat :=
  UpgradePackHeaderPrologue.size + (readHeaderPrologue boot.packFlash 0).signatureLength.toNat

def firstImage : Nat := boot.epilogueAddress + UpgradePackHeaderEpilogue.size

def upgradeFromImages : FlashProgram Flash Unit :=
  if (readHeaderPrologue boot.packFlash 0).magic ≠ upgradePackMagic then pure ()
  else do
    boot.writeStatus .deployStarted
    let headerEpilogue := readHeaderEpilogue boot.packFlash boot.epilogueAddress
    if headerEpilogue.headerVersion ≠ 1 then
      boot.markAsError upgradeErrorCodeUnknownHeaderVersion
    else
      boot.upgradeImages headerEpilogue.numberOfImages.toNat boot.firstImage

def installRequested : FlashProgram Flash Bool := do
  let status ← boot.journalStatus
  pure (decide (status = .readyToDeploy ∨ status = .deployStarted))

def install : FlashProgram Flash Unit := do
  let loaded ← boot.load
  if loaded = true then boot.upgradeFromImages else pure ()

def startable (memory : Memory Flash) : Bool :=
  applicationIsStartable boot.sha256 (memory .slot) boot.slotSize boot.layout boot.target

def startOrHalt : FlashProgram Flash Outcome := do
  let startable ← Program.reading boot.startable
  if startable = true then pure (.start boot.layout.slotBegin) else pure .halt

def run : FlashProgram Flash Outcome := do
  let requested ← boot.installRequested
  if requested = true then do
    boot.install
    boot.startOrHalt
  else boot.startOrHalt

end BootSequence

end Bootloader
