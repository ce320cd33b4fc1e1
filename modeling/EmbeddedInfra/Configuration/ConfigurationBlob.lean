import EmbeddedInfra.Bootloader.ApplicationCheck

/-! The two flashes that a configuration store keeps its configuration in, and the buffer in
RAM that both are read to and written from. -/

namespace Configuration

open CrashLogic Hal
open Bootloader (word wordBytes bytesOf)

inductive Blob where
  | first
  | second
  deriving DecidableEq

def Blob.other : Blob → Blob
  | .first => .second
  | .second => .first

def hashSize : Nat := 8
def headerSize : Nat := 12

/-- The sizes of the blobs, the flashes below them, and the hash function. `sizeWidth` is the
number of bits of `std::size_t`. -/
structure ConfigurationBlobs where
  sectors : Blob → Sectors
  blobSize : Nat
  verificationSize : Nat
  sizeWidth : Nat
  sha256 : List Byte → Vector Byte 32
  header_fits : headerSize ≤ blobSize
  fits_flash : ∀ blob, blobSize ≤ (sectors blob).totalSize
  addressable : blobSize < 2 ^ 32
  wide : 32 ≤ sizeWidth
  verification_pos : 0 < verificationSize

/-- The RAM of the store: the buffer and sizes of its blobs, and their roles. -/
structure ConfigurationStoreBase where
  blob : List Byte
  currentSize : Blob → BitVec 32
  activeBlob : Blob
  inactiveBlob : Blob

namespace ConfigurationBlobs

variable (blobs : ConfigurationBlobs)

variable (blob : List Byte)

def storedSize : BitVec 32 := word (bytesOf blob) hashSize

def blobIsValid : Bool :=
  let size := (storedSize blob).toNat
  if blobs.blobSize < (size + headerSize) % 2 ^ blobs.sizeWidth then false
  else
    let input := (blob.drop hashSize).take ((size + 4) % 2 ^ blobs.sizeWidth)
    (blobs.sha256 input).toList.take hashSize == blob.take hashSize

def prepareBlobForWriting (size : BitVec 32) : List Byte :=
  let sized := blob.take hashSize ++ wordBytes size ++ blob.drop headerSize
  let input := (sized.drop hashSize).take ((size.toNat + 4) % 2 ^ blobs.sizeWidth)
  (blobs.sha256 input).toList.take hashSize ++ sized.drop hashSize

def recoverBlob (store : ConfigurationStoreBase) (blob : Blob) :
    FlashProgram Blob (ConfigurationStoreBase × Bool) := do
  let contents ← readBuffer blob blobs.blobSize 0
  if blobs.blobIsValid contents = true then
    pure ({ store with
      blob := contents
      currentSize := Function.update store.currentSize blob (storedSize contents) }, true)
  else pure ({ store with blob := contents }, false)

/-- The rest of the verification, with at most as many blocks as are given; whether no
assertion fails. -/
def verifyBlock (blob : Blob) (contents : List Byte) : Nat → Nat → FlashProgram Blob Bool
  | 0, _ => pure true
  | blocks + 1, index =>
    if index ≠ blobs.blobSize then do
      let block ← readBuffer blob (min blobs.verificationSize (blobs.blobSize - index)) index
      if block = (contents.drop index).take blobs.verificationSize then
        verifyBlock blob contents blocks (index + block.length)
      else pure false
    else pure true

def verifyIfIsErased (blob : Blob) : Nat → Nat → FlashProgram Blob Bool
  | 0, _ => pure true
  | blocks + 1, index =>
    if index ≠ blobs.blobSize then do
      let block ← readBuffer blob (min blobs.verificationSize (blobs.blobSize - index)) index
      if block.all (· == 0xff) = true then
        verifyIfIsErased blob blocks (index + block.length)
      else pure false
    else pure true

/-- Every block has a byte at least, so that there are no more blocks than bytes. -/
def isErased (blob : Blob) : FlashProgram Blob Bool :=
  blobs.verifyIfIsErased blob blobs.blobSize 0

def writeBlob (store : ConfigurationStoreBase) (blob : Blob) (size : BitVec 32) :
    FlashProgram Blob (ConfigurationStoreBase × Bool) := do
  let contents := blobs.prepareBlobForWriting store.blob size
  writeBuffer blob contents 0
  let verified ← blobs.verifyBlock blob contents blobs.blobSize 0
  pure ({ store with
    blob := contents
    currentSize := Function.update store.currentSize blob size }, verified)

def eraseBlob (blob : Blob) : FlashProgram Blob Unit := eraseAll blobs.sectors blob

end ConfigurationBlobs

namespace ConfigurationStoreBase

/-- The RAM when the power comes on; nothing is known of the buffer. -/
def construct (ram : List Byte) : ConfigurationStoreBase where
  blob := ram
  currentSize := fun _ => 0
  activeBlob := .first
  inactiveBlob := .second

variable (store : ConfigurationStoreBase)

def swap : ConfigurationStoreBase :=
  { store with activeBlob := store.inactiveBlob, inactiveBlob := store.activeBlob }

def currentBlob (blob : Blob) : List Byte :=
  (store.blob.drop headerSize).take (store.currentSize blob).toNat

/-- The configuration that is deserialized, if there is one. -/
def onBlobLoaded (success : Bool) : ConfigurationStoreBase × Option (List Byte) :=
  let store := store.swap
  (store, if success = true then some (store.currentBlob store.inactiveBlob) else none)

variable (blobs : ConfigurationBlobs)

def eraseUnlessErased (blob : Blob) : FlashProgram Blob Unit := do
  let erased ← blobs.isErased blob
  if erased = true then pure () else blobs.eraseBlob blob

def recover :
    FlashProgram Blob (ConfigurationStoreBase × Option (List Byte)) := do
  let recovered ← blobs.recoverBlob store store.activeBlob
  if recovered.2 = true then do
    eraseUnlessErased blobs recovered.1.inactiveBlob
    pure (recovered.1.onBlobLoaded true)
  else do
    let swapped := recovered.1.swap
    let recovered ← blobs.recoverBlob swapped swapped.activeBlob
    eraseUnlessErased blobs recovered.1.inactiveBlob
    pure (recovered.1.onBlobLoaded recovered.2)

/-- The configuration is given as the bytes that it is serialized to. -/
def serialize (configuration : List Byte) : FlashProgram Blob (ConfigurationStoreBase × Bool) :=
  let remaining := blobs.blobSize - headerSize - configuration.length
  blobs.writeBlob { store with
    blob := store.blob.take headerSize ++ configuration ++ List.replicate remaining 0xff }
    store.activeBlob (BitVec.ofNat 32 configuration.length)

/-- A write that starts; it gives the store after it, unless an assertion fails. -/
def write (configuration : List Byte) :
    FlashProgram Blob (Option ConfigurationStoreBase) := do
  let written ← store.serialize blobs configuration
  if written.2 = true then do
    blobs.eraseBlob written.1.inactiveBlob
    pure (some written.1.swap)
  else pure none

end ConfigurationStoreBase

end Configuration
