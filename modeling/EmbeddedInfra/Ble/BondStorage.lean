import Mathlib.Tactic

/-! Bond storages, and the synchronizer of two of them. -/

namespace Ble

abbrev Bytes := List UInt8

def addressSize : Nat := 6

structure MacAddress where
  bytes : Bytes
  size : bytes.length = addressSize
  deriving DecidableEq

def MacAddress.ofBytes (bytes : Bytes) : MacAddress where
  bytes := (bytes ++ List.replicate addressSize 0).take addressSize
  size := by simp

/-- A class derived from `BondStorage`. Updating fails where a vector would be erased from or
written to beyond its bounds. -/
structure BondStorage (σ : Type) where
  updateBondedDevice : MacAddress → σ → Option σ
  removeBond : MacAddress → σ → σ
  removeAllBonds : σ → σ
  removeBondIf : (MacAddress → Bool) → σ → σ
  getMaxNumberOfBonds : σ → Nat
  isBondStored : MacAddress → σ → Bool
  /-- The addresses in the order in which `IterateBondedDevices` visits them. -/
  bondedDevices : σ → List MacAddress

/-- A vector of bytes in a configuration store, with what was last written to the store. -/
structure PersistentBondStorage where
  storage : Bytes
  written : Option Bytes
  maxSize : Nat
  fits : storage.length ≤ maxSize

namespace PersistentBondStorage

variable (storage : Bytes) (s : PersistentBondStorage) (address : MacAddress)

def numberOfBonds : Nat := storage.length / addressSize

def addressAt (index : Nat) : MacAddress :=
  .ofBytes ((storage.drop (index * addressSize)).take addressSize)

def eraseAt (index : Nat) : Bytes :=
  storage.take (index * addressSize) ++ storage.drop (index * addressSize + addressSize)

theorem length_eraseAt_le (index : Nat) : (eraseAt storage index).length ≤ storage.length := by
  rw [eraseAt, List.length_append, List.length_take, List.length_drop]
  omega

/-- The constructor drops what is no whole address. -/
def construct : PersistentBondStorage where
  storage := s.storage.take (numberOfBonds s.storage * addressSize)
  written := s.written
  maxSize := s.maxSize
  fits := (List.length_take_le' _ _).trans s.fits

def getMaxNumberOfBonds : Nat := s.maxSize / addressSize

def bondedDevices : List MacAddress :=
  (List.range (numberOfBonds storage)).map (addressAt storage)

def isBondStored (s : PersistentBondStorage) : Bool :=
  (List.range (numberOfBonds s.storage)).any fun index => addressAt s.storage index = address

def updateBondedDevice (s : PersistentBondStorage) : Option PersistentBondStorage :=
  if isBondStored address s then some s
  else if numberOfBonds s.storage = s.getMaxNumberOfBonds then
    if s.storage.length < addressSize then none
    else insert (eraseAt s.storage 0)
  else insert s.storage
where
  /-- `insert` at the end, and `Write`. -/
  insert (storage : Bytes) : Option PersistentBondStorage :=
    if room : (storage ++ address.bytes).length ≤ s.maxSize then
      some
        { storage := storage ++ address.bytes
          written := some (storage ++ address.bytes)
          maxSize := s.maxSize
          fits := room }
    else none

/-- The loop of `RemoveBondIf`; every round erases an address or leaves one behind. -/
def removeLoop (onAddress : MacAddress → Bool) : Nat → Nat → Bytes → Bytes
  | 0, _, storage => storage
  | rounds + 1, index, storage =>
    if onAddress (addressAt storage index) then removeLoop onAddress rounds index (eraseAt storage index)
    else removeLoop onAddress rounds (index + 1) storage

theorem length_removeLoop_le (onAddress : MacAddress → Bool) (rounds index : Nat) (storage : Bytes) :
    (removeLoop onAddress rounds index storage).length ≤ storage.length := by
  induction rounds generalizing index storage with
  | zero => exact Nat.le_refl _
  | succ rounds ih =>
    rw [removeLoop]
    split
    · exact (ih index _).trans (length_eraseAt_le storage index)
    · exact ih (index + 1) storage

def removeBondIf (onAddress : MacAddress → Bool) (s : PersistentBondStorage) :
    PersistentBondStorage where
  storage := removeLoop onAddress (numberOfBonds s.storage) 0 s.storage
  written := some (removeLoop onAddress (numberOfBonds s.storage) 0 s.storage)
  maxSize := s.maxSize
  fits := (length_removeLoop_le _ _ _ _).trans s.fits

def removeBond (s : PersistentBondStorage) : PersistentBondStorage :=
  removeBondIf (fun stored => stored = address) s

def removeAllBonds : PersistentBondStorage where
  storage := []
  written := some []
  maxSize := s.maxSize
  fits := Nat.zero_le _

end PersistentBondStorage

structure VolatileBondStorage where
  addresses : List MacAddress
  maxSize : Nat
  fits : addresses.length ≤ maxSize

namespace VolatileBondStorage

def updateBondedDevice (address : MacAddress) (s : VolatileBondStorage) :
    Option VolatileBondStorage :=
  if address ∈ s.addresses then some s
  else if s.addresses.length = s.maxSize then
    match s.addresses with
    | [] => none
    | _ :: rest => pushBack rest
  else pushBack s.addresses
where
  pushBack (addresses : List MacAddress) : Option VolatileBondStorage :=
    if room : (addresses ++ [address]).length ≤ s.maxSize then
      some { addresses := addresses ++ [address], maxSize := s.maxSize, fits := room }
    else none

def removeBondIf (onAddress : MacAddress → Bool) (s : VolatileBondStorage) :
    VolatileBondStorage where
  addresses := s.addresses.filter fun address => !onAddress address
  maxSize := s.maxSize
  fits := (List.length_filter_le _ _).trans s.fits

def removeBond (address : MacAddress) (s : VolatileBondStorage) : VolatileBondStorage :=
  removeBondIf (fun stored => stored = address) s

def removeAllBonds (s : VolatileBondStorage) : VolatileBondStorage where
  addresses := []
  maxSize := s.maxSize
  fits := Nat.zero_le _

end VolatileBondStorage

inductive AnyBondStorage
  | persistent (storage : PersistentBondStorage)
  | volatile (storage : VolatileBondStorage)

def AnyBondStorage.bondStorage : BondStorage AnyBondStorage where
  updateBondedDevice := fun address s =>
    match s with
    | persistent s => (s.updateBondedDevice address).map persistent
    | volatile s => (s.updateBondedDevice address).map volatile
  removeBond := fun address s =>
    match s with
    | persistent s => persistent (s.removeBond address)
    | volatile s => volatile (s.removeBond address)
  removeAllBonds := fun s =>
    match s with
    | persistent s => persistent s.removeAllBonds
    | volatile s => volatile s.removeAllBonds
  removeBondIf := fun onAddress s =>
    match s with
    | persistent s => persistent (s.removeBondIf onAddress)
    | volatile s => volatile (s.removeBondIf onAddress)
  getMaxNumberOfBonds := fun s =>
    match s with
    | persistent s => s.getMaxNumberOfBonds
    | volatile s => s.maxSize
  isBondStored := fun address s =>
    match s with
    | persistent s => s.isBondStored address
    | volatile s => address ∈ s.addresses
  bondedDevices := fun s =>
    match s with
    | persistent s => PersistentBondStorage.bondedDevices s.storage
    | volatile s => s.addresses

/-- The storage after its constructor. -/
def AnyBondStorage.construct : AnyBondStorage → AnyBondStorage
  | .persistent s => .persistent s.construct
  | .volatile s => .volatile s

structure BondStorageSynchronizer (σ τ : Type) where
  referenceBondStorage : σ
  otherBondStorage : τ

inductive Operation
  | updateBondedDevice (address : MacAddress)
  | removeBond (address : MacAddress)
  | removeAllBonds
  deriving DecidableEq

namespace BondStorageSynchronizer

section

variable {σ τ : Type} (reference : BondStorage σ) (other : BondStorage τ)

variable (s : BondStorageSynchronizer σ τ)

def syncBondStorages : Option (BondStorageSynchronizer σ τ) :=
  let kept := other.removeBondIf
    (fun address => !reference.isBondStored address s.referenceBondStorage) s.otherBondStorage
  ((reference.bondedDevices s.referenceBondStorage).foldlM
    (fun storage address =>
      if other.isBondStored address storage then some storage
      else other.updateBondedDevice address storage) kept).map
    fun storage => { s with otherBondStorage := storage }

/-- The constructor aborts where the maximum of the other storage is too small. -/
def construct : Option (BondStorageSynchronizer σ τ) :=
  if other.getMaxNumberOfBonds s.otherBondStorage <
      reference.getMaxNumberOfBonds s.referenceBondStorage then none
  else syncBondStorages reference other s

def step : Operation → Option (BondStorageSynchronizer σ τ)
  | .updateBondedDevice address => do
      let referenceBondStorage ← reference.updateBondedDevice address s.referenceBondStorage
      let otherBondStorage ← other.updateBondedDevice address s.otherBondStorage
      return { referenceBondStorage, otherBondStorage }
  | .removeBond address =>
    some
      { referenceBondStorage := reference.removeBond address s.referenceBondStorage
        otherBondStorage := other.removeBond address s.otherBondStorage }
  | .removeAllBonds =>
    some
      { referenceBondStorage := reference.removeAllBonds s.referenceBondStorage
        otherBondStorage := other.removeAllBonds s.otherBondStorage }

/-- The constructor, and a sequence of calls. -/
def run (operations : List Operation) : Option (BondStorageSynchronizer σ τ) :=
  (construct reference other s).bind fun s => operations.foldlM (step reference other) s

end

end BondStorageSynchronizer

end Ble
