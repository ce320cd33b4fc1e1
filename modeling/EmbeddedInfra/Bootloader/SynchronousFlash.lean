import EmbeddedInfra.CrashLogic
import Mathlib.Data.List.GetD
import Mathlib.Order.Monotone.Basic

/-! Flash memories behind the synchronous flash interface: their sectors, their bytes, and
the operations on them. -/

namespace Hal

open CrashLogic List

abbrev Byte := BitVec 8

def erasedByte : Byte := 0xff

def programmingUnit : Nat := 16

structure Sectors where
  numberOfSectors : Nat
  sizeOfSector : Nat → Nat
  sectorOfAddress : Nat → Nat
  addressOfSector : Nat → Nat
  some_sector : 0 < numberOfSectors
  nonempty : ∀ sector, 0 < sizeOfSector sector
  first : addressOfSector 0 = 0
  next : ∀ sector, addressOfSector (sector + 1) = addressOfSector sector + sizeOfSector sector
  contains : ∀ address, address < addressOfSector numberOfSectors →
    addressOfSector (sectorOfAddress address) ≤ address ∧
      address < addressOfSector (sectorOfAddress address) + sizeOfSector (sectorOfAddress address)

namespace Sectors

variable (sectors : Sectors)

def totalSize : Nat :=
  sectors.addressOfSector (sectors.numberOfSectors - 1) +
    sectors.sizeOfSector (sectors.numberOfSectors - 1)

theorem totalSize_eq : sectors.totalSize = sectors.addressOfSector sectors.numberOfSectors := by
  have last := sectors.next (sectors.numberOfSectors - 1)
  rw [Nat.sub_add_cancel sectors.some_sector] at last
  exact last.symm

theorem totalSize_pos : 0 < sectors.totalSize :=
  Nat.add_pos_right _ (sectors.nonempty _)

theorem addressOfSector_mono : Monotone sectors.addressOfSector := by
  apply monotone_nat_of_le_succ
  intro sector
  rw [sectors.next]
  exact Nat.le_add_right _ _

theorem start_le {address : Nat} (within : address < sectors.totalSize) :
    sectors.addressOfSector (sectors.sectorOfAddress address) ≤ address :=
  (sectors.contains address (sectors.totalSize_eq ▸ within)).1

theorem lt_next {address : Nat} (within : address < sectors.totalSize) :
    address < sectors.addressOfSector (sectors.sectorOfAddress address + 1) := by
  rw [sectors.next]
  exact (sectors.contains address (sectors.totalSize_eq ▸ within)).2

end Sectors

/-- Sectors of one size. -/
def homogeneous (numberOfSectors sizeOfEachSector : Nat) (sector : 0 < numberOfSectors)
    (nonempty : 0 < sizeOfEachSector) : Sectors where
  numberOfSectors
  sizeOfSector := fun _ => sizeOfEachSector
  sectorOfAddress := fun address => address / sizeOfEachSector
  addressOfSector := fun sector => sector * sizeOfEachSector
  some_sector := sector
  nonempty := fun _ => nonempty
  first := Nat.zero_mul _
  next := fun sector => Nat.succ_mul sector _
  contains := by
    intro address _
    have split := Nat.div_add_mod' address sizeOfEachSector
    have rest := Nat.mod_lt address nonempty
    omega

/-- The bytes, how often each unit has been programmed since it was erased, and the bytes
that the flash was last asked to hold. -/
structure Contents where
  memory : Nat → Byte
  programmed : Nat → Nat
  requested : Nat → Byte

namespace Contents

def erased : Contents := ⟨fun _ => erasedByte, fun _ => 0, fun _ => erasedByte⟩

/-- Programming clears bits and sets none. -/
def program (contents : Contents) (buffer : List Byte) (address : Nat) : Contents where
  memory := fun i =>
    if address ≤ i then contents.memory i &&& buffer.getD (i - address) erasedByte
    else contents.memory i
  programmed := fun unit =>
    if address / programmingUnit ≤ unit ∧ unit * programmingUnit < address + buffer.length ∧
        buffer ≠ [] then contents.programmed unit + 1
    else contents.programmed unit
  requested := fun i =>
    if address ≤ i then buffer.getD (i - address) (contents.requested i)
    else contents.requested i

def erase (contents : Contents) (first last : Nat) : Contents where
  memory := fun i => if first ≤ i ∧ i < last then erasedByte else contents.memory i
  programmed := fun unit =>
    if first / programmingUnit ≤ unit ∧ unit < last / programmingUnit then 0
    else contents.programmed unit
  requested := fun i => if first ≤ i ∧ i < last then erasedByte else contents.requested i

def read (contents : Contents) (address size : Nat) : List Byte :=
  (List.range size).map fun k => contents.memory (address + k)

variable (contents : Contents)

@[simp] theorem length_read (address size : Nat) : (contents.read address size).length = size := by
  rw [read, length_map, length_range]

theorem getElem_read (address size k : Nat) (within : k < (contents.read address size).length) :
    (contents.read address size)[k] = contents.memory (address + k) := by
  simp only [read, getElem_map, getElem_range]

variable {address : Nat} {buffer : List Byte} {i : Nat}

theorem read_congr {other : Contents} {size : Nat}
    (same : ∀ k, k < size → contents.memory (address + k) = other.memory (address + k)) :
    contents.read address size = other.read address size := by
  apply map_congr_left
  intro k member
  exact same k (mem_range.mp member)

theorem program_nil (address : Nat) : contents.program [] address = contents := by
  have memory : (contents.program [] address).memory = contents.memory := by
    funext i
    simp only [program, getD_nil, erasedByte]
    split
    · exact BitVec.and_allOnes
    · rfl
  have programmed : (contents.program [] address).programmed = contents.programmed := by
    funext unit
    simp only [program, ne_eq, not_true_eq_false, and_false, if_false]
  have requested : (contents.program [] address).requested = contents.requested := by
    funext i
    simp only [program, getD_nil, ite_self]
  cases contents
  simp only [program, Contents.mk.injEq] at memory programmed requested ⊢
  exact ⟨memory, programmed, requested⟩

theorem program_before (before : i < address) :
    (contents.program buffer address).memory i = contents.memory i :=
  if_neg (Nat.not_le.mpr before)

theorem program_after (after : address + buffer.length ≤ i) :
    (contents.program buffer address).memory i = contents.memory i := by
  have beyond : buffer.length ≤ i - address := by omega
  simp only [program]
  split
  · rw [getD_eq_default _ _ beyond]
    exact BitVec.and_allOnes
  · rfl

theorem program_erased {k : Nat} (within : k < buffer.length)
    (free : contents.memory (address + k) = erasedByte) :
    (contents.program buffer address).memory (address + k) = buffer[k] := by
  simp only [program, Nat.le_add_right, if_true, Nat.add_sub_cancel_left, free,
    getD_eq_getElem _ _ within]
  exact BitVec.allOnes_and

theorem erase_inside {first last : Nat} (after : first ≤ i) (before : i < last) :
    (contents.erase first last).memory i = erasedByte := if_pos ⟨after, before⟩

theorem erase_keeps {first last : Nat} (free : contents.memory i = erasedByte) :
    (contents.erase first last).memory i = erasedByte := by
  simp only [erase, free, ite_self]

end Contents

/-- The operations of the flashes of a system, each named by a reference. -/
inductive FlashOperation (δ : Type) where
  | writeBuffer (flash : δ) (buffer : List Byte) (address : Nat)
  | eraseSectors (flash : δ) (beginIndex endIndex : Nat)

/-- The contents of the flashes of a system. -/
abbrev Memory (δ : Type) := δ → Contents

abbrev FlashProgram (δ α : Type) := Program (Memory δ) (FlashOperation δ) α

section

variable {δ : Type}

def readBuffer (flash : δ) (size address : Nat) : FlashProgram δ (List Byte) :=
  .reading fun memory => (memory flash).read address size

def writeBuffer (flash : δ) (buffer : List Byte) (address : Nat) : FlashProgram δ Unit :=
  .operate (.writeBuffer flash buffer address)

def eraseSectors (flash : δ) (beginIndex endIndex : Nat) : FlashProgram δ Unit :=
  .operate (.eraseSectors flash beginIndex endIndex)

def eraseSector (flash : δ) (sectorIndex : Nat) : FlashProgram δ Unit :=
  eraseSectors flash sectorIndex (sectorIndex + 1)

def eraseAll (sectors : δ → Sectors) (flash : δ) : FlashProgram δ Unit :=
  eraseSectors flash 0 (sectors flash).numberOfSectors

end

section

variable {δ : Type} [DecidableEq δ]

/-- A flash that does what it is told. -/
def carryOut (sectors : δ → Sectors) : FlashOperation δ → Memory δ → Memory δ
  | .writeBuffer flash buffer address, memory =>
    Function.update memory flash ((memory flash).program buffer address)
  | .eraseSectors flash beginIndex endIndex, memory =>
    Function.update memory flash ((memory flash).erase
      ((sectors flash).addressOfSector beginIndex) ((sectors flash).addressOfSector endIndex))

/-- A reset during a write leaves a prefix of the buffer. -/
inductive PrefixWritten (memory : Memory δ) : FlashOperation δ → Memory δ → Prop
  | writeBuffer (flash : δ) (buffer : List Byte) (address stored : Nat) :
      PrefixWritten memory (.writeBuffer flash buffer address)
        (Function.update memory flash ((memory flash).program (buffer.take stored) address))

end

end Hal
