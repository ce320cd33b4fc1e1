import Mathlib.Logic.Function.Iterate
import Mathlib.Algebra.Group.Nat.Defs

/-! `FlashSpi`: the commands that a write and an erase send to a flash device, and the bytes that
the device programs and erases for them. -/

namespace FlashSpis

abbrev Bytes := List UInt8

/-- What `FlashGeometry` tells of a device: a sector has whole subsectors and a subsector has
whole pages, and the address bytes of a command reach the whole device. -/
structure FlashGeometry where
  nrOfSubSectors : Nat
  sizeSector : Nat
  sizeSubSector : Nat
  sizePage : Nat
  extendedAddressing : Bool
  somePage : 0 < sizePage
  someSubSector : 0 < sizeSubSector
  someSector : 0 < sizeSector
  wholePages : sizePage ∣ sizeSubSector
  wholeSubSectors : sizeSubSector ∣ sizeSector
  fewSubSectors : nrOfSubSectors < 2 ^ 32
  smallSector : sizeSector < 2 ^ 32
  addressed : nrOfSubSectors * sizeSubSector ≤ if extendedAddressing then 2 ^ 32 else 2 ^ 24

abbrev Instruction := UInt8 × UInt8

def commandPageProgram : Instruction := (0x02, 0x12)
def commandEraseSubSector : Instruction := (0x20, 0x21)
def commandEraseSector : Instruction := (0xd8, 0xdc)
def commandReadStatusRegister : UInt8 := 0x05
def commandWriteEnable : UInt8 := 0x06
def commandEraseBulk : UInt8 := 0xc7

/-- Where the sequencer is in `WriteBuffer` and in `EraseSectors`. -/
inductive Position
  | condition
  | writeEnable
  | operation
  | readStatus
  | whileBusy
  | delay
  | readAgain
  | scheduleOnDone
  | finished
  deriving DecidableEq

/-- The members, what has been sent in each session from its start to its stop, how often the
status has been read and how often `onDone` has been scheduled. -/
structure FlashSpi where
  buffer : Bytes
  address : Nat
  sectorIndex : Nat
  statusRegister : UInt8
  sessions : List Bytes
  reads : Nat
  scheduled : Nat
  position : Position

namespace FlashGeometry

variable (geometry : FlashGeometry)

def totalSize : Nat := geometry.nrOfSubSectors * geometry.sizeSubSector

def subSectorsOfSector : Nat := geometry.sizeSector / geometry.sizeSubSector

variable (address : Nat)

def sectorOfAddress : Nat := address / geometry.sizeSubSector

def addressOfSector (sectorIndex : Nat) : Nat := sectorIndex * geometry.sizeSubSector % 2 ^ 32

def startOfSector : Nat := geometry.addressOfSector (geometry.sectorOfAddress address)

def addressOffsetInSector : Nat := address - geometry.startOfSector address

def addressSize : Nat := if geometry.extendedAddressing then 4 else 3

def instruction (instruction : Instruction) : UInt8 :=
  if geometry.extendedAddressing then instruction.2 else instruction.1

/-- The bytes of an address after `SwapEndian`. -/
def addressRange : Bytes :=
  [UInt8.ofNat (address / 2 ^ 24), UInt8.ofNat (address / 2 ^ 16), UInt8.ofNat (address / 2 ^ 8),
    UInt8.ofNat address]

def instructionAndAddress (instruction : Instruction) (address : Nat) : Bytes :=
  if geometry.extendedAddressing then instruction.2 :: addressRange address
  else instruction.1 :: (addressRange address).drop 1

end FlashGeometry

section

variable (geometry : FlashGeometry)

variable (s : FlashSpi)

def FlashSpi.send (bytes : Bytes) : FlashSpi :=
  { s with sessions := s.sessions ++ [bytes] }

def writeEnable : FlashSpi := s.send [commandWriteEnable]

def pageProgram : FlashSpi :=
  let writeBuffer := s.buffer.take
    (geometry.sizePage - geometry.addressOffsetInSector s.address % geometry.sizePage)
  let sent := s.send (geometry.instructionAndAddress commandPageProgram s.address ++ writeBuffer)
  { sent with
    buffer := s.buffer.drop writeBuffer.length
    address := (s.address + writeBuffer.length) % 2 ^ 32 }

def sendEraseSubSector (subSectorIndex : Nat) (s : FlashSpi) : FlashSpi :=
  s.send (geometry.instructionAndAddress commandEraseSubSector
    (geometry.addressOfSector subSectorIndex))

def sendEraseSector (subSectorIndex : Nat) (s : FlashSpi) : FlashSpi :=
  s.send (geometry.instructionAndAddress commandEraseSector
    (geometry.addressOfSector subSectorIndex))

def sendEraseBulk : FlashSpi := s.send [commandEraseBulk]

def eraseSomeSectors (endIndex : Nat) (s : FlashSpi) : FlashSpi :=
  if s.sectorIndex = 0 ∧ endIndex = geometry.nrOfSubSectors then
    { sendEraseBulk s with sectorIndex := (s.sectorIndex + geometry.nrOfSubSectors) % 2 ^ 32 }
  -- the sum is one of two 32-bit unsigned numbers, and may wrap
  else if s.sectorIndex % geometry.subSectorsOfSector = 0 ∧
      (s.sectorIndex + geometry.subSectorsOfSector) % 2 ^ 32 ≤ endIndex then
    { sendEraseSector geometry s.sectorIndex s with
      sectorIndex := (s.sectorIndex + geometry.subSectorsOfSector) % 2 ^ 32 }
  else
    { sendEraseSubSector geometry s.sectorIndex s with
      sectorIndex := (s.sectorIndex + 1) % 2 ^ 32 }

def readStatusRegister (answers : Nat → UInt8) (s : FlashSpi) : FlashSpi :=
  { s.send [commandReadStatusRegister] with
    statusRegister := answers s.reads
    reads := s.reads + 1 }

/-- The condition of the outer `While` and its second step. -/
structure Loop where
  condition : FlashSpi → Bool
  operation : FlashSpi → FlashSpi

def writeLoop : Loop where
  condition s := !s.buffer.isEmpty
  operation := pageProgram geometry

def eraseLoop (endIndex : Nat) : Loop where
  condition s := s.sectorIndex != endIndex
  operation := eraseSomeSectors geometry endIndex

/-- The loop, with `HoldWhileWriteInProgress` at its end and `ScheduleOnDone` behind it, one piece
at a time. -/
def advance (answers : Nat → UInt8) (loop : Loop) (s : FlashSpi) : FlashSpi :=
  match s.position with
  | .condition => { s with position := if loop.condition s then .writeEnable else .scheduleOnDone }
  | .writeEnable => { writeEnable s with position := .operation }
  | .operation => { loop.operation s with position := .readStatus }
  | .readStatus => { readStatusRegister answers s with position := .whileBusy }
  | .whileBusy => { s with position := if s.statusRegister &&& 1 = 1 then .delay else .condition }
  | .delay => { s with position := .readAgain }
  | .readAgain => { readStatusRegister answers s with position := .whileBusy }
  | .scheduleOnDone => { s with scheduled := s.scheduled + 1, position := .finished }
  | .finished => s

def startWrite (buffer : Bytes) (address : Nat) (s : FlashSpi) : FlashSpi :=
  { s with buffer, address, position := .condition }

def startErase (beginIndex : Nat) (s : FlashSpi) : FlashSpi :=
  { s with sectorIndex := beginIndex, position := .condition }

def toAddress (bytes : Bytes) : Nat :=
  bytes.foldl (fun address byte => address * 2 ^ 8 + byte.toNat) 0

def programmed : Bytes → Option (Nat × Bytes)
  | [] => none
  | instruction :: bytes =>
    if instruction = geometry.instruction commandPageProgram then
      some (toAddress (bytes.take geometry.addressSize), bytes.drop geometry.addressSize)
    else none

/-- The start and the size of the area that a session erases: the sector or the subsector that the
address is in, or the whole device. -/
def erased : Bytes → Option (Nat × Nat)
  | [] => none
  | instruction :: bytes =>
    let address := toAddress (bytes.take geometry.addressSize)
    if instruction = geometry.instruction commandEraseSector then
      some (address / geometry.sizeSector * geometry.sizeSector, geometry.sizeSector)
    else if instruction = geometry.instruction commandEraseSubSector then
      some (address / geometry.sizeSubSector * geometry.sizeSubSector, geometry.sizeSubSector)
    else if instruction = commandEraseBulk then some (0, geometry.totalSize)
    else none

def programmedBytes (sessions : List Bytes) : List (UInt8 × Nat) :=
  (sessions.filterMap (programmed geometry)).flatMap fun page => page.2.zipIdx page.1

def erasedAddresses (sessions : List Bytes) : List Nat :=
  (sessions.filterMap (erased geometry)).flatMap fun area => List.range' area.1 area.2

end

end FlashSpis
