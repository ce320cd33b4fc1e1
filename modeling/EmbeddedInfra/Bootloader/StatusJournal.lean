import EmbeddedInfra.Bootloader.SynchronousFlash
import Mathlib.Tactic

/-! The status journal: entries of one programming unit each, the scan for the latest valid
one, and the recording of a status. -/

namespace Bootloader

open CrashLogic Hal

/-- An enumeration of one byte, to which any byte can be cast. -/
structure UpgradePackStatus where
  byte : Byte
  deriving DecidableEq, Repr

namespace UpgradePackStatus

def empty : UpgradePackStatus := ⟨0xff⟩
def downloaded : UpgradePackStatus := ⟨0xfe⟩
def readyToDeploy : UpgradePackStatus := ⟨0xfc⟩
def deployStarted : UpgradePackStatus := ⟨0xf8⟩
def deployed : UpgradePackStatus := ⟨0xf0⟩
def invalid : UpgradePackStatus := ⟨0x7f⟩

end UpgradePackStatus

def word (memory : Nat → Byte) (address : Nat) : BitVec 32 :=
  memory (address + 3) ++ memory (address + 2) ++ memory (address + 1) ++ memory address

variable (value : BitVec 32) (entry : StatusJournalEntry)

def wordBytes : List Byte :=
  [value.extractLsb' 0 8, value.extractLsb' 8 8, value.extractLsb' 16 8, value.extractLsb' 24 8]

structure StatusJournalEntry where
  marker : BitVec 32
  status : Byte
  reserved : Byte × Byte × Byte
  errorCode : BitVec 32
  check : BitVec 32
  deriving DecidableEq, Repr

namespace StatusJournalEntry

def size : Nat := 16

def validMarker : BitVec 32 := 0x314a4d45

def bytes (entry : StatusJournalEntry) : List Byte :=
  wordBytes entry.marker ++
    [entry.status, entry.reserved.1, entry.reserved.2.1, entry.reserved.2.2] ++
    wordBytes entry.errorCode ++ wordBytes entry.check

end StatusJournalEntry

def check (marker : BitVec 32) (status : Byte) (errorCode : BitVec 32) : BitVec 32 :=
  ~~~(marker ^^^ status.setWidth 32 ^^^ errorCode)

def isErased : Bool := entry.bytes.all (· == 0xff)

def makeStatusJournalEntry (status : UpgradePackStatus) (errorCode : BitVec 32) :
    StatusJournalEntry where
  marker := StatusJournalEntry.validMarker
  status := status.byte
  reserved := (0xff, 0xff, 0xff)
  errorCode
  check := check StatusJournalEntry.validMarker status.byte errorCode

def isValid : Bool :=
  entry.marker == StatusJournalEntry.validMarker &&
    entry.check == check entry.marker entry.status entry.errorCode

namespace StatusJournal

structure Scan where
  latest : Option StatusJournalEntry
  firstErased : Option Nat

def readEntry (contents : Contents) (address : Nat) : StatusJournalEntry where
  marker := word contents.memory address
  status := contents.memory (address + 4)
  reserved := (contents.memory (address + 5), contents.memory (address + 6),
    contents.memory (address + 7))
  errorCode := word contents.memory (address + 8)
  check := word contents.memory (address + 12)

/-- The scan from an address on, over the units that are left. -/
def readFrom (contents : Contents) (scan : Scan) (address : Nat) : Nat → Scan
  | 0 => scan
  | left + 1 =>
    let entry := readEntry contents address
    if isErased entry then { scan with firstErased := some address }
    else
      readFrom contents (if isValid entry then { scan with latest := some entry } else scan)
        (address + StatusJournalEntry.size) left

def read (totalSize : Nat) (contents : Contents) : Scan :=
  readFrom contents ⟨none, none⟩ 0 (totalSize / StatusJournalEntry.size)

def status (totalSize : Nat) (contents : Contents) : UpgradePackStatus :=
  match (read totalSize contents).latest with
  | some entry => ⟨entry.status⟩
  | none => .empty

def errorCode (totalSize : Nat) (contents : Contents) : BitVec 32 :=
  match (read totalSize contents).latest with
  | some entry => entry.errorCode
  | none => 0

variable {δ : Type} (sectors : δ → Sectors) (flash : δ)

def clear : FlashProgram δ Unit := eraseAll sectors flash

def Scan.names (scan : Scan) (status : UpgradePackStatus) (errorCode : BitVec 32) : Bool :=
  scan.latest.any fun entry => entry.status == status.byte && entry.errorCode == errorCode

def record (status : UpgradePackStatus) (errorCode : BitVec 32) : FlashProgram δ Unit := do
  let scan ← Program.reading fun memory => read (sectors flash).totalSize (memory flash)
  if scan.names status errorCode then
    pure ()
  else
    match scan.firstErased with
    | some address =>
      writeBuffer flash (makeStatusJournalEntry status errorCode).bytes address
    | none =>
      clear sectors flash
      writeBuffer flash (makeStatusJournalEntry status errorCode).bytes 0

end StatusJournal

@[simp] theorem length_wordBytes : (wordBytes value).length = 4 := rfl

theorem append_extractLsb' :
    value.extractLsb' 24 8 ++ value.extractLsb' 16 8 ++ value.extractLsb' 8 8 ++
      value.extractLsb' 0 8 = value := by
  ext index bound
  simp only [BitVec.getElem_append, BitVec.getElem_extractLsb']
  split
  · rw [Nat.zero_add]
    exact BitVec.getLsbD_eq_getElem bound
  split
  · rw [show 8 + (index - 8) = index by omega]
    exact BitVec.getLsbD_eq_getElem bound
  split
  · rw [show 16 + (index - 8 - 8) = index by omega]
    exact BitVec.getLsbD_eq_getElem bound
  · rw [show 24 + (index - 8 - 8 - 8) = index by omega]
    exact BitVec.getLsbD_eq_getElem bound

theorem word_eq {memory : Nat → Byte} {address : Nat} {value : BitVec 32}
    (byte0 : memory address = value.extractLsb' 0 8)
    (byte1 : memory (address + 1) = value.extractLsb' 8 8)
    (byte2 : memory (address + 2) = value.extractLsb' 16 8)
    (byte3 : memory (address + 3) = value.extractLsb' 24 8) : word memory address = value := by
  rw [word, byte0, byte1, byte2, byte3]
  exact append_extractLsb' value

theorem extractLsb'_append_low {n : Nat} (high : BitVec n) (low : Byte) :
    (high ++ low).extractLsb' 0 8 = low := by
  ext index bound
  rw [BitVec.getElem_extractLsb', BitVec.getLsbD_append, Nat.zero_add, if_pos bound]
  exact BitVec.getLsbD_eq_getElem bound

theorem extractLsb'_append_high {n : Nat} (high : BitVec n) (low : Byte) (start : Nat) :
    (high ++ low).extractLsb' (8 + start) 8 = high.extractLsb' start 8 := by
  ext index bound
  rw [BitVec.getElem_extractLsb', BitVec.getElem_extractLsb', BitVec.getLsbD_append,
    if_neg (by omega)]
  congr 1
  omega

theorem wordBytes_word (memory : Nat → Byte) (address : Nat) :
    wordBytes (word memory address) =
      [memory address, memory (address + 1), memory (address + 2), memory (address + 3)] := by
  have top : memory (address + 3) = (memory (address + 3)).extractLsb' 0 8 := by
    ext index bound
    rw [BitVec.getElem_extractLsb', Nat.zero_add]
    exact (BitVec.getLsbD_eq_getElem bound).symm
  have byte0 : (word memory address).extractLsb' 0 8 = memory address :=
    extractLsb'_append_low _ _
  have byte1 : (word memory address).extractLsb' 8 8 = memory (address + 1) :=
    (extractLsb'_append_high _ _ 0).trans (extractLsb'_append_low _ _)
  have byte2 : (word memory address).extractLsb' 16 8 = memory (address + 2) :=
    (extractLsb'_append_high _ _ 8).trans
      ((extractLsb'_append_high _ _ 0).trans (extractLsb'_append_low _ _))
  have byte3 : (word memory address).extractLsb' 24 8 = memory (address + 3) :=
    (extractLsb'_append_high _ _ 16).trans
      ((extractLsb'_append_high _ _ 8).trans ((extractLsb'_append_high _ _ 0).trans top.symm))
  rw [wordBytes, byte0, byte1, byte2, byte3]

theorem bytes_readEntry (contents : Contents) (address : Nat) :
    (StatusJournal.readEntry contents address).bytes =
      contents.read address StatusJournalEntry.size := by
  simp only [StatusJournalEntry.bytes, StatusJournal.readEntry, wordBytes_word]
  rfl

end Bootloader
