import Mathlib.Data.List.DropRight
import Mathlib.Algebra.Group.Nat.Defs

/-! `PatchHex` of the bootloader image tool, and the memory that an Intel HEX text describes. -/

namespace BootloaderImage

abbrev Line := List Char

/-- " \t\r\n" -/
def isBlank (c : Char) : Bool := c = ' ' ∨ c = '\t' ∨ c = '\r' ∨ c = '\n'

variable (line : Line) (record : Record) (lines : List Line)

def trimmed : Line := (line.dropWhile isBlank).rdropWhile isBlank

def endOfFile : Line := ":00000001FF".toList

def isRecord : Prop := endOfFile.length ≤ line.length ∧ line.head? = some ':'

instance (line : Line) : Decidable (isRecord line) := inferInstanceAs (Decidable (_ ∧ _))

structure Record where
  address : Nat
  type : UInt8
  data : List UInt8
  deriving DecidableEq

def digit (c : Char) : Option Nat :=
  if '0'.toNat ≤ c.toNat ∧ c.toNat ≤ '9'.toNat then some (c.toNat - '0'.toNat)
  else if 'A'.toNat ≤ c.toNat ∧ c.toNat ≤ 'F'.toNat then some (c.toNat - 'A'.toNat + 10)
  else if 'a'.toNat ≤ c.toNat ∧ c.toNat ≤ 'f'.toNat then some (c.toNat - 'a'.toNat + 10)
  else none

def byteAt (index : Nat) : Option UInt8 :=
  ((line)[1 + 2 * index]?.bind digit).bind fun high =>
    ((line)[2 + 2 * index]?.bind digit).map fun low => UInt8.ofNat (high * 16 + low)

/-- The loop of `RecordBytes`. -/
def bytesFrom (line : Line) : Nat → Nat → Option (List UInt8)
  | 0, _ => some []
  | left + 1, index =>
    (byteAt line index).bind fun byte => (bytesFrom line left (index + 1)).map (byte :: ·)

def recordBytes : Option (List UInt8) :=
  if ¬isRecord line ∨ line.length % 2 = 0 then none else bytesFrom line ((line.length - 1) / 2) 0

def sum (bytes : List UInt8) : UInt8 := bytes.foldl (· + ·) 0

def parseRecord : Option Record :=
  (recordBytes line).bind fun bytes =>
    match bytes with
    | count :: high :: low :: type :: rest =>
      if bytes.length ≠ count.toNat + 5 then none
      else if sum bytes ≠ 0 then none
      else some ⟨high.toNat * 256 + low.toNat, type, rest.dropLast⟩
    | _ => none

def digits : List Char := "0123456789ABCDEF".toList

def hex (byte : UInt8) : Line := [digits.getD (byte.toNat / 16) '0', digits.getD (byte.toNat % 16) '0']

def format : Line :=
  let bytes := [UInt8.ofNat record.data.length, UInt8.ofNat (record.address / 256),
    UInt8.ofNat record.address, record.type] ++ record.data
  ':' :: (bytes ++ [0 - sum bytes]).flatMap hex

def baseAddress : Nat :=
  match record.data with
  | [high, low] =>
    let value := high.toNat * 256 + low.toNat
    if record.type = 4 then value * 2 ^ 16 else value * 2 ^ 4
  | _ => 0

/-- The loop of `Overwrite`: the data from `place` on, how many bytes of it are replaced, and
whether any are. -/
def overwriteFrom (address : Nat) (bytes : List UInt8) :
    Nat → List UInt8 → List UInt8 × Nat × Bool
  | _, [] => ([], 0, false)
  | place, byte :: rest =>
    let (rest, replaced, changed) := overwriteFrom address bytes (place + 1) rest
    if address ≤ place ∧ place < address + bytes.length then
      (bytes.getD (place - address) 0 :: rest, replaced + 1, true)
    else (byte :: rest, replaced, changed)

def overwrite (base address : Nat) (bytes : List UInt8) : Record × Nat × Bool :=
  let (data, replaced, changed) := overwriteFrom address bytes (base + record.address) record.data
  ({ record with data := data }, replaced, changed)

/-- The loop of `PatchHex`. -/
def patchLines (address : Nat) (bytes : List UInt8) :
    List Line → Nat → Nat → Option (List Line × Nat)
  | [], _, replaced => some ([], replaced)
  | line :: lines, base, replaced =>
    let keep (base : Nat) := (patchLines address bytes lines base replaced).map
      fun (patched, replaced) => (line :: patched, replaced)
    if trimmed line = [] then keep base
    else
      (parseRecord (trimmed line)).bind fun record =>
        if record.type = 2 ∨ record.type = 4 then keep (baseAddress record)
        else if record.type = 0 then
          let (record, more, changed) := overwrite record base address bytes
          let line :=
            if changed then format record ++ (if line.getLast? = some '\r' then ['\r'] else [])
            else line
          (patchLines address bytes lines base (replaced + more)).map
            fun (patched, replaced) => (line :: patched, replaced)
        else keep base

def patchHex (address : Nat) (bytes : List UInt8) : Bool × List Line :=
  match patchLines address bytes lines 0 0 with
  | some (patched, replaced) => if replaced = bytes.length then (true, patched) else (false, lines)
  | none => (false, lines)

/-- Every line is blank or a record. -/
def IsHex : Prop :=
  ∀ line ∈ lines, trimmed line = [] ∨ (parseRecord (trimmed line)).isSome

def placed : Nat → List UInt8 → List (Nat × UInt8)
  | _, [] => []
  | place, byte :: rest => (place, byte) :: placed (place + 1) rest

/-- The bytes that the data records put at their addresses, which are added to the base address
of the last record that has one. -/
def writesFrom : List Line → Nat → List (Nat × UInt8)
  | [], _ => []
  | line :: lines, base =>
    match parseRecord (trimmed line) with
    | none => writesFrom lines base
    | some record =>
      if record.type = 2 ∨ record.type = 4 then writesFrom lines (baseAddress record)
      else if record.type = 0 then
        placed (base + record.address) record.data ++ writesFrom lines base
      else writesFrom lines base

def writes : List (Nat × UInt8) := writesFrom lines 0

abbrev Memory := Nat → Option UInt8

def store (memory : Memory) (write : Nat × UInt8) : Memory :=
  Function.update memory write.1 (some write.2)

def memory : Memory := (writes lines).foldl store fun _ => none

def timesCovered (place : Nat) : Nat := ((writes lines).map Prod.fst).count place

def bytesWithin (address size : Nat) : Nat :=
  ((writes lines).map Prod.fst).countP fun place => address ≤ place ∧ place < address + size

/-- The patch is made if and only if all of its addresses have data, and then nothing else of the
memory changes; otherwise the lines stay as they are. -/
structure Patches (lines : List Line) (address : Nat) (bytes : List UInt8) : Prop where
  returns : (patchHex lines address bytes).1 = true ↔
    ∀ i < bytes.length, 0 < timesCovered lines (address + i)
  patched : (patchHex lines address bytes).1 = true → IsHex (patchHex lines address bytes).2 ∧
    ∀ place, memory (patchHex lines address bytes).2 place =
      if address ≤ place ∧ place < address + bytes.length then bytes[place - address]?
      else memory lines place
  unchanged : (patchHex lines address bytes).1 = false → (patchHex lines address bytes).2 = lines

/-- Every address has one byte of data, or one has none and there are more or less bytes of data
for the addresses than the patch has. -/
def CountsRight (address size : Nat) : Prop :=
  (∀ i < size, timesCovered lines (address + i) = 1) ∨
    ((∃ i < size, timesCovered lines (address + i) = 0) ∧ bytesWithin lines address size ≠ size)

end BootloaderImage
