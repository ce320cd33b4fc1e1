import Mathlib.Algebra.Order.BigOperators.Group.List
import Mathlib.Data.List.GetD
import Mathlib.Algebra.GroupWithZero.Nat

/-! `FlashRegion`: some sectors of another flash. The type `T` of addresses and sectors has
`bits` bits. -/

namespace FlashRegions

open List

abbrev Bytes := List UInt8

/-! ### The master -/

inductive Master where
  | homogeneous (numberOfSectors sizeOfEachSector : Nat)
  | heterogeneous (sectors : List Nat)

variable {bits : Nat}

/-- The loop of `FlashHeterogeneous::SectorOfAddress`. -/
def sectorLoop (bits address : Nat) : List Nat → Nat → Nat → Option Nat
  | [], totalSize, sector => if address = totalSize then some sector else none
  | size :: rest, totalSize, sector =>
    let totalSize := (totalSize + size) % 2 ^ bits
    if address < totalSize then some sector else sectorLoop bits address rest totalSize (sector + 1)

/-- The loop of `FlashHeterogeneous::AddressOfSector`. -/
def addressLoop (bits : Nat) (sizes : List Nat) : Nat :=
  sizes.foldl (fun address size => (address + size) % 2 ^ bits) 0

namespace Master

def numberOfSectors : Master → Nat
  | homogeneous numberOfSectors _ => numberOfSectors
  | heterogeneous sectors => sectors.length

/-- Nothing where the assertion fails or it is divided by zero. -/
def sectorOfAddress (bits : Nat) : Master → Nat → Option Nat
  | homogeneous numberOfSectors sizeOfEachSector, address =>
    if sizeOfEachSector = 0 then none
    else
      let sectorIndex := address / sizeOfEachSector
      if sectorIndex ≤ numberOfSectors then some sectorIndex else none
  | heterogeneous sectors, address => sectorLoop bits address sectors 0 0

def addressOfSector (bits : Nat) : Master → Nat → Option Nat
  | homogeneous numberOfSectors sizeOfEachSector, sectorIndex =>
    if sectorIndex < numberOfSectors then some (sectorIndex * sizeOfEachSector % 2 ^ bits) else none
  | heterogeneous sectors, sectorIndex =>
    if sectorIndex < sectors.length then some (addressLoop bits (sectors.take sectorIndex)) else none

end Master

/-! ### The region -/

structure FlashRegion where
  master : Master
  startSector : Nat
  numberOfSectors : Nat
  masterAddressOfStartSector : Nat

def construct (bits : Nat) (master : Master) (startSector numberOfSectors : Nat) :
    Option FlashRegion :=
  match master.addressOfSector bits startSector with
  | none => none
  | some masterAddressOfStartSector =>
    if (startSector + numberOfSectors) % 2 ^ bits ≤ master.numberOfSectors then
      some ⟨master, startSector, numberOfSectors, masterAddressOfStartSector⟩
    else none

/-- What the master is asked for: so many bytes at an address. -/
structure Access where
  address : Nat
  size : Nat
  deriving DecidableEq

namespace FlashRegion

def sectorOfAddress (bits : Nat) (region : FlashRegion) (address : Nat) : Option Nat :=
  (region.master.sectorOfAddress bits
      ((region.masterAddressOfStartSector + address) % 2 ^ bits)).map fun sector =>
    (sector + 2 ^ bits - region.startSector) % 2 ^ bits

def addressOfSector (bits : Nat) (region : FlashRegion) (sectorIndex : Nat) : Option Nat :=
  (region.master.addressOfSector bits ((sectorIndex + region.startSector) % 2 ^ bits)).map
    fun address => (address + 2 ^ bits - region.masterAddressOfStartSector) % 2 ^ bits

/-- A sector that the assertion of `WriteBuffer` accepts. -/
def accepts (bits : Nat) (region : FlashRegion) (address : Nat) : Bool :=
  match region.sectorOfAddress bits address with
  | none => false
  | some sector => decide (sector ≤ region.numberOfSectors)

def writeBuffer (bits : Nat) (region : FlashRegion) (buffer : Bytes) (address : Nat) :
    Option Access :=
  if region.accepts bits address && region.accepts bits ((address + buffer.length) % 2 ^ bits) then
    some ⟨(address + region.masterAddressOfStartSector) % 2 ^ bits, buffer.length⟩
  else none

def readBuffer (bits : Nat) (region : FlashRegion) (buffer : Bytes) (address : Nat) :
    Option Access :=
  if region.accepts bits address && region.accepts bits ((address + buffer.length) % 2 ^ bits) then
    some ⟨(address + region.masterAddressOfStartSector) % 2 ^ bits, buffer.length⟩
  else none

/-- The first sector that the master is asked to erase, and the first one that it is not. -/
def eraseSectors (bits : Nat) (region : FlashRegion) (beginIndex endIndex : Nat) :
    Option (Nat × Nat) :=
  if beginIndex ≤ region.numberOfSectors ∧ endIndex ≤ region.numberOfSectors then
    some ((beginIndex + region.startSector) % 2 ^ bits, (endIndex + region.startSector) % 2 ^ bits)
  else none

end FlashRegion

/-! ### What a region is for -/

namespace Master

def sizes : Master → List Nat
  | homogeneous numberOfSectors sizeOfEachSector => List.replicate numberOfSectors sizeOfEachSector
  | heterogeneous sectors => sectors

def start (master : Master) (sector : Nat) : Nat := (master.sizes.take sector).sum

/-- The sectors are not empty, and an address has room for the size of the flash. -/
structure WellFormed (bits : Nat) (master : Master) : Prop where
  nonempty : ∀ size ∈ master.sizes, 0 < size
  representable : master.sizes.sum < 2 ^ bits

/-- The addresses behind the start of a sector that count as its own: for the end of the flash
these are as many as in any sector, or the end only. -/
def reach : Master → Nat → Nat
  | homogeneous _ sizeOfEachSector, _ => sizeOfEachSector
  | heterogeneous sectors, sector => sectors.getD sector 1

end Master

/-- The bytes of an access are in the sectors of the region. -/
def Inside (region : FlashRegion) (access : Access) : Prop :=
  access.size = 0 ∨
    (region.master.start region.startSector ≤ access.address ∧
      access.address + access.size ≤ region.master.start (region.startSector + region.numberOfSectors))

structure Confines (bits : Nat) (region : FlashRegion) (buffer : Bytes) (address : Nat) : Prop where
  writes : ∀ access, region.writeBuffer bits buffer address = some access → Inside region access
  reads : ∀ access, region.readBuffer bits buffer address = some access → Inside region access
  erases : ∀ beginIndex endIndex sectors,
    region.eraseSectors bits beginIndex endIndex = some sectors →
      sectors = (region.startSector + beginIndex, region.startSector + endIndex) ∧
        region.startSector + beginIndex ≤ region.startSector + region.numberOfSectors ∧
        region.startSector + endIndex ≤ region.startSector + region.numberOfSectors
  usable : ∀ (inner : Bytes) (offset : Nat),
    region.master.start region.startSector + offset + inner.length ≤
        region.master.start (region.startSector + region.numberOfSectors) →
      region.writeBuffer bits inner offset =
          some ⟨region.master.start region.startSector + offset, inner.length⟩ ∧
        region.readBuffer bits inner offset =
          some ⟨region.master.start region.startSector + offset, inner.length⟩
  addresses : ∀ sector ≤ region.numberOfSectors, ∀ offset,
    region.addressOfSector bits sector = some offset ↔
      region.master.addressOfSector bits (region.startSector + sector) =
        some (region.master.start region.startSector + offset)
  sectors : ∀ offset, region.master.start region.startSector + offset ≤
      region.master.start (region.startSector + region.numberOfSectors) → ∀ sector,
    region.sectorOfAddress bits offset = some sector ↔
      region.master.sectorOfAddress bits (region.master.start region.startSector + offset) =
        some (region.startSector + sector)

/-- The access goes on behind the region, and ends in the sector behind it. -/
def Strays (bits : Nat) (master : Master) (startSector numberOfSectors address size : Nat) : Prop :=
  let first := (master.start startSector + address) % 2 ^ bits
  let last := (first + size) % 2 ^ bits
  let behind := master.start (startSector + numberOfSectors)
  let limit := behind + master.reach (startSector + numberOfSectors)
  0 < size ∧ behind < first + size ∧
    (master.start startSector ≤ first ∧ first < limit) ∧ master.start startSector ≤ last ∧ last < limit

/-! ### Sectors and addresses -/

theorem addressLoop_from (sizes : List Nat) (address : Nat) (room : address + sizes.sum < 2 ^ bits) :
    sizes.foldl (fun address size => (address + size) % 2 ^ bits) address = address + sizes.sum := by
  induction sizes generalizing address with
  | nil => simp
  | cons size rest ih =>
    rw [sum_cons] at room
    rw [foldl_cons, Nat.mod_eq_of_lt (by omega), ih _ (by omega), sum_cons]
    omega

theorem sectorLoop_iff {address sector found : Nat} (sizes : List Nat) {totalSize : Nat}
    (room : totalSize + sizes.sum < 2 ^ bits) (above : totalSize ≤ address) :
    sectorLoop bits address sizes totalSize sector = some found ↔
      ∃ passed ≤ sizes.length, found = sector + passed ∧
        totalSize + (sizes.take passed).sum ≤ address ∧
        address < totalSize + (sizes.take passed).sum + sizes.getD passed 1 := by
  induction sizes generalizing totalSize sector with
  | nil =>
    rw [sectorLoop]
    constructor
    · intro answered
      split at answered
      · next atEnd => exact ⟨0, Nat.le_refl 0, (Option.some.inj answered).symm, by simp [atEnd]⟩
      · exact Bool.noConfusion (congrArg Option.isSome answered)
    · rintro ⟨passed, within, same, _, before⟩
      have zero : passed = 0 := Nat.le_zero.mp within
      subst zero
      simp only [take_nil, sum_nil, Nat.add_zero, getD_nil] at before
      rw [if_pos (by omega), same, Nat.add_zero]
  | cons size rest ih =>
    rw [sum_cons] at room
    rw [sectorLoop, Nat.mod_eq_of_lt (by omega)]
    by_cases here : address < totalSize + size
    · rw [if_pos here]
      constructor
      · intro answered
        exact ⟨0, Nat.zero_le _, (Option.some.inj answered).symm, by simpa using above, by simpa using here⟩
      · rintro ⟨passed, _, same, after, _⟩
        match passed with
        | 0 => rw [same]; rfl
        | passed + 1 =>
          rw [take_succ_cons, sum_cons] at after
          omega
    · rw [if_neg here, ih (by omega) (by omega)]
      constructor
      · rintro ⟨passed, within, same, after, before⟩
        refine ⟨passed + 1, by simpa using within, by omega, ?_, ?_⟩
        · rw [take_succ_cons, sum_cons]
          omega
        · rw [take_succ_cons, sum_cons, getD_cons_succ]
          omega
      · rintro ⟨passed, within, same, after, before⟩
        match passed with
        | 0 =>
          simp only [take_zero, sum_nil, Nat.add_zero, getD_cons_zero] at before
          omega
        | passed + 1 =>
          rw [take_succ_cons, sum_cons] at after before
          rw [getD_cons_succ] at before
          exact ⟨passed, by simpa using within, by omega, by omega, by omega⟩

namespace Master

variable {master : Master}

theorem length_sizes (master : Master) : master.sizes.length = master.numberOfSectors := by
  cases master with
  | homogeneous numberOfSectors size => exact length_replicate
  | heterogeneous sectors => rfl

variable {sector address : Nat}

theorem start_homogeneous {numberOfSectors size : Nat} (within : sector ≤ numberOfSectors) :
    (homogeneous numberOfSectors size).start sector = sector * size := by
  simp [start, sizes, Nat.min_eq_left within]

theorem start_le (master : Master) (sector : Nat) : master.start sector ≤ master.sizes.sum := by
  have parts := congrArg List.sum (take_append_drop sector master.sizes)
  rw [sum_append] at parts
  rw [start]
  omega

theorem start_succ (within : sector < master.numberOfSectors) :
    master.start (sector + 1) = master.start sector + master.reach sector := by
  cases master with
  | homogeneous numberOfSectors size =>
    have less : sector < numberOfSectors := within
    rw [start_homogeneous less, start_homogeneous (Nat.le_of_lt less), reach, Nat.succ_mul]
  | heterogeneous sectors =>
    have present : sector < sectors.length := within
    rw [start, start, sizes, reach, getD_eq_getElem _ _ present, sum_take_succ _ _ present]

theorem start_reach_le {first second : Nat} (less : first < second)
    (within : second ≤ master.numberOfSectors) :
    master.start first + master.reach first ≤ master.start second := by
  induction second with
  | zero => omega
  | succ second ih =>
    have last := start_succ (show second < master.numberOfSectors by omega)
    by_cases same : first = second
    · rw [same, last]
    · have before := ih (by omega) (by omega)
      omega

theorem reach_pos (well : master.WellFormed bits) (sectors : 0 < master.numberOfSectors)
    (sector : Nat) : 0 < master.reach sector := by
  cases master with
  | homogeneous numberOfSectors size =>
    exact well.nonempty size (mem_replicate.mpr ⟨Nat.ne_of_gt sectors, rfl⟩)
  | heterogeneous sizes =>
    rw [reach]
    by_cases present : sector < sizes.length
    · rw [getD_eq_getElem _ _ present]
      exact well.nonempty _ (getElem_mem present)
    · rw [getD_eq_default _ _ (Nat.le_of_not_lt present)]
      exact Nat.one_pos

theorem numberOfSectors_lt (well : master.WellFormed bits) : master.numberOfSectors < 2 ^ bits := by
  rw [← length_sizes]
  exact Nat.lt_of_le_of_lt (length_le_sum_of_one_le _ well.nonempty) well.representable

theorem addressOfSector_iff (well : master.WellFormed bits) :
    master.addressOfSector bits sector = some address ↔
      sector < master.numberOfSectors ∧ address = master.start sector := by
  have room := Nat.lt_of_le_of_lt (master.start_le sector) well.representable
  cases master with
  | homogeneous numberOfSectors size =>
    rw [addressOfSector]
    by_cases within : sector < numberOfSectors
    · rw [start_homogeneous (Nat.le_of_lt within)] at room ⊢
      rw [if_pos within, Nat.mod_eq_of_lt room, Option.some.injEq]
      exact ⟨fun same => ⟨within, same.symm⟩, fun ⟨_, same⟩ => same.symm⟩
    · rw [if_neg within]
      exact ⟨fun none => Bool.noConfusion (congrArg Option.isSome none), fun ⟨less, _⟩ => absurd less within⟩
  | heterogeneous sectors =>
    rw [addressOfSector, addressLoop, addressLoop_from _ 0 (by simpa [start, sizes] using room)]
    by_cases within : sector < sectors.length
    · rw [if_pos within, Option.some.injEq, Nat.zero_add]
      exact ⟨fun same => ⟨within, same.symm⟩, fun ⟨_, same⟩ => same.symm⟩
    · rw [if_neg within]
      exact ⟨fun none => Bool.noConfusion (congrArg Option.isSome none), fun ⟨less, _⟩ => absurd less within⟩

theorem sectorOfAddress_iff (well : master.WellFormed bits) :
    master.sectorOfAddress bits address = some sector ↔
      sector ≤ master.numberOfSectors ∧ master.start sector ≤ address ∧
        address < master.start sector + master.reach sector := by
  cases master with
  | homogeneous numberOfSectors size =>
    rw [sectorOfAddress]
    by_cases empty : size = 0
    · rw [if_pos empty]
      refine iff_of_false (fun none => Bool.noConfusion (congrArg Option.isSome none)) ?_
      rintro ⟨within, after, before⟩
      rw [reach] at before
      omega
    · rw [if_neg empty]
      have quotient : address / size = sector ↔ sector * size ≤ address ∧ address < sector * size + size := by
        rw [Nat.div_eq_iff (by omega)]
        omega
      by_cases within : sector ≤ numberOfSectors
      · rw [start_homogeneous within, reach, ← quotient]
        constructor
        · intro answered
          dsimp only at answered
          split at answered
          · exact ⟨within, Option.some.inj answered⟩
          · exact Bool.noConfusion (congrArg Option.isSome answered)
        · rintro ⟨_, same⟩
          rw [same, if_pos within]
      · refine iff_of_false ?_ (fun parts => within parts.1)
        intro answered
        dsimp only at answered
        split at answered
        · next inside =>
            rw [Option.some.inj answered] at inside
            exact within inside
        · exact Bool.noConfusion (congrArg Option.isSome answered)
  | heterogeneous sectors =>
    have room : 0 + sectors.sum < 2 ^ bits := by
      rw [Nat.zero_add]
      exact well.representable
    rw [sectorOfAddress, sectorLoop_iff sectors room (Nat.zero_le address)]
    simp only [Nat.zero_add]
    constructor
    · rintro ⟨passed, within, same, after, before⟩
      rw [same]
      exact ⟨within, after, before⟩
    · rintro ⟨within, after, before⟩
      exact ⟨sector, within, rfl, after, before⟩

theorem exists_sector {last : Nat} (within : last ≤ master.numberOfSectors)
    (before : address < master.start last + master.reach last) :
    ∃ sector ≤ last, master.start sector ≤ address ∧
      address < master.start sector + master.reach sector := by
  induction last with
  | zero => exact ⟨0, Nat.le_refl 0, Nat.zero_le _, before⟩
  | succ last ih =>
    by_cases here : master.start (last + 1) ≤ address
    · exact ⟨last + 1, Nat.le_refl _, here, before⟩
    · rw [start_succ within] at here
      have ⟨sector, below, parts⟩ := ih (by omega) (by omega)
      exact ⟨sector, by omega, parts⟩

end Master

/-! ### What a region confines -/

section

variable {master : Master} {startSector numberOfSectors : Nat} {region : FlashRegion}

/-- The region of these sectors. -/
def regionOf (master : Master) (startSector numberOfSectors : Nat) : FlashRegion :=
  ⟨master, startSector, numberOfSectors, master.start startSector⟩

theorem construct_eq (well : master.WellFormed bits)
    (constructed : construct bits master startSector numberOfSectors = some region) :
    region = regionOf master startSector numberOfSectors ∧
      startSector < master.numberOfSectors ∧
      (startSector + numberOfSectors) % 2 ^ bits ≤ master.numberOfSectors := by
  rw [construct] at constructed
  match address : master.addressOfSector bits startSector with
  | none => simp [address] at constructed
  | some masterAddressOfStartSector =>
    have ⟨within, same⟩ := (Master.addressOfSector_iff well).mp address
    rw [address] at constructed
    dsimp only at constructed
    split at constructed
    · next fits => exact ⟨by rw [← Option.some.inj constructed, same, regionOf], within, fits⟩
    · exact Bool.noConfusion (congrArg Option.isSome constructed)

variable {address : Nat}

theorem sectorOfAddress_eq_some (well : master.WellFormed bits)
    (within : startSector + numberOfSectors ≤ master.numberOfSectors) {sector : Nat}
    (below : sector ≤ numberOfSectors) :
    (regionOf master startSector numberOfSectors).sectorOfAddress bits address = some sector ↔
      master.sectorOfAddress bits ((master.start startSector + address) % 2 ^ bits) =
        some (startSector + sector) := by
  have few := Master.numberOfSectors_lt well
  rw [FlashRegion.sectorOfAddress, regionOf, Option.map_eq_some_iff]
  dsimp only
  constructor
  · intro ⟨found, answered, same⟩
    have bound := ((Master.sectorOfAddress_iff well).mp answered).1
    have equal : found = startSector + sector := by
      by_cases wraps : found < startSector
      · rw [Nat.mod_eq_of_lt (by omega)] at same
        omega
      · have shift : found + 2 ^ bits - startSector = found - startSector + 2 ^ bits := by omega
        rw [shift, Nat.add_mod_right, Nat.mod_eq_of_lt (by omega)] at same
        omega
    rw [answered, equal]
  · intro answered
    refine ⟨_, answered, ?_⟩
    have shift : startSector + sector + 2 ^ bits - startSector = sector + 2 ^ bits := by omega
    rw [shift, Nat.add_mod_right, Nat.mod_eq_of_lt (by omega)]

theorem accepted_by_sector :
    (regionOf master startSector numberOfSectors).accepts bits address ↔
      ∃ sector ≤ numberOfSectors, (regionOf master startSector numberOfSectors).sectorOfAddress bits
        address = some sector := by
  rw [FlashRegion.accepts]
  split
  · next none => simp [none]
  · next sector found =>
      have number : (regionOf master startSector numberOfSectors).numberOfSectors =
          numberOfSectors := rfl
      simp [found, number]

theorem accepted_iff (well : master.WellFormed bits)
    (within : startSector + numberOfSectors ≤ master.numberOfSectors) :
    (regionOf master startSector numberOfSectors).accepts bits address ↔
      master.start startSector ≤ (master.start startSector + address) % 2 ^ bits ∧
        (master.start startSector + address) % 2 ^ bits <
          master.start (startSector + numberOfSectors) +
            master.reach (startSector + numberOfSectors) := by
  rw [accepted_by_sector]
  generalize first : (master.start startSector + address) % 2 ^ bits = place
  constructor
  · intro ⟨sector, below, found⟩
    rw [sectorOfAddress_eq_some well within below, first, Master.sectorOfAddress_iff well] at found
    have ⟨bound, after, before⟩ := found
    constructor
    · cases Nat.eq_zero_or_pos sector with
      | inl zero => rwa [zero] at after
      | inr positive =>
        have less := Master.start_reach_le (show startSector < startSector + sector by omega) bound
        omega
    · cases Nat.eq_or_lt_of_le below with
      | inl same => rwa [← same]
      | inr less =>
        have below := Master.start_reach_le
          (show startSector + sector < startSector + numberOfSectors by omega) within
        omega
  · intro ⟨after, before⟩
    have ⟨sector, below, inside⟩ := Master.exists_sector within before
    have above : startSector ≤ sector := by
      by_contra less
      have end_le := Master.start_reach_le (Nat.lt_of_not_le less)
        (show startSector ≤ master.numberOfSectors by omega)
      omega
    have shifted : startSector + (sector - startSector) = sector := by omega
    refine ⟨sector - startSector, by omega, ?_⟩
    rw [sectorOfAddress_eq_some well within (by omega), first, Master.sectorOfAddress_iff well, shifted]
    exact ⟨by omega, inside⟩

theorem addressOfSector_iff (well : master.WellFormed bits)
    (within : startSector + numberOfSectors ≤ master.numberOfSectors) {sector offset : Nat}
    (below : sector ≤ numberOfSectors) :
    (regionOf master startSector numberOfSectors).addressOfSector bits sector = some offset ↔
      master.addressOfSector bits (startSector + sector) =
        some (master.start startSector + offset) := by
  have few := Master.numberOfSectors_lt well
  have sum : (sector + startSector) % 2 ^ bits = startSector + sector := by
    rw [Nat.mod_eq_of_lt (by omega), Nat.add_comm]
  have total := well.representable
  rw [FlashRegion.addressOfSector, regionOf, Option.map_eq_some_iff]
  dsimp only
  rw [sum]
  constructor
  · intro ⟨address, answered, same⟩
    have ⟨_, place⟩ := (Master.addressOfSector_iff well).mp answered
    have above : master.start startSector ≤ address := by
      rw [place]
      cases Nat.eq_zero_or_pos sector with
      | inl zero => rw [zero, Nat.add_zero]
      | inr positive =>
        have less := Master.start_reach_le (show startSector < startSector + sector by omega)
          (show startSector + sector ≤ master.numberOfSectors by omega)
        omega
    have bound : address ≤ master.sizes.sum := place ▸ master.start_le _
    have shift : address + 2 ^ bits - master.start startSector =
        address - master.start startSector + 2 ^ bits := by omega
    rw [shift, Nat.add_mod_right, Nat.mod_eq_of_lt (by omega)] at same
    rw [answered]
    congr 1
    omega
  · intro answered
    have ⟨_, place⟩ := (Master.addressOfSector_iff well).mp answered
    have bound : master.start startSector + offset ≤ master.sizes.sum := place ▸ master.start_le _
    refine ⟨_, answered, ?_⟩
    have shift : master.start startSector + offset + 2 ^ bits - master.start startSector =
        offset + 2 ^ bits := by omega
    rw [shift, Nat.add_mod_right, Nat.mod_eq_of_lt (by omega)]

theorem end_eq (first address size : Nat) :
    (first + (address + size) % 2 ^ bits) % 2 ^ bits =
      ((first + address) % 2 ^ bits + size) % 2 ^ bits := by
  rw [Nat.add_mod_mod, Nat.mod_add_mod, Nat.add_assoc]

theorem writeBuffer_iff {buffer : Bytes} {access : Access} :
    (regionOf master startSector numberOfSectors).writeBuffer bits buffer address = some access ↔
      access = ⟨(master.start startSector + address) % 2 ^ bits, buffer.length⟩ ∧
        ((regionOf master startSector numberOfSectors).accepts bits address ∧
          (regionOf master startSector numberOfSectors).accepts bits
            ((address + buffer.length) % 2 ^ bits)) := by
  rw [FlashRegion.writeBuffer, Nat.add_comm address (regionOf _ _ _).masterAddressOfStartSector,
    ← Bool.and_eq_true]
  split
  · next accepted =>
      rw [and_iff_left accepted, Option.some.injEq]
      exact eq_comm
  · next refused =>
      exact iff_of_false (fun none => Bool.noConfusion (congrArg Option.isSome none))
        (fun parts => refused parts.2)

theorem inside_iff (well : master.WellFormed bits)
    (within : startSector + numberOfSectors ≤ master.numberOfSectors) (buffer : Bytes)
    (address : Nat) :
    (∀ access, (regionOf master startSector numberOfSectors).writeBuffer bits buffer address =
        some access → Inside (regionOf master startSector numberOfSectors) access) ↔
      ¬Strays bits master startSector numberOfSectors address buffer.length := by
  simp only [writeBuffer_iff, accepted_iff well within, end_eq]
  rw [Strays]
  constructor
  · intro inside ⟨_, beyond, starts, ends⟩
    cases inside _ ⟨rfl, starts, ends⟩ with
    | inl none =>
      dsimp only at none
      omega
    | inr inside =>
      have last : (master.start startSector + address) % 2 ^ bits + buffer.length ≤
          master.start (startSector + numberOfSectors) := inside.2
      omega
  · intro stays access ⟨same, starts, ends⟩
    subst same
    by_cases none : buffer.length = 0
    · exact Or.inl none
    · have behind : ¬master.start (startSector + numberOfSectors) <
          (master.start startSector + address) % 2 ^ bits + buffer.length :=
        fun beyond => stays ⟨Nat.pos_of_ne_zero none, beyond, starts, ends⟩
      exact Or.inr ⟨starts.1, Nat.le_of_not_lt behind⟩

theorem writeBuffer_within (well : master.WellFormed bits)
    (within : startSector + numberOfSectors ≤ master.numberOfSectors)
    (sectors : 0 < master.numberOfSectors) {buffer : Bytes} {offset : Nat}
    (fits : master.start startSector + offset + buffer.length ≤
      master.start (startSector + numberOfSectors)) :
    (regionOf master startSector numberOfSectors).writeBuffer bits buffer offset =
      some ⟨master.start startSector + offset, buffer.length⟩ := by
  have bound := Nat.lt_of_le_of_lt (master.start_le (startSector + numberOfSectors)) well.representable
  have reach := Master.reach_pos well sectors (startSector + numberOfSectors)
  have starts : (master.start startSector + offset) % 2 ^ bits = master.start startSector + offset :=
    Nat.mod_eq_of_lt (by omega)
  rw [writeBuffer_iff, accepted_iff well within, accepted_iff well within, end_eq, starts,
    Nat.mod_eq_of_lt (a := _ + _ + buffer.length) (by omega)]
  exact ⟨rfl, ⟨by omega, by omega⟩, by omega, by omega⟩

/-- A region keeps an access inside its sectors exactly if the access does not go on in the
sector behind it. -/
theorem confines_iff (well : master.WellFormed bits)
    (constructed : construct bits master startSector numberOfSectors = some region)
    (buffer : Bytes) (address : Nat) :
    Confines bits region buffer address ↔
      startSector + numberOfSectors < 2 ^ bits ∧
        ¬Strays bits master startSector numberOfSectors address buffer.length := by
  have ⟨same, present, fits⟩ := construct_eq well constructed
  have few := Master.numberOfSectors_lt well
  subst same
  constructor
  · intro confines
    have small : startSector + numberOfSectors < 2 ^ bits := by
      have all := confines.erases 0 numberOfSectors _ (if_pos ⟨Nat.zero_le _, Nat.le_refl _⟩)
      have last : (numberOfSectors + startSector) % 2 ^ bits = startSector + numberOfSectors :=
        congrArg Prod.snd all.1
      rw [← last]
      exact Nat.mod_lt _ (Nat.two_pow_pos bits)
    rw [Nat.mod_eq_of_lt small] at fits
    exact ⟨small, (inside_iff well fits buffer address).mp confines.writes⟩
  · intro ⟨small, stays⟩
    rw [Nat.mod_eq_of_lt small] at fits
    have inside := (inside_iff well fits buffer address).mpr stays
    refine ⟨inside, inside, ?_, ?_, ?_, ?_⟩
    · intro beginIndex endIndex sectors erased
      rw [FlashRegion.eraseSectors] at erased
      split at erased
      · next accepted =>
          have first : beginIndex ≤ numberOfSectors := accepted.1
          have last : endIndex ≤ numberOfSectors := accepted.2
          rw [← Option.some.inj erased]
          dsimp only [regionOf]
          rw [Nat.mod_eq_of_lt (by omega), Nat.mod_eq_of_lt (by omega), Nat.add_comm beginIndex,
            Nat.add_comm endIndex]
          exact ⟨rfl, Nat.add_le_add_left first _, Nat.add_le_add_left last _⟩
      · exact Bool.noConfusion (congrArg Option.isSome erased)
    · intro inner offset room
      have passed := writeBuffer_within well fits (Nat.zero_lt_of_lt present) room
      exact ⟨passed, passed⟩
    · intro sector below offset
      exact addressOfSector_iff well fits below
    · intro offset room sector
      have room : master.start startSector + offset ≤
          master.start (startSector + numberOfSectors) := room
      have bound := Nat.lt_of_le_of_lt (master.start_le (startSector + numberOfSectors))
        well.representable
      have reach := Master.reach_pos well (Nat.zero_lt_of_lt present) (startSector + numberOfSectors)
      have place : (master.start startSector + offset) % 2 ^ bits =
          master.start startSector + offset := Nat.mod_eq_of_lt (by omega)
      have accepted := (accepted_iff well fits).mpr
        (show _ by rw [place]; exact ⟨Nat.le_add_right _ _, by omega⟩)
      have ⟨found, below, answered⟩ := accepted_by_sector.mp accepted
      have master_answered := (sectorOfAddress_eq_some well fits below).mp answered
      rw [place] at master_answered
      rw [answered]
      dsimp only [regionOf]
      rw [master_answered, Option.some.injEq, Option.some.injEq]
      exact ⟨fun same => by rw [same], fun same => Nat.add_left_cancel same⟩

end

/-- The second one of four sectors of 4 bytes, and an access to its last byte. -/
theorem confines_iff_second :
    Confines 32 (regionOf (.homogeneous 4 4) 1 1) [1] 3 ↔
      1 + 1 < 2 ^ 32 ∧ ¬Strays 32 (.homogeneous 4 4) 1 1 3 1 :=
  confines_iff ⟨by decide, by decide⟩ rfl [1] 3

/-- Two of the three bytes are written in the sector behind the region. -/
theorem not_confines_second : ¬Confines 32 (regionOf (.homogeneous 4 4) 1 1) [1, 2, 3] 3 := by
  intro confines
  have inside := confines.writes ⟨7, 3⟩ (by decide)
  simp [Inside, regionOf, Master.start, Master.sizes] at inside

end FlashRegions
