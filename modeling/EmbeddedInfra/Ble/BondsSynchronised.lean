import EmbeddedInfra.Ble.BondStorage

/-! When two bond storages stay synchronised. -/

namespace Ble

open List

/-! ### Bonds in the order in which they were made -/

/-- What a bond storage is for: the latest bonds, no more than fit. -/
structure Bonds where
  addresses : List MacAddress
  max : Nat
  fits : addresses.length ≤ max

namespace Bonds

/-- A new bond takes the place of the oldest one where there is no room. -/
def update (address : MacAddress) (b : Bonds) : Option Bonds :=
  if address ∈ b.addresses then some b
  else if room : b.addresses.length < b.max then
    some
      { addresses := b.addresses ++ [address]
        max := b.max
        fits := by rw [length_append, length_singleton]; omega }
  else
    match found : b.addresses with
    | [] => none
    | oldest :: rest =>
      some
        { addresses := rest ++ [address]
          max := b.max
          fits := by
            have := b.fits
            rw [found, length_cons] at this
            rw [length_append, length_singleton]
            omega }

def removeIf (onAddress : MacAddress → Bool) (b : Bonds) : Bonds where
  addresses := b.addresses.filter fun address => !onAddress address
  max := b.max
  fits := (length_filter_le _ _).trans b.fits

variable {address : MacAddress} {b : Bonds}

theorem update_stored (stored : address ∈ b.addresses) :
    b.update address = some b := if_pos stored

theorem update_room (new : address ∉ b.addresses) (room : b.addresses.length < b.max) :
    ∃ c, b.update address = some c ∧ c.addresses = b.addresses ++ [address] ∧ c.max = b.max := by
  rw [update, if_neg new, dif_pos room]
  exact ⟨_, rfl, rfl, rfl⟩

theorem update_full {oldest : MacAddress} {rest : List MacAddress} (new : address ∉ b.addresses)
    (full : b.max ≤ b.addresses.length) (order : b.addresses = oldest :: rest) :
    ∃ c, b.update address = some c ∧ c.addresses = rest ++ [address] ∧ c.max = b.max := by
  obtain ⟨addresses, max, fits⟩ := b
  cases order
  rw [update, if_neg new, dif_neg (Nat.not_lt.mpr full)]
  exact ⟨_, rfl, rfl, rfl⟩

theorem update_none (empty : b.addresses = []) (full : b.max ≤ b.addresses.length) :
    b.update address = none := by
  obtain ⟨addresses, max, fits⟩ := b
  cases empty
  rw [update, if_neg not_mem_nil, dif_neg (Nat.not_lt.mpr full)]

theorem update_max {c : Bonds} (updated : b.update address = some c) : c.max = b.max := by
  obtain ⟨addresses, max, fits⟩ := b
  rw [update] at updated
  split at updated
  · cases updated
    rfl
  · split at updated
    · cases updated
      rfl
    · cases addresses with
      | nil => cases updated
      | cons oldest rest =>
        cases updated
        rfl

end Bonds

/-! ### The storages hold bonds -/

theorem MacAddress.ofBytes_bytes (address : MacAddress) (rest : Bytes) :
    MacAddress.ofBytes ((address.bytes ++ rest).take addressSize) = address := by
  obtain ⟨bytes, size⟩ := address
  simp [MacAddress.ofBytes, ← size]

namespace PersistentBondStorage

variable (addresses front : List MacAddress)

def joined : Bytes := addresses.flatMap MacAddress.bytes

theorem length_joined : (joined addresses).length = addresses.length * addressSize := by
  induction addresses with
  | nil => rfl
  | cons address addresses ih =>
    have := address.size
    simp only [joined, flatMap_cons, length_append, length_cons] at ih ⊢
    rw [ih, address.size, Nat.succ_mul, Nat.add_comm]

theorem numberOfBonds_joined : numberOfBonds (joined addresses) = addresses.length := by
  rw [numberOfBonds, length_joined]
  exact Nat.mul_div_cancel _ (by decide)

theorem drop_joined (back : List MacAddress) :
    (joined (front ++ back)).drop (front.length * addressSize) = joined back := by
  rw [joined, flatMap_append, ← length_joined]
  exact drop_left

theorem take_joined (back : List MacAddress) :
    (joined (front ++ back)).take (front.length * addressSize) = joined front := by
  rw [joined, flatMap_append, ← length_joined]
  exact take_left

theorem addressAt_joined (address : MacAddress) (back : List MacAddress) :
    addressAt (joined (front ++ address :: back)) front.length = address := by
  rw [addressAt, drop_joined]
  exact address.ofBytes_bytes _

theorem eraseAt_joined (address : MacAddress) (back : List MacAddress) :
    eraseAt (joined (front ++ address :: back)) front.length = joined (front ++ back) := by
  have rest : (joined (front ++ address :: back)).drop
      (front.length * addressSize + addressSize) = joined back := by
    have := drop_joined (front ++ [address]) back
    rwa [append_assoc, length_append, length_singleton, Nat.succ_mul] at this
  rw [eraseAt, take_joined, rest, joined, joined, joined, flatMap_append]

theorem bondedDevices_joined : bondedDevices (joined addresses) = addresses := by
  apply ext_getElem
  · simp [bondedDevices, numberOfBonds_joined]
  · intro index inside inside'
    have split : addresses = addresses.take index ++ addresses[index] :: addresses.drop (index + 1) := by
      rw [← drop_eq_getElem_cons, take_append_drop]
    have length : (addresses.take index).length = index := by
      rw [length_take]
      omega
    have found := addressAt_joined (addresses.take index) addresses[index]
      (addresses.drop (index + 1))
    rw [← split, length] at found
    simpa [bondedDevices] using found

theorem removeLoop_joined (onAddress : MacAddress → Bool) (front back : List MacAddress) :
    removeLoop onAddress back.length front.length (joined (front ++ back)) =
      joined (front ++ back.filter fun address => !onAddress address) := by
  induction back generalizing front with
  | nil => rfl
  | cons address back ih =>
    rw [length_cons, removeLoop, addressAt_joined, eraseAt_joined]
    cases removed : onAddress address with
    | true =>
      rw [if_pos rfl, ih front, filter_cons_of_neg (by simp [removed])]
    | false =>
      have next := ih (front ++ [address])
      rw [length_append, length_singleton, append_assoc] at next
      rw [if_neg Bool.false_ne_true, filter_cons_of_pos (by simp [removed])]
      simpa using next

/-- The storage holds the bonds. -/
def Holds (s : PersistentBondStorage) (b : Bonds) : Prop :=
  s.storage = joined b.addresses ∧ s.getMaxNumberOfBonds = b.max

variable {s : PersistentBondStorage} {b : Bonds}

theorem isBondStored_iff (holds : Holds s b) (address : MacAddress) :
    s.isBondStored address = decide (address ∈ b.addresses) := by
  have devices := bondedDevices_joined b.addresses
  rw [← holds.1, bondedDevices] at devices
  rw [isBondStored, Bool.eq_iff_iff, decide_eq_true_iff, ← devices, mem_map, any_eq_true]
  simp only [decide_eq_true_eq]

theorem holds_insert {addresses : List MacAddress} {address : MacAddress} {c : Bonds}
    (next : c.addresses = addresses ++ [address]) (max : s.getMaxNumberOfBonds = c.max) :
    ∃ s', updateBondedDevice.insert address s (joined addresses) = some s' ∧ Holds s' c := by
  have joins : joined addresses ++ address.bytes = joined c.addresses := by
    simp [joined, next]
  have room : (joined addresses ++ address.bytes).length ≤ s.maxSize := by
    have fits := c.fits
    have : s.maxSize / addressSize * addressSize ≤ s.maxSize := Nat.div_mul_le_self _ _
    have := Nat.mul_le_mul_right addressSize fits
    rw [joins, length_joined]
    rw [← max, getMaxNumberOfBonds] at this
    omega
  rw [updateBondedDevice.insert, dif_pos room]
  exact ⟨_, rfl, joins, max⟩

theorem holds_update (holds : Holds s b) (address : MacAddress) :
    Option.Rel Holds (s.updateBondedDevice address) (b.update address) := by
  have stored := isBondStored_iff holds address
  have number : numberOfBonds s.storage = b.addresses.length := by
    rw [holds.1, numberOfBonds_joined]
  have fits := b.fits
  rw [updateBondedDevice, stored, number, holds.2]
  by_cases new : address ∈ b.addresses
  · rw [if_pos (decide_eq_true new), Bonds.update_stored new]
    exact .some holds
  · rw [if_neg (by simpa using new)]
    split
    next full =>
      cases order : b.addresses with
      | nil =>
        have short : s.storage.length < addressSize := by
          rw [holds.1, order]
          decide
        rw [if_pos short, Bonds.update_none order full.ge]
        exact .none
      | cons oldest rest =>
        have long : ¬ s.storage.length < addressSize := by
          rw [holds.1, length_joined, order, length_cons, Nat.succ_mul]
          omega
        have erased : eraseAt s.storage 0 = joined rest := by
          rw [holds.1, order]
          exact eraseAt_joined [] oldest rest
        obtain ⟨c, updated, next, max⟩ := Bonds.update_full new full.ge order
        obtain ⟨s', inserted, holds'⟩ := holds_insert (s := s) next (holds.2.trans max.symm)
        rw [if_neg long, erased, inserted, updated]
        exact .some holds'
    next open_ =>
      obtain ⟨c, updated, next, max⟩ := Bonds.update_room new (by omega)
      obtain ⟨s', inserted, holds'⟩ := holds_insert (s := s) next (holds.2.trans max.symm)
      rw [holds.1, inserted, updated]
      exact .some holds'

theorem holds_removeIf (holds : Holds s b) (onAddress : MacAddress → Bool) :
    Holds (s.removeBondIf onAddress) (b.removeIf onAddress) := by
  have removed := removeLoop_joined onAddress [] b.addresses
  apply And.intro _ holds.2
  calc
    (s.removeBondIf onAddress).storage =
        removeLoop onAddress (numberOfBonds s.storage) 0 s.storage := rfl
    _ = joined (b.removeIf onAddress).addresses := by
      rw [holds.1, numberOfBonds_joined]
      exact removed

theorem joined_bondedDevices (n : Nat) (storage : Bytes) (length : storage.length = n * addressSize) :
    joined ((List.range n).map (addressAt storage)) = storage := by
  induction n generalizing storage with
  | zero =>
    rw [Nat.zero_mul] at length
    exact (eq_nil_of_length_eq_zero length).symm
  | succ n ih =>
    rw [Nat.succ_mul] at length
    have rest := ih (storage.drop addressSize) (by rw [length_drop]; omega)
    have first : (addressAt storage 0).bytes = storage.take addressSize := by
      have short : (storage.take addressSize).length = addressSize := by
        rw [length_take]
        omega
      rw [addressAt, MacAddress.ofBytes, Nat.zero_mul, drop_zero]
      exact take_left' short
    have later : ∀ index, addressAt storage (index + 1) =
        addressAt (storage.drop addressSize) index := by
      intro index
      rw [addressAt, addressAt, drop_drop, Nat.succ_mul, Nat.add_comm]
    rw [range_succ_eq_map, map_cons, List.map_map]
    calc
      _ = (addressAt storage 0).bytes ++
          joined ((List.range n).map (addressAt (storage.drop addressSize))) := by
        simp only [joined, flatMap_cons, Function.comp_def, Nat.succ_eq_add_one, later]
      _ = storage := by
        rw [first, rest, take_append_drop]

theorem holds_construct (s : PersistentBondStorage) : ∃ b, Holds s.construct b := by
  have length : s.construct.storage.length = numberOfBonds s.storage * addressSize := by
    have : s.storage.length / addressSize * addressSize ≤ s.storage.length :=
      Nat.div_mul_le_self _ _
    rw [construct, length_take, numberOfBonds]
    omega
  have joins := joined_bondedDevices _ _ length
  have fits : numberOfBonds s.storage ≤ s.construct.getMaxNumberOfBonds :=
    Nat.div_le_div_right s.fits
  exact ⟨⟨_, s.construct.getMaxNumberOfBonds, by simpa using fits⟩, joins.symm, rfl⟩

end PersistentBondStorage

namespace AnyBondStorage

def Holds : AnyBondStorage → Bonds → Prop
  | persistent s, b => s.Holds b
  | volatile s, b => s.addresses = b.addresses ∧ s.maxSize = b.max

variable {s : AnyBondStorage} {b : Bonds}

theorem holds_construct (s : AnyBondStorage) : ∃ b, Holds s.construct b := by
  cases s with
  | persistent s => exact s.holds_construct
  | volatile s => exact ⟨⟨s.addresses, s.maxSize, s.fits⟩, rfl, rfl⟩

theorem bondedDevices_eq (holds : Holds s b) : bondStorage.bondedDevices s = b.addresses := by
  cases s with
  | persistent s =>
    calc
      _ = PersistentBondStorage.bondedDevices (PersistentBondStorage.joined b.addresses) := by
        rw [← holds.1]
        rfl
      _ = _ := PersistentBondStorage.bondedDevices_joined b.addresses
  | volatile s => exact holds.1

theorem getMaxNumberOfBonds_eq (holds : Holds s b) : bondStorage.getMaxNumberOfBonds s = b.max := by
  cases s with
  | persistent s | volatile s => exact holds.2

theorem isBondStored_eq (holds : Holds s b) (address : MacAddress) :
    bondStorage.isBondStored address s = decide (address ∈ b.addresses) := by
  cases s with
  | persistent s => exact s.isBondStored_iff holds address
  | volatile s =>
    have same := holds.1
    simp only [bondStorage, same]

theorem volatile_pushBack {s : VolatileBondStorage} {addresses : List MacAddress}
    {address : MacAddress} {c : Bonds} (next : c.addresses = addresses ++ [address])
    (max : s.maxSize = c.max) :
    ∃ s', VolatileBondStorage.updateBondedDevice.pushBack address s addresses = some s' ∧
      Holds (volatile s') c := by
  have room : (addresses ++ [address]).length ≤ s.maxSize := by
    rw [← next, max]
    exact c.fits
  rw [VolatileBondStorage.updateBondedDevice.pushBack, dif_pos room]
  exact ⟨_, rfl, next.symm, max⟩

theorem holds_update (holds : Holds s b) (address : MacAddress) :
    Option.Rel Holds (bondStorage.updateBondedDevice address s) (b.update address) := by
  cases s with
  | persistent s =>
    have updated := s.holds_update holds address
    simp only [bondStorage]
    generalize s.updateBondedDevice address = result at updated
    generalize b.update address = expected at updated
    cases updated with
    | some holds' => exact .some holds'
    | none => exact .none
  | volatile s =>
    obtain ⟨same, max⟩ := holds
    have fits := b.fits
    simp only [bondStorage, VolatileBondStorage.updateBondedDevice]
    rw [same, max]
    by_cases new : address ∈ b.addresses
    · rw [if_pos new, Bonds.update_stored new]
      exact .some ⟨same, max⟩
    · rw [if_neg new]
      split
      next full =>
        cases order : b.addresses with
        | nil =>
          rw [Bonds.update_none order full.ge]
          exact .none
        | cons oldest rest =>
          obtain ⟨c, updated, next, max'⟩ := Bonds.update_full new full.ge order
          obtain ⟨s', pushed, holds'⟩ := volatile_pushBack (s := s) next (max.trans max'.symm)
          simp only [pushed, updated]
          exact .some holds'
      next open_ =>
        obtain ⟨c, updated, next, max'⟩ := Bonds.update_room new (by omega)
        obtain ⟨s', pushed, holds'⟩ := volatile_pushBack (s := s) next (max.trans max'.symm)
        rw [pushed, updated]
        exact .some holds'

theorem holds_removeIf (holds : Holds s b) (onAddress : MacAddress → Bool) :
    Holds (bondStorage.removeBondIf onAddress s) (b.removeIf onAddress) := by
  cases s with
  | persistent s => exact s.holds_removeIf holds onAddress
  | volatile s =>
    obtain ⟨same, max⟩ := holds
    apply And.intro _ max
    calc
      _ = s.addresses.filter fun address => !onAddress address := rfl
      _ = _ := by
        rw [same]
        rfl

theorem removeBond_eq (address : MacAddress) (s : AnyBondStorage) :
    bondStorage.removeBond address s =
      bondStorage.removeBondIf (fun stored => stored = address) s := by
  cases s <;> rfl

theorem holds_removeAll (holds : Holds s b) :
    Holds (bondStorage.removeAllBonds s) (b.removeIf fun _ => true) := by
  have nothing : (b.removeIf fun _ => true).addresses = [] := by
    simp [Bonds.removeIf]
  cases s with
  | persistent s => exact ⟨by rw [nothing]; rfl, holds.2⟩
  | volatile s => exact ⟨nothing.symm, holds.2⟩

end AnyBondStorage

/-! ### Two storages -/

/-- The same bonds, in any order, and room for no fewer in the other storage. -/
structure InStep (r o : Bonds) : Prop where
  reference : r.addresses.Nodup
  other : o.addresses.Nodup
  same : ∀ address, address ∈ r.addresses ↔ address ∈ o.addresses
  room : r.max ≤ o.max

/-- The device is known, or there is room for it, or it takes the place of the same device in both
storages. -/
def TakesSamePlace (r o : Bonds) (address : MacAddress) : Prop :=
  address ∈ r.addresses ∨ r.addresses.length < r.max ∨
    (o.max = r.max ∧ ∃ oldest, r.addresses.head? = some oldest ∧ o.addresses.head? = some oldest)

namespace InStep

variable {r o : Bonds}

theorem perm (inStep : InStep r o) : r.addresses.Perm o.addresses :=
  (perm_ext_iff_of_nodup inStep.reference inStep.other).mpr inStep.same

theorem removeIf (inStep : InStep r o) (onAddress : MacAddress → Bool) :
    InStep (r.removeIf onAddress) (o.removeIf onAddress) where
  reference := inStep.reference.filter _
  other := inStep.other.filter _
  same := by
    intro address
    simp only [Bonds.removeIf, mem_filter, inStep.same]
  room := inStep.room

variable {address : MacAddress}

theorem nodup_concat {addresses : List MacAddress} (nodup : addresses.Nodup)
    (new : address ∉ addresses) : (addresses ++ [address]).Nodup := by
  rw [nodup_append]
  refine ⟨nodup, nodup_singleton _, ?_⟩
  intro a member b last same
  cases mem_singleton.mp last
  exact new (same ▸ member)

theorem other_new (inStep : InStep r o) (new : address ∉ r.addresses) : address ∉ o.addresses :=
  fun member => new ((inStep.same _).mpr member)

theorem update_room (inStep : InStep r o) (new : address ∉ r.addresses)
    (room : r.addresses.length < r.max) :
    ∃ r' o', r.update address = some r' ∧ o.update address = some o' ∧ InStep r' o' ∧
      address ∈ r'.addresses := by
  have lengths := inStep.perm.length_eq
  have maxima := inStep.room
  obtain ⟨r', updated, next, max⟩ := Bonds.update_room new room
  obtain ⟨o', updated', next', max'⟩ := Bonds.update_room (inStep.other_new new) (by omega)
  refine ⟨r', o', updated, updated', ⟨?_, ?_, ?_, by omega⟩, by simp [next]⟩
  · rw [next]
    exact nodup_concat inStep.reference new
  · rw [next']
    exact nodup_concat inStep.other (inStep.other_new new)
  · intro a
    simp only [next, next', mem_append, inStep.same]

/-- Two full storages take a new device for their oldest one, and stay in step just if that is the
same. -/
theorem update_oldest (inStep : InStep r o) {oldest oldest' : MacAddress}
    {rest rest' : List MacAddress} (new : address ∉ r.addresses) (full : r.max ≤ r.addresses.length)
    (full' : o.max ≤ o.addresses.length) (order : r.addresses = oldest :: rest)
    (order' : o.addresses = oldest' :: rest') :
    ∃ r' o', r.update address = some r' ∧ o.update address = some o' ∧
      address ∈ r'.addresses ∧ (InStep r' o' ↔ oldest = oldest') := by
  obtain ⟨r', updated, next, max⟩ := Bonds.update_full new full order
  obtain ⟨o', updated', next', max'⟩ := Bonds.update_full (inStep.other_new new) full' order'
  have nodup := inStep.reference
  have nodup' := inStep.other
  have same := inStep.same
  have new' := inStep.other_new new
  have maxima := inStep.room
  rw [order] at nodup new same
  rw [order'] at nodup' new' same
  rw [nodup_cons] at nodup nodup'
  simp only [mem_cons, not_or] at new new' same
  refine ⟨r', o', updated, updated', by simp [next], ?_⟩
  constructor
  · intro inStep'
    by_contra different
    have still : oldest ∈ o'.addresses := by
      rw [next', mem_append]
      exact .inl (((same oldest).mp (.inl rfl)).resolve_left different)
    have gone := (inStep'.same oldest).mpr still
    rw [next, mem_append, mem_singleton] at gone
    rcases gone with member | last
    · exact nodup.1 member
    · exact new.1 last.symm
  · intro oldest_eq
    subst oldest_eq
    refine ⟨?_, ?_, ?_, by omega⟩
    · rw [next]
      exact nodup_concat nodup.2 new.2
    · rw [next']
      exact nodup_concat nodup'.2 new'.2
    · intro a
      simp only [next, next', mem_append, mem_singleton]
      by_cases old : a = oldest
      · subst old
        simp only [nodup.1, nodup'.1]
      · have others := same a
        simp only [old, false_or] at others
        rw [others]

theorem update (inStep : InStep r o) (takes : TakesSamePlace r o address) :
    ∃ r' o', r.update address = some r' ∧ o.update address = some o' ∧ InStep r' o' ∧
      address ∈ r'.addresses := by
  by_cases known : address ∈ r.addresses
  · exact ⟨r, o, Bonds.update_stored known, Bonds.update_stored ((inStep.same _).mp known), inStep,
      known⟩
  by_cases room : r.addresses.length < r.max
  · exact inStep.update_room known room
  obtain ⟨maxima, oldest, first, first'⟩ := (takes.resolve_left known).resolve_left room
  have lengths := inStep.perm.length_eq
  obtain ⟨rest, order⟩ := head?_eq_some_iff.mp first
  obtain ⟨rest', order'⟩ := head?_eq_some_iff.mp first'
  obtain ⟨r', o', updated, updated', member, iff⟩ :=
    inStep.update_oldest known (by omega) (by omega) order order'
  exact ⟨r', o', updated, updated', iff.mpr rfl, member⟩

theorem update_parts (inStep : InStep r o) (other : ¬ TakesSamePlace r o address) {r' o' : Bonds}
    (updated : r.update address = some r') (updated' : o.update address = some o') :
    ¬ InStep r' o' := by
  simp only [TakesSamePlace, not_or] at other
  obtain ⟨new, room, apart⟩ := other
  have lengths := inStep.perm.length_eq
  have maxima := inStep.room
  have fits := r.fits
  have fits' := o.fits
  cases order : r.addresses with
  | nil =>
    rw [Bonds.update_none order (by omega)] at updated
    cases updated
  | cons oldest rest =>
    by_cases full' : o.max ≤ o.addresses.length
    · obtain ⟨oldest', rest', order'⟩ : ∃ oldest' rest', o.addresses = oldest' :: rest' := by
        apply exists_cons_of_length_pos
        rw [← lengths, order]
        exact Nat.succ_pos _
      obtain ⟨s, t, first, second, _, iff⟩ :=
        inStep.update_oldest new (by omega) full' order order'
      cases updated.symm.trans first
      cases updated'.symm.trans second
      intro inStep'
      have oldest_eq := iff.mp inStep'
      exact apart ⟨by omega, oldest, by simp [order], by simp [order', oldest_eq]⟩
    · obtain ⟨s, first, next, _⟩ := Bonds.update_full new (by omega) order
      obtain ⟨t, second, next', _⟩ := Bonds.update_room (inStep.other_new new) (by omega)
      cases updated.symm.trans first
      cases updated'.symm.trans second
      intro inStep'
      have lengths' := inStep'.perm.length_eq
      rw [next, next', length_append, length_append, ← lengths, order] at lengths'
      simp only [length_cons] at lengths'
      omega

end InStep

/-! ### Runs -/

abbrev Synchronizer := BondStorageSynchronizer AnyBondStorage AnyBondStorage

namespace Synchronizer

open AnyBondStorage BondStorageSynchronizer

variable {s : Synchronizer} {r o : Bonds}

def Holds (s : Synchronizer) (r o : Bonds) : Prop :=
  s.referenceBondStorage.Holds r ∧ s.otherBondStorage.Holds o

/-- What the constructors and a sequence of calls leave. -/
def run (s : Synchronizer) (operations : List Operation) : Option Synchronizer :=
  BondStorageSynchronizer.run bondStorage bondStorage
    { referenceBondStorage := s.referenceBondStorage.construct
      otherBondStorage := s.otherBondStorage.construct } operations

/-- The device that was updated last, unless it was removed since. -/
def updatedLast : List Operation → Option MacAddress :=
  List.foldl (fun last operation =>
    match operation with
    | .updateBondedDevice address => some address
    | .removeBond address => if last = some address then none else last
    | .removeAllBonds => none) none

/-- Both storages hold the same addresses, each of them once, and no more than the maximum. -/
structure Synchronised (s : Synchronizer) : Prop where
  reference : (bondStorage.bondedDevices s.referenceBondStorage).Nodup
  other : (bondStorage.bondedDevices s.otherBondStorage).Nodup
  same : ∀ address, address ∈ bondStorage.bondedDevices s.referenceBondStorage ↔
    address ∈ bondStorage.bondedDevices s.otherBondStorage
  fits : (bondStorage.bondedDevices s.referenceBondStorage).length ≤
    bondStorage.getMaxNumberOfBonds s.referenceBondStorage

/-- After a sequence of calls the storages are synchronised, and hold the device that was updated
last. -/
def StaySynchronised (s : Synchronizer) (operations : List Operation) : Prop :=
  ∃ t, run s operations = some t ∧ Synchronised t ∧
    ∀ address, updatedLast operations = some address →
      address ∈ bondStorage.bondedDevices t.referenceBondStorage ∧
        address ∈ bondStorage.bondedDevices t.otherBondStorage

/-- The device is stored, or the reference has room for it, or the maxima are equal and the oldest
device is the same. -/
def SamePlace (s : Synchronizer) (address : MacAddress) : Prop :=
  bondStorage.isBondStored address s.referenceBondStorage = true ∨
    (bondStorage.bondedDevices s.referenceBondStorage).length <
      bondStorage.getMaxNumberOfBonds s.referenceBondStorage ∨
    (bondStorage.getMaxNumberOfBonds s.otherBondStorage =
        bondStorage.getMaxNumberOfBonds s.referenceBondStorage ∧
      ∃ oldest, (bondStorage.bondedDevices s.referenceBondStorage).head? = some oldest ∧
        (bondStorage.bondedDevices s.otherBondStorage).head? = some oldest)

theorem samePlace_iff (holds : Holds s r o) (address : MacAddress) :
    SamePlace s address ↔ TakesSamePlace r o address := by
  simp only [SamePlace, TakesSamePlace, isBondStored_eq holds.1, bondedDevices_eq holds.1,
    bondedDevices_eq holds.2, getMaxNumberOfBonds_eq holds.1, getMaxNumberOfBonds_eq holds.2,
    decide_eq_true_eq]

theorem synchronised_iff (holds : Holds s r o) (room : r.max ≤ o.max) :
    Synchronised s ↔ InStep r o := by
  have reference := bondedDevices_eq holds.1
  have other := bondedDevices_eq holds.2
  constructor
  · intro synchronised
    refine ⟨?_, ?_, ?_, room⟩
    · exact reference ▸ synchronised.reference
    · exact other ▸ synchronised.other
    · rw [← reference, ← other]
      exact synchronised.same
  · intro inStep
    refine ⟨?_, ?_, ?_, ?_⟩
    · rw [reference]
      exact inStep.reference
    · rw [other]
      exact inStep.other
    · rw [reference, other]
      exact inStep.same
    · rw [reference, getMaxNumberOfBonds_eq holds.1]
      exact r.fits

/-! ### Construction -/

theorem rel_some {t : AnyBondStorage} {address : MacAddress} {b c : Bonds}
    (holds : t.Holds b) (updated : b.update address = some c) :
    ∃ t', bondStorage.updateBondedDevice address t = some t' ∧ t'.Holds c := by
  have rel := holds_update holds address
  rw [updated] at rel
  generalize bondStorage.updateBondedDevice address t = result at rel ⊢
  cases rel with
  | some holds' => exact ⟨_, rfl, holds'⟩

theorem foldlM_holds (rest : List MacAddress) {t : AnyBondStorage}
    (holds : t.Holds o) (nodup : o.addresses.Nodup) (room : r.max ≤ o.max)
    (known : ∀ address ∈ o.addresses, address ∈ r.addresses)
    (part : ∀ address ∈ rest, address ∈ r.addresses) :
    ∃ t' o', rest.foldlM (fun storage address =>
        if bondStorage.isBondStored address storage then some storage
        else bondStorage.updateBondedDevice address storage) t = some t' ∧
      t'.Holds o' ∧ o'.max = o.max ∧ o'.addresses.Nodup ∧
      ∀ address, address ∈ o'.addresses ↔ address ∈ o.addresses ∨ address ∈ rest := by
  induction rest generalizing t o with
  | nil => exact ⟨t, o, rfl, holds, rfl, nodup, by simp⟩
  | cons address rest ih =>
    have later := fun a member => part a (mem_cons_of_mem _ member)
    rw [foldlM_cons, isBondStored_eq holds]
    by_cases stored : address ∈ o.addresses
    · obtain ⟨t', o', folded, holds', max, nodup', members⟩ := ih holds nodup room known later
      refine ⟨t', o', ?_, holds', max, nodup', ?_⟩
      · rw [if_pos (decide_eq_true stored)]
        exact folded
      · intro a
        rw [members a, mem_cons]
        constructor
        · rintro (member | member)
          · exact .inl member
          · exact .inr (.inr member)
        · rintro (member | same | member)
          · exact .inl member
          · exact .inl (same ▸ stored)
          · exact .inr member
    · have space : o.addresses.length < o.max := by
        have more : (address :: o.addresses).length ≤ r.addresses.length := by
          apply List.Subperm.length_le
          apply (nodup_cons.mpr ⟨stored, nodup⟩).subperm
          intro a member
          rcases mem_cons.mp member with same | old
          · exact same ▸ part address (mem_cons_self ..)
          · exact known a old
        have := r.fits
        rw [length_cons] at more
        omega
      obtain ⟨c, updated, next, max⟩ := Bonds.update_room stored space
      obtain ⟨u, put, holds'⟩ := rel_some holds updated
      obtain ⟨t', o', folded, holds'', max', nodup', members⟩ := ih holds'
        (by rw [next]; exact InStep.nodup_concat nodup stored) (by omega)
        (by
          intro a member
          rw [next, mem_append, mem_singleton] at member
          rcases member with old | same
          · exact known a old
          · exact same ▸ part address (mem_cons_self ..)) later
      refine ⟨t', o', ?_, holds'', by omega, nodup', ?_⟩
      · rw [if_neg (by simpa using stored), put]
        exact folded
      · intro a
        rw [members a, next]
        simp only [mem_append, mem_cons, not_mem_nil, or_false, or_assoc]

theorem construct_inStep (holds : Holds s r o) (reference : r.addresses.Nodup)
    (other : o.addresses.Nodup) (room : r.max ≤ o.max) :
    ∃ t o', BondStorageSynchronizer.construct bondStorage bondStorage s = some t ∧ Holds t r o' ∧ InStep r o' := by
  have stored := isBondStored_eq holds.1
  have kept := holds_removeIf holds.2
    (fun address => !bondStorage.isBondStored address s.referenceBondStorage)
  have members : ∀ address, address ∈ (o.removeIf fun address =>
      !bondStorage.isBondStored address s.referenceBondStorage).addresses ↔
        address ∈ o.addresses ∧ address ∈ r.addresses := by
    intro address
    simp [Bonds.removeIf, stored]
  obtain ⟨t, o', folded, holds', max, nodup, members'⟩ := foldlM_holds r.addresses kept
    (other.filter _) room (fun address member => ((members address).mp member).2)
    (fun address member => member)
  refine ⟨{ s with otherBondStorage := t }, o', ?_, ⟨holds.1, holds'⟩, reference, nodup, ?_, ?_⟩
  · have large : ¬ bondStorage.getMaxNumberOfBonds s.otherBondStorage <
        bondStorage.getMaxNumberOfBonds s.referenceBondStorage := by
      rw [getMaxNumberOfBonds_eq holds.1, getMaxNumberOfBonds_eq holds.2]
      omega
    rw [BondStorageSynchronizer.construct, if_neg large, syncBondStorages, bondedDevices_eq holds.1, folded]
    rfl
  · intro address
    rw [members', members]
    constructor
    · exact .inr
    · intro member
      rcases member with both | member
      · exact both.2
      · exact member
  · rw [max]
    exact room

/-! ### Calls -/

def Good (s : Synchronizer) (operations : List Operation) : Prop :=
  ∃ t r o, run s operations = some t ∧ Holds t r o ∧ InStep r o ∧
    ∀ address, updatedLast operations = some address → address ∈ r.addresses

theorem run_concat (s : Synchronizer) (operations : List Operation) (operation : Operation) :
    run s (operations ++ [operation]) =
      (run s operations).bind fun t => step bondStorage bondStorage t operation := by
  simp only [run, BondStorageSynchronizer.run, foldlM_append]
  generalize BondStorageSynchronizer.construct bondStorage bondStorage _ = constructed
  cases constructed with
  | none => rfl
  | some t =>
    simp only [Option.bind_some, foldlM_cons, foldlM_nil, Option.bind_eq_bind]
    cases operations.foldlM (step bondStorage bondStorage) t with
    | none => rfl
    | some u =>
      simp only [Option.bind_some]
      cases step bondStorage bondStorage u operation <;> rfl

theorem updatedLast_concat (operations : List Operation) (operation : Operation) :
    updatedLast (operations ++ [operation]) =
      match operation with
      | .updateBondedDevice address => some address
      | .removeBond address =>
        if updatedLast operations = some address then none else updatedLast operations
      | .removeAllBonds => none := by
  rw [updatedLast, foldl_append]
  rfl

variable {operations : List Operation}

theorem good_concat (good : Good s operations) (operation : Operation)
    (takes : ∀ address, operation = .updateBondedDevice address → ∀ t, run s operations = some t →
      SamePlace t address) :
    Good s (operations ++ [operation]) := by
  obtain ⟨t, r, o, ran, holds, inStep, last⟩ := good
  cases operation with
  | updateBondedDevice address =>
    have place := (samePlace_iff holds address).mp (takes address rfl t ran)
    obtain ⟨r', o', updated, updated', inStep', member⟩ := inStep.update place
    obtain ⟨t', put, holds'⟩ := rel_some holds.1 updated
    obtain ⟨u', put', holds''⟩ := rel_some holds.2 updated'
    refine ⟨⟨t', u'⟩, r', o', ?_, ⟨holds', holds''⟩, inStep', ?_⟩
    · rw [run_concat, ran, Option.bind_some, step, put, put']
      rfl
    · intro a same
      rw [updatedLast_concat] at same
      cases same
      exact member
  | removeBond address =>
    refine ⟨_, _, _, by rw [run_concat, ran]; rfl,
      ⟨?_, ?_⟩, inStep.removeIf fun stored => stored = address, ?_⟩
    · simp only [removeBond_eq]
      exact holds_removeIf holds.1 _
    · simp only [removeBond_eq]
      exact holds_removeIf holds.2 _
    · intro a same
      rw [updatedLast_concat] at same
      simp only at same
      split at same
      next => cases same
      next other =>
        have different : a ≠ address := fun equal => other (equal ▸ same)
        simp [Bonds.removeIf, last a same, different]
  | removeAllBonds =>
    refine ⟨_, _, _, by rw [run_concat, ran]; rfl,
      ⟨holds_removeAll holds.1, holds_removeAll holds.2⟩, inStep.removeIf fun _ => true, ?_⟩
    intro a same
    rw [updatedLast_concat] at same
    cases same

theorem stay_of_good (good : Good s operations) : StaySynchronised s operations := by
  obtain ⟨t, r, o, ran, holds, inStep, last⟩ := good
  refine ⟨t, ran, (synchronised_iff holds inStep.room).mpr inStep, ?_⟩
  intro address same
  rw [bondedDevices_eq holds.1, bondedDevices_eq holds.2]
  exact ⟨last address same, (inStep.same address).mp (last address same)⟩

theorem samePlace_of_stay (good : Good s operations) {address : MacAddress}
    (stay : StaySynchronised s (operations ++ [.updateBondedDevice address])) {t : Synchronizer}
    (ran : run s operations = some t) : SamePlace t address := by
  obtain ⟨t', r, o, ran', holds, inStep, _⟩ := good
  cases ran.symm.trans ran'
  rw [samePlace_iff holds]
  by_contra other
  obtain ⟨u, ranOn, synchronised, _⟩ := stay
  rw [run_concat, ran, Option.bind_some, step] at ranOn
  have rel := holds_update holds.1 address
  have rel' := holds_update holds.2 address
  generalize bondStorage.updateBondedDevice address t.referenceBondStorage = reference at rel ranOn
  generalize bondStorage.updateBondedDevice address t.otherBondStorage = other' at rel' ranOn
  generalize updated : r.update address = r' at rel
  generalize updated' : o.update address = o' at rel'
  cases rel with
  | none => cases ranOn
  | some holds' =>
    cases rel' with
    | none => cases ranOn
    | some holds'' =>
      cases ranOn
      apply inStep.update_parts other updated updated'
      apply (synchronised_iff ⟨holds', holds''⟩ _).mp synchronised
      rw [Bonds.update_max updated, Bonds.update_max updated']
      exact inStep.room

theorem good_prefixes (first : Good s [])
    (takes : ∀ before address, Good s before →
      before ++ [.updateBondedDevice address] <+: operations → ∀ t, run s before = some t →
      SamePlace t address) (before : List Operation) (part : before <+: operations) :
    Good s before := by
  induction before using List.reverseRecOn with
  | nil => exact first
  | append_singleton before operation ih =>
    have good := ih ((List.prefix_append _ _).trans part)
    apply good_concat good
    intro address same t ran
    exact takes before address good (same ▸ part) t ran

/-- Two storages that hold no address twice stay synchronised just if every new device takes the
same place in both. -/
theorem stay_synchronised_iff (s : Synchronizer)
    (reference : (bondStorage.bondedDevices s.referenceBondStorage.construct).Nodup)
    (other : (bondStorage.bondedDevices s.otherBondStorage.construct).Nodup)
    (room : bondStorage.getMaxNumberOfBonds s.referenceBondStorage.construct ≤
      bondStorage.getMaxNumberOfBonds s.otherBondStorage.construct) (operations : List Operation) :
    (∀ before, before <+: operations → StaySynchronised s before) ↔
      ∀ before address, before ++ [.updateBondedDevice address] <+: operations →
        ∀ t, run s before = some t → SamePlace t address := by
  obtain ⟨r, holds⟩ := holds_construct s.referenceBondStorage
  obtain ⟨o, holds'⟩ := holds_construct s.otherBondStorage
  rw [bondedDevices_eq holds] at reference
  rw [bondedDevices_eq holds'] at other
  rw [getMaxNumberOfBonds_eq holds, getMaxNumberOfBonds_eq holds'] at room
  obtain ⟨t, o', constructed, both, inStep⟩ := construct_inStep
    (s := ⟨s.referenceBondStorage.construct, s.otherBondStorage.construct⟩) ⟨holds, holds'⟩
    reference other room
  have first : Good s [] := by
    refine ⟨t, r, o', ?_, both, inStep, nofun⟩
    rw [run, BondStorageSynchronizer.run, constructed]
    rfl
  constructor
  · intro stay before address part t ran
    have good := good_prefixes first
      (fun before address good part t ran => samePlace_of_stay good (stay _ part) ran)
      before ((List.prefix_append _ _).trans part)
    exact samePlace_of_stay good (stay _ part) ran
  · intro takes before part
    apply stay_of_good
    exact good_prefixes first (fun before address _ part => takes before address part) before part

/-! ### Runs that part, and runs that do not -/

def device (n : UInt8) : MacAddress where
  bytes := [n, 0, 0, 0, 0, 0]
  size := rfl

/-- A persistent storage with room for two addresses, and a volatile one. -/
def twoAndThree (room : Nat) (fits : 2 ≤ room) : Synchronizer where
  referenceBondStorage := .persistent
    { storage := (device 1).bytes ++ (device 2).bytes
      written := none
      maxSize := 12
      fits := by decide }
  otherBondStorage := .volatile
    { addresses := [device 1, device 2], maxSize := room, fits := fits }

def seen (s : Synchronizer) (operations : List Operation) :
    Option ((Nat × List MacAddress) × (Nat × List MacAddress)) :=
  (run s operations).map fun t =>
    ((bondStorage.getMaxNumberOfBonds t.referenceBondStorage,
        bondStorage.bondedDevices t.referenceBondStorage),
      (bondStorage.getMaxNumberOfBonds t.otherBondStorage,
        bondStorage.bondedDevices t.otherBondStorage))

theorem stay_synchronised_twoAndTwo :
    StaySynchronised (twoAndThree 2 (by decide)) [.updateBondedDevice (device 3)] := by
  apply (stay_synchronised_iff (twoAndThree 2 (by decide)) (by decide) (by decide) (by decide)
    [.updateBondedDevice (device 3)]).mpr _ _ List.prefix_rfl
  intro before address part t ran
  have nothing : before = [] := by
    have short := part.length_le
    simp only [length_append, length_singleton] at short
    exact eq_nil_of_length_eq_zero (by omega)
  subst nothing
  have state : seen (twoAndThree 2 (by decide)) [] =
      some ((2, [device 1, device 2]), (2, [device 1, device 2])) := by
    decide
  rw [seen, ran] at state
  simp only [Option.map_some, Option.some.injEq, Prod.mk.injEq] at state
  obtain ⟨⟨max, devices⟩, max', devices'⟩ := state
  refine .inr (.inr ⟨by rw [max, max'], device 1, ?_, ?_⟩)
  · rw [devices]
    rfl
  · rw [devices']
    rfl

theorem stay_synchronised_parts :
    ¬ StaySynchronised (twoAndThree 3 (by decide)) [.updateBondedDevice (device 3)] := by
  intro ⟨t, ran, synchronised, _⟩
  have state : seen (twoAndThree 3 (by decide)) [.updateBondedDevice (device 3)] =
      some ((2, [device 2, device 3]), (3, [device 1, device 2, device 3])) := by
    decide
  rw [seen, ran] at state
  simp only [Option.map_some, Option.some.injEq, Prod.mk.injEq] at state
  have same := synchronised.same (device 1)
  rw [state.1.2, state.2.2] at same
  revert same
  decide

end Synchronizer

end Ble
