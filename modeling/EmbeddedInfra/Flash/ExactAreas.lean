import EmbeddedInfra.Flash.FlashSpiRounds
import Mathlib.Data.Nat.ModEq

/-! What `FlashSpi` programs and erases: exactly what was asked. -/

namespace FlashSpis

open List FlashGeometry

variable {geometry : FlashGeometry} {answers : Nat → UInt8} {loop : Loop} {s t : FlashSpi}

def WithinPage (geometry : FlashGeometry) (page : Nat × Bytes) : Prop :=
  ∀ offset < page.2.length, (page.1 + offset) / geometry.sizePage = page.1 / geometry.sizePage

/-- Every byte of the buffer is programmed once, at its own address, and nothing is erased. -/
structure Programs (geometry : FlashGeometry) (buffer : Bytes) (address : Nat)
    (sessions : List Bytes) : Prop where
  bytes : programmedBytes geometry sessions = buffer.zipIdx address
  pages : ∀ page ∈ sessions.filterMap (programmed geometry), WithinPage geometry page
  untouched : sessions.filterMap (erased geometry) = []

variable {address first last index : Nat}

theorem offset_eq (geometry : FlashGeometry) (small : address < 2 ^ 32) :
    geometry.addressOffsetInSector address % geometry.sizePage = address % geometry.sizePage := by
  have below := Nat.div_mul_le_self address geometry.sizeSubSector
  have start : geometry.startOfSector address =
      address / geometry.sizeSubSector * geometry.sizeSubSector :=
    Nat.mod_eq_of_lt (by rw [sectorOfAddress]; omega)
  have offset : geometry.addressOffsetInSector address = address % geometry.sizeSubSector := by
    rw [addressOffsetInSector, start, Nat.mod_eq_sub_div_mul]
  rw [offset, Nat.mod_mod_of_dvd _ geometry.wholePages]

theorem within_page {size offset : Nat} (some : 0 < size) (fits : offset < size - address % size) :
    (address + offset) / size = address / size := by
  have below := Nat.div_mul_le_self address size
  have split := Nat.div_add_mod' address size
  have rest := Nat.mod_lt address some
  refine Nat.div_eq_of_lt_le (below.trans (Nat.le_add_right _ _)) ?_
  rw [Nat.add_mul, Nat.one_mul]
  omega

theorem programmed_page (geometry : FlashGeometry) (page : Bytes)
    (small : address < if geometry.extendedAddressing then 2 ^ 32 else 2 ^ 24) :
    programmed geometry (geometry.instructionAndAddress commandPageProgram address ++ page) =
      some (address, page) := by
  obtain ⟨bytes, same, length, decoded⟩ :=
    instructionAndAddress_eq geometry commandPageProgram address
  rw [same, cons_append, programmed, if_pos rfl, take_left' length,
    drop_left' length, decoded small]

theorem page_not_erased (geometry : FlashGeometry) (address : Nat) (page : Bytes) :
    erased geometry (geometry.instructionAndAddress commandPageProgram address ++ page) = none := by
  obtain ⟨bytes, same, _, _⟩ := instructionAndAddress_eq geometry commandPageProgram address
  rw [same, cons_append]
  cases extended : geometry.extendedAddressing <;>
    simp [erased, instruction, extended, commandPageProgram,
      commandEraseSector, commandEraseSubSector, commandEraseBulk]

theorem total_le (geometry : FlashGeometry) : geometry.totalSize ≤ 2 ^ 32 := by
  have addressed := geometry.addressed
  rw [totalSize]
  split at addressed <;> omega

theorem Programs.after_page {buffer : Bytes} {count : Nat} {rest : List Bytes} (polls : Nat)
    (small : address < if geometry.extendedAddressing then 2 ^ 32 else 2 ^ 24)
    (fits : (buffer.take count).length ≤ geometry.sizePage - address % geometry.sizePage)
    (programs : Programs geometry (buffer.drop count) (address + (buffer.take count).length) rest) :
    Programs geometry buffer address (roundSessions
      (geometry.instructionAndAddress commandPageProgram address ++ buffer.take count) polls ++
        rest) where
  bytes := by
    rw [programmedBytes, filterMap_append, programmed_round, programmed_page geometry _ small,
      flatMap_append]
    calc
      _ = (buffer.take count).zipIdx address ++ programmedBytes geometry rest := by
        simp [programmedBytes]
      _ = buffer.zipIdx address := by
        rw [programs.bytes, ← zipIdx_append, take_append_drop]
  pages := by
    rw [filterMap_append, programmed_round, programmed_page geometry _ small]
    intro page member
    cases mem_append.mp member with
    | inl first =>
      cases mem_singleton.mp first
      intro offset inside
      exact within_page geometry.somePage (lt_of_lt_of_le inside fits)
    | inr later => exact programs.pages page later
  untouched := by
    rw [filterMap_append, erased_round, page_not_erased, programs.untouched]
    rfl

theorem write_ends (ends : BusyEnds answers) (buffer : Bytes) (address : Nat)
    (inside : address + buffer.length ≤ geometry.totalSize) (s : FlashSpi)
    (starts : s.position = .condition) (left : s.buffer = buffer)
    (here : s.address = address % 2 ^ 32) :
    ∃ sent, Ends answers (writeLoop geometry) s sent ∧ Programs geometry buffer address sent := by
  induction length : buffer.length using Nat.strong_induction_on generalizing buffer address s with
  | _ length ih =>
    by_cases empty : buffer = []
    · refine ⟨[], ends_none starts (by simp [writeLoop, left, empty]), ?_, nofun, rfl⟩
      rw [empty]
      rfl
    have some := length_pos_iff.mpr empty
    have total := total_le geometry
    have below : address < geometry.totalSize := by omega
    have small : address < 2 ^ 32 := lt_of_lt_of_le below total
    have offset := offset_eq geometry small
    have rest := Nat.mod_lt address geometry.somePage
    rw [Nat.mod_eq_of_lt small] at here
    have ⟨polls, status, next⟩ := round (writeLoop geometry) ends starts
      (by simp [writeLoop, left, empty])
    let count := geometry.sizePage - address % geometry.sizePage
    have positive : 0 < count := Nat.sub_pos_of_lt rest
    have taken : (buffer.take count).length = min count buffer.length := length_take
    have dropped : buffer.drop (buffer.take count).length = buffer.drop count := by
      rw [taken]
      rcases Nat.le_total count buffer.length with less | more
      · rw [Nat.min_eq_left less]
      · rw [Nat.min_eq_right more, drop_length, drop_eq_nil_of_le more]
    have ⟨sent, finishes, programs⟩ := ih (buffer.drop count).length
      (by rw [length_drop]; omega) (buffer.drop count)
      (address + (buffer.take count).length) (by rw [length_drop]; omega)
      (((writeLoop geometry).operation s.enabled).held polls status) rfl
      (by simp [writeLoop, pageProgram, FlashSpi.held, FlashSpi.enabled, writeEnable,
        FlashSpi.send, left, here, offset, count, ← dropped])
      (by simp [writeLoop, pageProgram, FlashSpi.held, FlashSpi.enabled, writeEnable,
        FlashSpi.send, left, here, offset, count]) rfl
    refine ⟨_, finishes.after next (sessions_held ?_ polls status) rfl,
      programs.after_page polls (lt_of_lt_of_le below geometry.addressed)
        (length_take_le _ _)⟩
    simp [writeLoop, pageProgram, FlashSpi.enabled, writeEnable, FlashSpi.send, left, here,
      offset, count]

/-- The areas that are erased are disjoint, and together they are the subsectors from `first` up
to `last`; nothing is programmed. -/
structure Erases (geometry : FlashGeometry) (first last : Nat) (sessions : List Bytes) : Prop where
  areas : (erasedAddresses geometry sessions).Perm
    (List.range' (first * geometry.sizeSubSector) ((last - first) * geometry.sizeSubSector))
  unwritten : sessions.filterMap (programmed geometry) = []

/-- The device is erased as a whole, or the first subsector behind a whole sector always has an
index of 32 bits. -/
def NoneWraps (geometry : FlashGeometry) (first last : Nat) : Prop :=
  (first = 0 ∧ last = geometry.nrOfSubSectors) ∨
    ∀ index, first ≤ index → index < last → geometry.subSectorsOfSector ∣ index →
      index + geometry.subSectorsOfSector < 2 ^ 32

theorem sector_eq (geometry : FlashGeometry) :
    geometry.subSectorsOfSector * geometry.sizeSubSector = geometry.sizeSector :=
  Nat.div_mul_cancel geometry.wholeSubSectors

theorem subSectors_pos (geometry : FlashGeometry) : 0 < geometry.subSectorsOfSector :=
  Nat.div_pos (Nat.le_of_dvd geometry.someSector geometry.wholeSubSectors) geometry.someSubSector

theorem subSectors_lt (geometry : FlashGeometry) : geometry.subSectorsOfSector < 2 ^ 32 :=
  lt_of_le_of_lt (Nat.div_le_self _ _) geometry.smallSector

theorem none_wraps (geometry : FlashGeometry) (large : 2 ≤ geometry.sizeSubSector)
    (inside : last ≤ geometry.nrOfSubSectors) : NoneWraps geometry first last := by
  refine Or.inr ?_
  intro index _ before _
  have total := total_le geometry
  have small := geometry.smallSector
  have sectors := Nat.mul_le_mul_left geometry.subSectorsOfSector large
  have subSectors := Nat.mul_le_mul_left geometry.nrOfSubSectors large
  rw [sector_eq] at sectors
  rw [totalSize] at total
  omega

/-- What a command that starts at a subsector erases. -/
structure Erasing (geometry : FlashGeometry) (command : Bytes) (index count : Nat) : Prop where
  area : erased geometry command =
    some (index * geometry.sizeSubSector, count * geometry.sizeSubSector)
  unwritten : programmed geometry command = none

theorem address_small (inside : index < geometry.nrOfSubSectors) :
    geometry.addressOfSector index = index * geometry.sizeSubSector ∧
      index * geometry.sizeSubSector < if geometry.extendedAddressing then 2 ^ 32 else 2 ^ 24 := by
  have below : index * geometry.sizeSubSector < geometry.totalSize :=
    Nat.mul_lt_mul_of_pos_right inside geometry.someSubSector
  exact ⟨Nat.mod_eq_of_lt (lt_of_lt_of_le below (total_le geometry)),
    lt_of_lt_of_le below geometry.addressed⟩

theorem erasing_bulk (geometry : FlashGeometry) :
    Erasing geometry [commandEraseBulk] 0 geometry.nrOfSubSectors := by
  refine ⟨?_, ?_⟩ <;> cases extended : geometry.extendedAddressing <;>
    simp [erased, programmed, instruction, extended, commandPageProgram,
      commandEraseSector, commandEraseSubSector, commandEraseBulk, totalSize]

theorem erasing_subSector (inside : index < geometry.nrOfSubSectors) :
    Erasing geometry (geometry.instructionAndAddress commandEraseSubSector
      (geometry.addressOfSector index)) index 1 := by
  obtain ⟨place, small⟩ := address_small inside
  obtain ⟨bytes, same, length, decoded⟩ := instructionAndAddress_eq geometry commandEraseSubSector
    (index * geometry.sizeSubSector)
  have start := Nat.mul_div_cancel index geometry.someSubSector
  rw [place, same]
  refine ⟨?_, ?_⟩
  · rw [erased, take_of_length_le length.le, decoded small, start]
    cases extended : geometry.extendedAddressing <;>
      simp [instruction, extended, commandEraseSector, commandEraseSubSector]
  · cases extended : geometry.extendedAddressing <;>
      simp [programmed, instruction, extended, commandPageProgram,
        commandEraseSubSector]

theorem erasing_sector (inside : index < geometry.nrOfSubSectors)
    (aligned : geometry.subSectorsOfSector ∣ index) :
    Erasing geometry (geometry.instructionAndAddress commandEraseSector
      (geometry.addressOfSector index)) index geometry.subSectorsOfSector := by
  obtain ⟨place, small⟩ := address_small inside
  obtain ⟨bytes, same, length, decoded⟩ := instructionAndAddress_eq geometry commandEraseSector
    (index * geometry.sizeSubSector)
  have start : index * geometry.sizeSubSector / geometry.sizeSector * geometry.sizeSector =
      index * geometry.sizeSubSector :=
    Nat.div_mul_cancel (sector_eq geometry ▸ Nat.mul_dvd_mul_right aligned _)
  rw [place, same]
  refine ⟨?_, ?_⟩
  · rw [erased, take_of_length_le length.le, decoded small, start, sector_eq]
    exact if_pos rfl
  · cases extended : geometry.extendedAddressing <;>
      simp [programmed, instruction, extended, commandPageProgram,
        commandEraseSector]

/-- A round erases the subsectors from where it starts to where the next one does. -/
structure Advances (geometry : FlashGeometry) (last : Nat) (s : FlashSpi) (command : Bytes)
    (next : Nat) : Prop where
  further : s.sectorIndex < next
  notBeyond : next ≤ last
  sends : (eraseSomeSectors geometry last s).sessions = s.sessions ++ [command]
  moves : (eraseSomeSectors geometry last s).sectorIndex = next
  erases : Erasing geometry command s.sectorIndex (next - s.sectorIndex)
  /-- No start of a sector is passed over, unless by erasing the device. -/
  stops : (s.sectorIndex = 0 ∧ last = geometry.nrOfSubSectors) ∨
    ∀ index, geometry.subSectorsOfSector ∣ index → s.sectorIndex < index → next ≤ index

theorem eraseSomeSectors_advances (geometry : FlashGeometry) (before : s.sectorIndex < last)
    (inside : last ≤ geometry.nrOfSubSectors)
    (unwrapped : (s.sectorIndex = 0 ∧ last = geometry.nrOfSubSectors) ∨
      (geometry.subSectorsOfSector ∣ s.sectorIndex →
      s.sectorIndex + geometry.subSectorsOfSector < 2 ^ 32)) :
    ∃ command next, Advances geometry last s command next := by
  have few := geometry.fewSubSectors
  have some := subSectors_pos geometry
  by_cases whole : s.sectorIndex = 0 ∧ last = geometry.nrOfSubSectors
  · have moves : (s.sectorIndex + geometry.nrOfSubSectors) % 2 ^ 32 = geometry.nrOfSubSectors := by
      rw [whole.1, Nat.zero_add, Nat.mod_eq_of_lt few]
    have bulk := erasing_bulk geometry
    refine ⟨[commandEraseBulk], geometry.nrOfSubSectors, by omega, by omega, ?_, ?_, ?_,
      Or.inl whole⟩
    · rw [eraseSomeSectors, if_pos whole]
      rfl
    · rw [eraseSomeSectors, if_pos whole]
      exact moves
    · rw [whole.1]
      exact bulk
  have small := unwrapped.resolve_left whole
  by_cases sector : s.sectorIndex % geometry.subSectorsOfSector = 0 ∧
      (s.sectorIndex + geometry.subSectorsOfSector) % 2 ^ 32 ≤ last
  · have aligned := Nat.dvd_of_mod_eq_zero sector.1
    have moves := Nat.mod_eq_of_lt (small aligned)
    have erasing := erasing_sector (lt_of_lt_of_le before inside) aligned
    refine ⟨geometry.instructionAndAddress commandEraseSector
        (geometry.addressOfSector s.sectorIndex),
      s.sectorIndex + geometry.subSectorsOfSector, by omega, by omega, ?_, ?_, ?_, Or.inr ?_⟩
    · rw [eraseSomeSectors, if_neg whole, if_pos sector]
      rfl
    · rw [eraseSomeSectors, if_neg whole, if_pos sector]
      exact moves
    · rw [Nat.add_sub_cancel_left]
      exact erasing
    · intro index starts later
      have gap := Nat.le_of_dvd (Nat.sub_pos_of_lt later) (Nat.dvd_sub starts aligned)
      omega
  · have moves : (s.sectorIndex + 1) % 2 ^ 32 = s.sectorIndex + 1 := Nat.mod_eq_of_lt (by omega)
    have erasing := erasing_subSector (lt_of_lt_of_le before inside)
    refine ⟨geometry.instructionAndAddress commandEraseSubSector
        (geometry.addressOfSector s.sectorIndex),
      s.sectorIndex + 1, by omega, by omega, ?_, ?_, ?_, Or.inr ?_⟩
    · rw [eraseSomeSectors, if_neg whole, if_neg sector]
      rfl
    · rw [eraseSomeSectors, if_neg whole, if_neg sector]
      exact moves
    · rw [Nat.add_sub_cancel_left]
      exact erasing
    · intro index _ later
      exact later

theorem erasedAddresses_round {command : Bytes} {count : Nat}
    (erasing : Erasing geometry command index count) (polls : Nat) (rest : List Bytes) :
    erasedAddresses geometry (roundSessions command polls ++ rest) =
      List.range' (index * geometry.sizeSubSector) (count * geometry.sizeSubSector) ++
        erasedAddresses geometry rest := by
  rw [erasedAddresses, filterMap_append, erased_round, erasing.area, flatMap_append]
  simp [erasedAddresses]

theorem range_append {middle size : Nat} (before : first ≤ middle) (after : middle ≤ last) :
    List.range' (first * size) ((middle - first) * size) ++
        List.range' (middle * size) ((last - middle) * size) =
      List.range' (first * size) ((last - first) * size) := by
  have start : first * size + (middle - first) * size = middle * size := by
    rw [← Nat.add_mul, Nat.add_sub_cancel' before]
  have count : (middle - first) * size + (last - middle) * size = (last - first) * size := by
    rw [← Nat.add_mul]
    congr 1
    omega
  rw [← start, range'_append_1, count]

theorem NoneWraps.now (none : NoneWraps geometry first last) (before : first < last) :
    (first = 0 ∧ last = geometry.nrOfSubSectors) ∨
      (geometry.subSectorsOfSector ∣ first → first + geometry.subSectorsOfSector < 2 ^ 32) :=
  none.imp_right fun small => small first le_rfl before

theorem NoneWraps.later {next : Nat} (none : NoneWraps geometry first last) (further : first < next)
    (stops : first = 0 ∧ last = geometry.nrOfSubSectors → next = last) :
    NoneWraps geometry next last := by
  refine Or.inr ?_
  intro index after before aligned
  cases none with
  | inl whole => exact absurd (stops whole) (by omega)
  | inr small => exact small index (further.le.trans after) before aligned

theorem Advances.whole {command : Bytes} {next : Nat}
    (advances : Advances geometry last s command next)
    (whole : s.sectorIndex = 0 ∧ last = geometry.nrOfSubSectors) : next = last := by
  have moves := advances.moves
  rw [eraseSomeSectors, if_pos whole] at moves
  rw [← moves, whole.1, Nat.zero_add, whole.2]
  exact Nat.mod_eq_of_lt geometry.fewSubSectors

/-- By induction on the subsectors that are left. -/
theorem erase_ends (ends : BusyEnds answers) (inside : last ≤ geometry.nrOfSubSectors)
    (s : FlashSpi) (starts : s.position = .condition) (before : s.sectorIndex ≤ last)
    (none : NoneWraps geometry s.sectorIndex last) :
    ∃ sent, Ends answers (eraseLoop geometry last) s sent ∧
      erasedAddresses geometry sent = List.range' (s.sectorIndex * geometry.sizeSubSector)
        ((last - s.sectorIndex) * geometry.sizeSubSector) ∧
      sent.filterMap (programmed geometry) = [] := by
  induction left : last - s.sectorIndex using Nat.strong_induction_on generalizing s with
  | _ left ih =>
    by_cases complete : s.sectorIndex = last
    · refine ⟨[], ends_none starts (by simp [eraseLoop, complete]), ?_, rfl⟩
      rw [← left, complete, Nat.sub_self, Nat.zero_mul]
      rfl
    have less : s.sectorIndex < last := lt_of_le_of_ne before complete
    have ⟨polls, status, next⟩ := round (eraseLoop geometry last) ends starts
      (by simp [eraseLoop, complete])
    have ⟨command, index, advances⟩ := eraseSomeSectors_advances geometry
      (s := s.enabled) less inside (none.now less)
    have further : s.sectorIndex < index := advances.further
    have notBeyond := advances.notBeyond
    let after := ((eraseLoop geometry last).operation s.enabled).held polls status
    have moves : after.sectorIndex = index := advances.moves
    have ⟨sent, finishes, areas, unwritten⟩ := ih (last - after.sectorIndex) (by omega) after rfl
      (moves ▸ notBeyond) (moves ▸ none.later further advances.whole) rfl
    refine ⟨_, finishes.after next (sessions_held advances.sends polls status) ?_, ?_, ?_⟩
    · have same : after.scheduled = (eraseSomeSectors geometry last s.enabled).scheduled := rfl
      rw [same, eraseSomeSectors]
      split
      · rfl
      · split <;> rfl
    · rw [erasedAddresses_round advances.erases, areas, moves, ← left]
      exact range_append further.le notBeyond
    · rw [filterMap_append, programmed_round, advances.erases.unwritten, unwritten]
      rfl

theorem extends_operation (geometry : FlashGeometry) (last : Nat) (s : FlashSpi) :
    s.sessions <+: ((eraseLoop geometry last).operation s).sessions := by
  change s.sessions <+: (eraseSomeSectors geometry last s).sessions
  rw [eraseSomeSectors]
  split
  · exact List.prefix_append _ _
  · split <;> exact List.prefix_append _ _

theorem extends_advance (operation : ∀ s, s.sessions <+: (loop.operation s).sessions)
    (s : FlashSpi) : s.sessions <+: (advance answers loop s).sessions := by
  rw [advance]
  split
  case h_3 => exact operation s
  all_goals first | exact List.prefix_rfl | exact List.prefix_append _ _

theorem extends_run (operation : ∀ s, s.sessions <+: (loop.operation s).sessions) (count : Nat)
    (s : FlashSpi) : s.sessions <+: ((advance answers loop)^[count] s).sessions := by
  induction count generalizing s with
  | zero => exact List.prefix_rfl
  | succ count ih => exact (extends_advance operation s).trans (ih _)

theorem finished_stays (finished : s.position = .finished) (count : Nat) :
    (advance answers loop)^[count] s = s := by
  have fixed : advance answers loop s = s := by rw [advance, finished]
  exact Function.iterate_fixed fixed count

theorem sent_at_end (operation : ∀ s, s.sessions <+: (loop.operation s).sessions)
    {u : FlashSpi} (reached : Leads answers loop s t) (ended : Leads answers loop s u)
    (finished : u.position = .finished) : t.sessions <+: u.sessions := by
  have ⟨early, middle⟩ := reached
  have ⟨late, final⟩ := ended
  rcases Nat.le_total early late with before | after
  · rw [← final, ← Nat.sub_add_cancel before, Function.iterate_add_apply, middle]
    exact extends_run operation _ t
  · have same : t = u := by
      rw [← middle, ← Nat.sub_add_cancel after, Function.iterate_add_apply, final,
        finished_stays finished]
    exact same ▸ List.prefix_rfl

theorem wrapped_erases (before : s.sectorIndex < last) (inside : last ≤ geometry.nrOfSubSectors)
    (part : ¬ (s.sectorIndex = 0 ∧ last = geometry.nrOfSubSectors))
    (aligned : geometry.subSectorsOfSector ∣ s.sectorIndex)
    (wraps : 2 ^ 32 ≤ s.sectorIndex + geometry.subSectorsOfSector) :
    (eraseSomeSectors geometry last s).sessions =
      s.sessions ++ [geometry.instructionAndAddress commandEraseSector
        (geometry.addressOfSector s.sectorIndex)] := by
  have few := geometry.fewSubSectors
  have less := subSectors_lt geometry
  have sector : s.sectorIndex % geometry.subSectorsOfSector = 0 ∧
      (s.sectorIndex + geometry.subSectorsOfSector) % 2 ^ 32 ≤ last := by
    refine ⟨Nat.mod_eq_zero_of_dvd aligned, ?_⟩
    rw [Nat.mod_eq_sub_mod wraps, Nat.mod_eq_of_lt (by omega)]
    omega
  rw [eraseSomeSectors, if_neg part, if_pos sector]
  rfl

/-- By induction on the subsectors before the start of the sector at which the sum wraps. -/
theorem wraps_beyond (ends : BusyEnds answers) (inside : last ≤ geometry.nrOfSubSectors)
    (below : index < last) (aligned : geometry.subSectorsOfSector ∣ index)
    (wraps : 2 ^ 32 ≤ index + geometry.subSectorsOfSector) (s : FlashSpi)
    (starts : s.position = .condition) (before : s.sectorIndex ≤ index)
    (part : ¬ (s.sectorIndex = 0 ∧ last = geometry.nrOfSubSectors)) :
    ∃ t sent, Leads answers (eraseLoop geometry last) s t ∧ t.sessions = s.sessions ++ sent ∧
      last * geometry.sizeSubSector ∈ erasedAddresses geometry sent := by
  induction left : index - s.sectorIndex using Nat.strong_induction_on generalizing s with
  | _ left ih =>
    have few := geometry.fewSubSectors
    have incomplete : s.sectorIndex ≠ last := by omega
    have ⟨polls, status, next⟩ := round (eraseLoop geometry last) ends starts
      (by simp [eraseLoop, incomplete])
    by_cases small : geometry.subSectorsOfSector ∣ s.sectorIndex →
        s.sectorIndex + geometry.subSectorsOfSector < 2 ^ 32
    · have ⟨command, middle, advances⟩ := eraseSomeSectors_advances geometry
        (s := s.enabled) (before.trans_lt below) inside (Or.inr small)
      let after := ((eraseLoop geometry last).operation s.enabled).held polls status
      have moves : after.sectorIndex = middle := advances.moves
      have further : s.sectorIndex < middle := advances.further
      have short : s.sectorIndex < index := by
        refine lt_of_le_of_ne before ?_
        intro same
        have bound := small (same ▸ aligned)
        omega
      have reaches : middle ≤ index := (advances.stops.resolve_left part) index aligned short
      have ⟨t, sent, leads, sessions, beyond⟩ :=
        ih (index - after.sectorIndex) (by omega) after rfl (moves ▸ reaches) (by omega) rfl
      refine ⟨t, roundSessions command polls ++ sent, next.trans leads, ?_, ?_⟩
      · rw [sessions, ← append_assoc]
        congr 1
        exact sessions_held advances.sends polls status
      · rw [erasedAddresses_round advances.erases]
        exact mem_append_right _ beyond
    · have ⟨start, sum⟩ := Classical.not_imp.mp small
      have erasing := erasing_sector (lt_of_lt_of_le (before.trans_lt below) inside) start
      have sends := wrapped_erases (s := s.enabled) (before.trans_lt below) inside part start
        (Nat.le_of_not_lt sum)
      refine ⟨_, roundSessions _ polls, next, sessions_held sends polls status, ?_⟩
      have area := erasedAddresses_round erasing polls []
      rw [append_nil] at area
      rw [show s.enabled.sectorIndex = s.sectorIndex from rfl, area]
      refine mem_append_left _ (mem_range'_1.mpr ⟨?_, ?_⟩)
      · exact Nat.mul_le_mul_right _ (before.trans below.le)
      · rw [← Nat.add_mul]
        exact Nat.mul_lt_mul_of_pos_right (by omega) geometry.someSubSector

/-- Every `WriteBuffer` of a buffer inside the device ends, with `onDone` scheduled once, and
programs the buffer. -/
def WritesExactly (geometry : FlashGeometry) : Prop :=
  ∀ answers, BusyEnds answers → ∀ s : FlashSpi, s.position = .finished →
    ∀ buffer address, address < 2 ^ 32 → address + buffer.length ≤ geometry.totalSize →
      ∃ sent, Ends answers (writeLoop geometry) (startWrite buffer address s) sent ∧
        Programs geometry buffer address sent

/-- `EraseSectors` ends, with `onDone` scheduled once, and erases the subsectors from `first` up
to `last`. -/
def ErasesExactly (geometry : FlashGeometry) (first last : Nat) : Prop :=
  ∀ answers, BusyEnds answers → ∀ s : FlashSpi, s.position = .finished →
    ∃ sent, Ends answers (eraseLoop geometry last) (startErase first s) sent ∧
      Erases geometry first last sent

theorem writes_exactly (geometry : FlashGeometry) : WritesExactly geometry := by
  intro answers ends s _ buffer address small inside
  exact write_ends ends buffer address inside _ rfl rfl (Nat.mod_eq_of_lt small).symm

theorem erases_of_none_wraps (ordered : first ≤ last) (inside : last ≤ geometry.nrOfSubSectors)
    (none : NoneWraps geometry first last) :
    ErasesExactly geometry first last := by
  intro answers ends s _
  have ⟨sent, finishes, areas, unwritten⟩ :=
    erase_ends ends inside (startErase first s) rfl ordered none
  exact ⟨sent, finishes, List.Perm.of_eq areas, unwritten⟩

theorem not_erases_of_wraps (geometry : FlashGeometry) (inside : last ≤ geometry.nrOfSubSectors)
    (part : ¬ (first = 0 ∧ last = geometry.nrOfSubSectors)) (after : first ≤ index)
    (below : index < last) (aligned : geometry.subSectorsOfSector ∣ index)
    (wraps : 2 ^ 32 ≤ index + geometry.subSectorsOfSector) :
    ¬ ErasesExactly geometry first last := by
  intro exactly
  have idleAnswer : (0 : UInt8) &&& 1 ≠ 1 := by decide
  have ends : BusyEnds fun _ => 0 := fun _ => ⟨0, idleAnswer⟩
  let idle : FlashSpi := ⟨[], 0, 0, 0, [], 0, 0, .finished⟩
  have ⟨sent, ⟨u, ended, finished, _, sessions⟩, erases⟩ := exactly (fun _ => 0) ends idle rfl
  have ⟨t, early, reached, sends, beyond⟩ :=
    wraps_beyond ends inside below aligned wraps (startErase first idle) rfl after part
  have ⟨more, whole⟩ := sent_at_end (extends_operation geometry last) reached ended finished
  have same : early ++ more = sent := by
    rw [sends, sessions] at whole
    simpa using whole
  have member : last * geometry.sizeSubSector ∈ erasedAddresses geometry sent := by
    rw [← same, erasedAddresses, filterMap_append, flatMap_append]
    exact mem_append_left _ beyond
  have range := mem_range'_1.mp (erases.areas.mem_iff.mp member)
  have ordered : first ≤ last := after.trans below.le
  rw [← Nat.add_mul, Nat.add_sub_cancel' ordered] at range
  exact absurd range.2 (lt_irrefl _)

theorem writes_and_erases_exactly_iff (geometry : FlashGeometry) {first last : Nat}
    (ordered : first ≤ last) (inside : last ≤ geometry.nrOfSubSectors) :
    WritesExactly geometry ∧ ErasesExactly geometry first last ↔
      NoneWraps geometry first last := by
  constructor
  · intro exactly
    by_contra wraps
    have ⟨part, large⟩ := not_or.mp wraps
    push Not at large
    have ⟨index, after, below, aligned, sum⟩ := large
    exact not_erases_of_wraps geometry inside part after below aligned sum exactly.2
  · intro none
    exact ⟨writes_exactly geometry, erases_of_none_wraps ordered inside none⟩

/-- A device of 64 KiB in sectors of 4 KiB and subsectors of 1 KiB. -/
def smallGeometry : FlashGeometry where
  nrOfSubSectors := 64
  sizeSector := 4096
  sizeSubSector := 1024
  sizePage := 256
  extendedAddressing := false
  somePage := by decide
  someSubSector := by decide
  someSector := by decide
  wholePages := by decide
  wholeSubSectors := by decide
  fewSubSectors := by decide
  smallSector := by decide
  addressed := by decide

theorem writes_and_erases_exactly_iff_small :
    WritesExactly smallGeometry ∧ ErasesExactly smallGeometry 3 13 :=
  (writes_and_erases_exactly_iff smallGeometry (by decide) (by decide)).mpr
    (none_wraps smallGeometry (by decide) (by decide))

/-- A device of 4 GiB less one byte, in sectors of 64 KiB and subsectors of one byte. -/
def largestGeometry : FlashGeometry where
  nrOfSubSectors := 2 ^ 32 - 1
  sizeSector := 2 ^ 16
  sizeSubSector := 1
  sizePage := 1
  extendedAddressing := true
  somePage := Nat.one_pos
  someSubSector := Nat.one_pos
  someSector := by decide
  wholePages := by decide
  wholeSubSectors := by decide
  fewSubSectors := by decide
  smallSector := by decide
  addressed := by decide

/-- The last sector is one byte short, and is erased as if it were whole. -/
theorem not_writes_and_erases_exactly : ¬ ∀ (geometry : FlashGeometry) (first last : Nat),
    first ≤ last → last ≤ geometry.nrOfSubSectors →
      WritesExactly geometry ∧ ErasesExactly geometry first last := by
  intro exactly
  have erases := (exactly largestGeometry (2 ^ 32 - 2 ^ 16) (2 ^ 32 - 1) (by decide) (by decide)).2
  exact not_erases_of_wraps largestGeometry (by decide) (by decide) le_rfl (by decide)
    (by decide) (by decide) erases

end FlashSpis
