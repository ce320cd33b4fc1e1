import EmbeddedInfra.Bootloader.StatusJournal

/-! The status journal unit by unit: units in use come before erased ones, and an entry of
which only a prefix was stored is never taken for another one. -/

namespace Bootloader

open CrashLogic Hal List

namespace StatusJournal

def UnitErased (contents : Contents) (unit : Nat) : Prop :=
  ∀ k, k < StatusJournalEntry.size →
    contents.memory (StatusJournalEntry.size * unit + k) = erasedByte

def latestOf (contents : Contents) : Nat → Option StatusJournalEntry
  | 0 => none
  | units + 1 =>
    let entry := readEntry contents (StatusJournalEntry.size * units)
    if isValid entry then some entry else latestOf contents units

def named : Option StatusJournalEntry → UpgradePackStatus × BitVec 32
  | some entry => (⟨entry.status⟩, entry.errorCode)
  | none => (.empty, 0)

/-- The units in use come first, and no unit has been programmed twice. -/
structure Filled (contents : Contents) (units written : Nat) : Prop where
  within : written ≤ units
  used : ∀ unit, unit < written → ¬ UnitErased contents unit
  free : ∀ unit, written ≤ unit → unit < units → UnitErased contents unit
  fresh : ∀ unit, written ≤ unit → contents.programmed unit = 0
  once : ∀ unit, contents.programmed unit ≤ 1

theorem isErased_iff (contents : Contents) (unit : Nat) :
    isErased (readEntry contents (StatusJournalEntry.size * unit)) = true ↔
      UnitErased contents unit := by
  rw [isErased, bytes_readEntry, all_eq_true]
  constructor
  · intro all k small
    have member : contents.memory (StatusJournalEntry.size * unit + k) ∈
        contents.read (StatusJournalEntry.size * unit) StatusJournalEntry.size :=
      mem_map.mpr ⟨k, mem_range.mpr small, rfl⟩
    exact eq_of_beq (all _ member)
  · intro erased byte member
    obtain ⟨k, small, rfl⟩ := mem_map.mp member
    exact beq_iff_eq.mpr (erased k (mem_range.mp small))

theorem readEntry_congr {contents other : Contents} {address : Nat}
    (same : ∀ k, k < StatusJournalEntry.size →
      contents.memory (address + k) = other.memory (address + k)) :
    readEntry contents address = readEntry other address := by
  have first := same 0 (by decide)
  rw [Nat.add_zero] at first
  simp only [readEntry, word, Nat.add_assoc, Nat.reduceAdd, first, same 1 (by decide),
    same 2 (by decide), same 3 (by decide), same 4 (by decide), same 5 (by decide),
    same 6 (by decide), same 7 (by decide), same 8 (by decide), same 9 (by decide),
    same 10 (by decide), same 11 (by decide), same 12 (by decide), same 13 (by decide),
    same 14 (by decide), same 15 (by decide)]

theorem latestOf_congr {contents other : Contents} {units : Nat}
    (same : ∀ i, i < StatusJournalEntry.size * units → contents.memory i = other.memory i) :
    latestOf contents units = latestOf other units := by
  induction units with
  | zero => rfl
  | succ units ih =>
    have entry : readEntry contents (StatusJournalEntry.size * units) =
        readEntry other (StatusJournalEntry.size * units) := by
      apply readEntry_congr
      intro k small
      apply same
      rw [Nat.mul_succ]
      exact Nat.add_lt_add_left small _
    have earlier : latestOf contents units = latestOf other units := by
      apply ih
      intro i below
      apply same
      rw [Nat.mul_succ]
      exact Nat.lt_add_right _ below
    simp only [latestOf, entry, earlier]

theorem readFrom_filled {contents : Contents} {units written : Nat}
    (filled : Filled contents units written) (left unit : Nat) (rest : unit + left = units)
    (before : unit ≤ written) :
    readFrom contents ⟨latestOf contents unit, none⟩ (StatusJournalEntry.size * unit) left =
      ⟨latestOf contents written,
        if written < units then some (StatusJournalEntry.size * written) else none⟩ := by
  induction left generalizing unit with
  | zero =>
    have last : unit = written := le_antisymm before (by have := filled.within; omega)
    rw [if_neg (by omega), ← last]
    rfl
  | succ left ih =>
    rw [readFrom]
    rcases Nat.lt_or_eq_of_le before with inUse | rfl
    · have busy : ¬ isErased (readEntry contents (StatusJournalEntry.size * unit)) = true :=
        fun erased => filled.used unit inUse ((isErased_iff contents unit).mp erased)
      have next : (if isValid (readEntry contents (StatusJournalEntry.size * unit)) then
          Scan.mk (some (readEntry contents (StatusJournalEntry.size * unit))) none
          else ⟨latestOf contents unit, none⟩) = ⟨latestOf contents (unit + 1), none⟩ := by
        simp only [latestOf]
        split
        · rfl
        · rfl
      rw [if_neg busy, next]
      exact ih (unit + 1) (by omega) inUse
    · have erased := (isErased_iff contents unit).mpr (filled.free unit le_rfl (by omega))
      rw [if_pos erased, if_pos (by omega)]

theorem read_filled {contents : Contents} {units written totalSize : Nat}
    (size : totalSize = StatusJournalEntry.size * units)
    (filled : Filled contents units written) :
    read totalSize contents =
      ⟨latestOf contents written,
        if written < units then some (StatusJournalEntry.size * written) else none⟩ := by
  rw [read, size, Nat.mul_div_cancel_left units (by decide)]
  exact readFrom_filled filled units 0 (Nat.zero_add _) (Nat.zero_le _)

theorem status_errorCode (totalSize : Nat) (contents : Contents) :
    (status totalSize contents, errorCode totalSize contents) =
      named (read totalSize contents).latest := by
  rw [status, errorCode]
  cases (read totalSize contents).latest with
  | none | some entry => rfl

theorem named_of_filled {contents : Contents} {units written totalSize : Nat}
    (size : totalSize = StatusJournalEntry.size * units)
    (filled : Filled contents units written) :
    (status totalSize contents, errorCode totalSize contents) =
      named (latestOf contents written) := by
  rw [status_errorCode, read_filled size filled]

variable {contents : Contents} {units written : Nat}

theorem Filled.program_byte (filled : Filled contents units written) (room : written < units)
    (entry : StatusJournalEntry) (stored k : Nat) (small : k < StatusJournalEntry.size) :
    (contents.program (entry.bytes.take stored) (StatusJournalEntry.size * written)).memory
        (StatusJournalEntry.size * written + k) =
      if k < stored then entry.bytes.getD k erasedByte else erasedByte := by
  have free := filled.free written le_rfl room k small
  have all : entry.bytes.length = 16 := rfl
  split
  next kept =>
    have inside : k < (entry.bytes.take stored).length := by
      rw [length_take, all]
      exact lt_min kept small
    rw [Contents.program_erased contents inside free, getElem_take]
    exact (getD_eq_getElem entry.bytes erasedByte small).symm
  next torn =>
    rw [Contents.program_after contents, free]
    rw [length_take]
    omega

theorem Filled.program_used (filled : Filled contents units written) (room : written < units)
    (entry : StatusJournalEntry) (starts : entry.bytes.getD 0 erasedByte ≠ erasedByte)
    {stored : Nat} (some_byte : 0 < stored) :
    Filled (contents.program (entry.bytes.take stored) (StatusJournalEntry.size * written)) units
      (written + 1) := by
  have all : entry.bytes.length = 16 := rfl
  have nonempty : entry.bytes.take stored ≠ [] := by
    rw [ne_eq, ← length_eq_zero_iff, length_take, all]
    omega
  have unit_eq : StatusJournalEntry.size * written / programmingUnit = written :=
    Nat.mul_div_cancel_left written (by decide)
  have programmed : ∀ unit,
      (contents.program (entry.bytes.take stored) (StatusJournalEntry.size * written)).programmed
        unit = if unit = written then 1 else contents.programmed unit := by
    intro unit
    have short : (entry.bytes.take stored).length ≤ 16 := by
      rw [length_take, all]
      exact min_le_right _ _
    have long : 0 < (entry.bytes.take stored).length := length_pos_iff.mpr nonempty
    have same : (StatusJournalEntry.size * written / programmingUnit ≤ unit ∧
        unit * programmingUnit <
          StatusJournalEntry.size * written + (entry.bytes.take stored).length ∧
        entry.bytes.take stored ≠ []) ↔ unit = written := by
      rw [unit_eq, and_iff_left nonempty]
      simp only [programmingUnit, StatusJournalEntry.size]
      omega
    simp only [Contents.program, same]
    split
    next here => rw [here, filled.fresh written le_rfl]
    next => rfl
  constructor
  · exact room
  · intro unit inUse erased
    rcases Nat.lt_or_eq_of_le (Nat.lt_succ_iff.mp inUse) with earlier | rfl
    · apply filled.used unit earlier
      intro k small
      have same := erased k small
      rwa [Contents.program_before contents (by
        simp only [StatusJournalEntry.size] at small ⊢; omega)] at same
    · have first := erased 0 (by decide)
      rw [filled.program_byte room entry stored 0 (by decide), if_pos some_byte] at first
      exact starts first
  · intro unit later within k small
    rw [Contents.program_after contents (by
      rw [length_take, all]
      simp only [StatusJournalEntry.size] at small ⊢
      omega)]
    exact filled.free unit (Nat.le_of_succ_le later) within k small
  · intro unit later
    rw [programmed, if_neg (by omega)]
    exact filled.fresh unit (Nat.le_of_succ_le later)
  · intro unit
    rw [programmed]
    split
    · exact le_rfl
    · exact filled.once unit

theorem latestOf_program (entry : StatusJournalEntry) (stored : Nat) :
    latestOf (contents.program (entry.bytes.take stored) (StatusJournalEntry.size * written))
      written = latestOf contents written := by
  apply latestOf_congr
  intro i below
  exact Contents.program_before contents below

theorem readEntry_program (filled : Filled contents units written) (room : written < units)
    (entry : StatusJournalEntry) :
    readEntry (contents.program entry.bytes (StatusJournalEntry.size * written))
      (StatusJournalEntry.size * written) = entry := by
  have byte := filled.program_byte room entry StatusJournalEntry.size
  rw [show entry.bytes.take StatusJournalEntry.size = entry.bytes from
    take_of_length_le le_rfl] at byte
  generalize contents.program entry.bytes (StatusJournalEntry.size * written) = whole at byte ⊢
  have kept : ∀ k, k < StatusJournalEntry.size →
      whole.memory (StatusJournalEntry.size * written + k) = entry.bytes.getD k erasedByte := by
    intro k small
    rw [byte k small, if_pos small]
  have marker : word whole.memory (StatusJournalEntry.size * written) = entry.marker :=
    word_eq (kept 0 (by decide)) (kept 1 (by decide)) (kept 2 (by decide)) (kept 3 (by decide))
  have errorCode : word whole.memory (StatusJournalEntry.size * written + 8) = entry.errorCode :=
    word_eq (kept 8 (by decide)) (kept 9 (by decide)) (kept 10 (by decide)) (kept 11 (by decide))
  have check : word whole.memory (StatusJournalEntry.size * written + 12) = entry.check :=
    word_eq (kept 12 (by decide)) (kept 13 (by decide)) (kept 14 (by decide))
      (kept 15 (by decide))
  simp only [readEntry, marker, errorCode, check, kept 4 (by decide), kept 5 (by decide),
    kept 6 (by decide), kept 7 (by decide)]
  rfl

theorem isValid_make (status : UpgradePackStatus) (errorCode : BitVec 32) :
    isValid (makeStatusJournalEntry status errorCode) = true := by
  simp only [isValid, makeStatusJournalEntry, beq_self_eq_true, Bool.and_self]

theorem named_torn (filled : Filled contents units written) (room : written < units)
    (status : UpgradePackStatus) (errorCode : BitVec 32) (stored : Nat)
    (valid : isValid (readEntry (contents.program
      ((makeStatusJournalEntry status errorCode).bytes.take stored)
      (StatusJournalEntry.size * written)) (StatusJournalEntry.size * written)) = true) :
    named (some (readEntry (contents.program
      ((makeStatusJournalEntry status errorCode).bytes.take stored)
      (StatusJournalEntry.size * written)) (StatusJournalEntry.size * written))) =
      (status, errorCode) := by
  have byte := filled.program_byte room (makeStatusJournalEntry status errorCode) stored
  generalize contents.program ((makeStatusJournalEntry status errorCode).bytes.take stored)
    (StatusJournalEntry.size * written) = torn at valid byte ⊢
  by_cases enough : 12 ≤ stored
  · have kept : ∀ k, k < 12 → torn.memory (StatusJournalEntry.size * written + k) =
        (makeStatusJournalEntry status errorCode).bytes.getD k erasedByte := by
      intro k small
      rw [byte k (by simp only [StatusJournalEntry.size]; omega), if_pos (by omega)]
    have errorCode_eq : word torn.memory (StatusJournalEntry.size * written + 8) = errorCode :=
      word_eq (kept 8 (by decide)) (kept 9 (by decide)) (kept 10 (by decide))
        (kept 11 (by decide))
    simp only [named, readEntry, kept 4 (by decide), errorCode_eq]
    rfl
  · have rest : ∀ k, 11 ≤ k → k < StatusJournalEntry.size →
        torn.memory (StatusJournalEntry.size * written + k) = erasedByte := by
      intro k large small
      rw [byte k small, if_neg (by omega)]
    simp only [isValid, Bool.and_eq_true, beq_iff_eq] at valid
    have noCheck : (readEntry torn (StatusJournalEntry.size * written)).check = 0xffffffff :=
      word_eq (rest 12 (by decide) (by decide)) (rest 13 (by decide) (by decide))
        (rest 14 (by decide) (by decide)) (rest 15 (by decide) (by decide))
    have topError : (readEntry torn
        (StatusJournalEntry.size * written)).errorCode.extractLsb' 24 8 = 0xff := by
      have bytes := wordBytes_word torn.memory (StatusJournalEntry.size * written + 8)
      simp only [wordBytes, List.cons.injEq] at bytes
      exact bytes.2.2.2.1.trans (rest 11 le_rfl (by decide))
    have topStatus : ∀ byte : Byte, (byte.setWidth 32).extractLsb' 24 8 = 0 := by
      intro byte
      ext index bound
      simp only [BitVec.getElem_extractLsb', BitVec.getLsbD_setWidth]
      rw [BitVec.getLsbD_of_ge byte _ (by omega)]
      simp
    have same := congrArg Complement.complement valid.2
    rw [noCheck, valid.1, check, BitVec.not_not] at same
    have top := congrArg (BitVec.extractLsb' 24 8) same
    rw [BitVec.extractLsb'_xor, BitVec.extractLsb'_xor, topError, topStatus] at top
    exact absurd top (by decide)

end StatusJournal

end Bootloader
