import EmbeddedInfra.Bootloader.JournalUnits

/-! What recording a status leaves in the journal, and which resets lose the status. -/

namespace Bootloader

open CrashLogic Hal Function

namespace StatusJournal

variable {δ : Type} [DecidableEq δ] {sectors : δ → Sectors} {journal : δ}
  {device : Device (Memory δ) (FlashOperation δ)} {units written : Nat}
  {memory : Memory δ} {status : UpgradePackStatus} {errorCode : BitVec 32} {performed : Nat}

/-- A device whose journal flash does what it is told. A reset during a write of it leaves a
prefix; an erase of it happens at once. -/
structure Trusted (device : Device (Memory δ) (FlashOperation δ)) (sectors : δ → Sectors)
    (journal : δ) : Prop where
  writes : ∀ {buffer address s t}, device.does (.writeBuffer journal buffer address) s t →
    t = carryOut sectors (.writeBuffer journal buffer address) s
  erases : ∀ {first last s t}, device.does (.eraseSectors journal first last) s t →
    t = carryOut sectors (.eraseSectors journal first last) s
  tears : ∀ {buffer address s t}, device.tears (.writeBuffer journal buffer address) s t →
    PrefixWritten s (.writeBuffer journal buffer address) t
  whole : ∀ {first last s t}, ¬ device.tears (.eraseSectors journal first last) s t

/-- Only the journal differs, and it names the status and the error code. -/
def Holds (journal : δ) (units : Nat) (before : Memory δ)
    (pair : UpgradePackStatus × BitVec 32) (after : Memory δ) : Prop :=
  ∃ contents written, after = update before journal contents ∧
    Filled contents units written ∧ named (latestOf contents written) = pair

theorem Filled.holds (filled : Filled (memory journal) units written) :
    Holds journal units memory (named (latestOf (memory journal) written)) memory :=
  ⟨memory journal, written, (update_eq_self journal memory).symm, filled, rfl⟩

omit [DecidableEq δ] in
theorem Filled.erase (filled : Filled (memory journal) units written)
    (size : (sectors journal).totalSize = StatusJournalEntry.size * units) :
    Filled ((memory journal).erase ((sectors journal).addressOfSector 0)
      ((sectors journal).addressOfSector (sectors journal).numberOfSectors)) units 0 := by
  have last := (sectors journal).totalSize_eq.symm.trans size
  have count : StatusJournalEntry.size * units / programmingUnit = units :=
    Nat.mul_div_cancel_left units (by decide)
  rw [(sectors journal).first, last]
  constructor
  · exact Nat.zero_le _
  · intro unit inUse
    exact absurd inUse (Nat.not_lt_zero _)
  · intro unit _ inside k small
    simp only [Contents.erase]
    rw [if_pos]
    simp only [StatusJournalEntry.size] at small ⊢
    omega
  · intro unit _
    simp only [Contents.erase, count, Nat.zero_div, Nat.zero_le, true_and]
    split
    next => rfl
    next outside => exact filled.fresh unit (le_trans filled.within (Nat.le_of_not_lt outside))
  · intro unit
    simp only [Contents.erase]
    split
    · exact Nat.zero_le _
    · exact filled.once unit

theorem starts_used (status : UpgradePackStatus) (errorCode : BitVec 32) :
    (makeStatusJournalEntry status errorCode).bytes.getD 0 erasedByte ≠ erasedByte := by
  change StatusJournalEntry.validMarker.extractLsb' 0 8 ≠ erasedByte
  decide

omit [DecidableEq δ] in
theorem latestOf_succ_torn (filled : Filled (memory journal) units written)
    (room : written < units) (stored : Nat) :
    let torn := (memory journal).program
      ((makeStatusJournalEntry status errorCode).bytes.take stored)
      (StatusJournalEntry.size * written)
    named (latestOf torn (written + 1)) = named (latestOf (memory journal) written) ∨
      named (latestOf torn (written + 1)) = (status, errorCode) := by
  intro torn
  rw [latestOf]
  split
  next valid => exact Or.inr (named_torn filled room status errorCode stored valid)
  next => exact Or.inl (congrArg named (latestOf_program _ stored))

theorem Filled.torn (filled : Filled (memory journal) units written) (room : written < units)
    (stored : Nat) :
    let torn := update memory journal ((memory journal).program
      ((makeStatusJournalEntry status errorCode).bytes.take stored)
      (StatusJournalEntry.size * written))
    Holds journal units memory (named (latestOf (memory journal) written)) torn ∨
      Holds journal units memory (status, errorCode) torn := by
  rcases Nat.eq_zero_or_pos stored with rfl | some_byte
  · left
    rw [List.take_zero, Contents.program_nil, update_eq_self]
    exact filled.holds
  · have used := filled.program_used room _ (starts_used status errorCode) some_byte
    exact (latestOf_succ_torn filled room stored).imp
      (fun same => ⟨_, _, rfl, used, same⟩) (fun same => ⟨_, _, rfl, used, same⟩)

theorem Filled.whole (filled : Filled (memory journal) units written)
    (room : written < units) :
    Holds journal units memory (status, errorCode)
      (carryOut sectors (.writeBuffer journal (makeStatusJournalEntry status errorCode).bytes
        (StatusJournalEntry.size * written)) memory) := by
  have used := filled.program_used room _ (starts_used status errorCode)
    (by decide : 0 < StatusJournalEntry.size)
  rw [show (makeStatusJournalEntry status errorCode).bytes.take StatusJournalEntry.size =
    (makeStatusJournalEntry status errorCode).bytes from List.take_of_length_le le_rfl] at used
  refine ⟨_, _, rfl, used, ?_⟩
  rw [latestOf, readEntry_program filled room, if_pos (isValid_make status errorCode)]
  rfl

theorem named_of_names {scan : Scan} (names : scan.names status errorCode = true) :
    named scan.latest = (status, errorCode) := by
  obtain ⟨entry, found, same⟩ := (Option.any_eq_true _ _).mp names
  simp only [Bool.and_eq_true, beq_iff_eq] at same
  rw [found, named, same.1, same.2]

theorem eq_empty_of_named {scan : Scan} (other : ¬ scan.names status errorCode = true)
    (same : named scan.latest = (status, errorCode)) : (status, errorCode) = (.empty, 0) := by
  rcases scan with ⟨_ | entry, firstErased⟩
  · exact same.symm
  · apply absurd _ other
    simp only [named, Prod.mk.injEq] at same
    simp only [Scan.names, Option.any_some, ← same.1, ← same.2, beq_self_eq_true, Bool.and_self]

theorem Holds.of_erased {contents : Contents} {pair : UpgradePackStatus × BitVec 32}
    {after : Memory δ}
    (holds : Holds journal units (update memory journal contents) pair after) :
    Holds journal units memory pair after := by
  obtain ⟨last, written, rfl, filled, names⟩ := holds
  exact ⟨last, written, update_idem .., filled, names⟩

theorem Filled.write_safely (trusted : Trusted device sectors journal)
    (filled : Filled (memory journal) units written) (room : written < units)
    {crash : Nat → Memory δ → Prop} {post : Nat → Unit → Memory δ → Prop} {address : Nat}
    (here : address = StatusJournalEntry.size * written)
    (kept : ∀ t, Holds journal units memory (named (latestOf (memory journal) written)) t →
      crash performed t)
    (recorded : ∀ n t, Holds journal units memory (status, errorCode) t →
      crash n t ∧ post n () t) :
    (writeBuffer journal (makeStatusJournalEntry status errorCode).bytes address).Safely device
      crash post performed memory := by
  subst here
  rw [writeBuffer, Program.safely_operate]
  refine ⟨kept _ filled.holds, ?_, ?_⟩
  · intro t tear
    cases trusted.tears tear
    exact (filled.torn room _).elim (kept _) fun holds => (recorded _ _ holds).1
  · intro t does
    rw [trusted.writes does]
    exact recorded _ _ (filled.whole room)

/-- Whatever a reset leaves names what was recorded before or what is being recorded, save
that a full journal is left erased by a reset after its erase. -/
theorem Filled.record_safely (trusted : Trusted device sectors journal)
    (size : (sectors journal).totalSize = StatusJournalEntry.size * units)
    (filled : Filled (memory journal) units written) :
    (record sectors journal status errorCode).Safely device
      (fun n t => Holds journal units memory (named (latestOf (memory journal) written)) t ∨
        Holds journal units memory (status, errorCode) t ∨
        written = units ∧ named (latestOf (memory journal) written) ≠ (status, errorCode) ∧
          n = performed + 1 ∧ Holds journal units memory (.empty, 0) t)
      (fun _ _ t => Holds journal units memory (status, errorCode) t) performed memory := by
  have positive : 0 < units := by
    apply Nat.pos_of_ne_zero
    rintro rfl
    exact absurd size (sectors journal).totalSize_pos.ne'
  rw [record, Program.safely_reading_bind, read_filled size filled]
  by_cases names : Scan.names ⟨latestOf (memory journal) written,
      if written < units then some (StatusJournalEntry.size * written) else none⟩ status
      errorCode = true
  · have same := named_of_names names
    have holds := filled.holds
    rw [if_pos names]
    exact ⟨Or.inl holds, by rwa [same] at holds⟩
  rw [if_neg names]
  by_cases room : written < units
  · simp only [if_pos room]
    apply filled.write_safely trusted room rfl
    · intro t holds
      exact Or.inl holds
    · intro _ t holds
      exact ⟨Or.inr (Or.inl holds), holds⟩
  · -- a full journal is erased before the entry is written
    have full : written = units := le_antisymm filled.within (Nat.le_of_not_lt room)
    simp only [if_neg room]
    have emptied : ∀ t, Holds journal units memory (.empty, 0) t →
        Holds journal units memory (named (latestOf (memory journal) written)) t ∨
          Holds journal units memory (status, errorCode) t ∨
          written = units ∧ named (latestOf (memory journal) written) ≠ (status, errorCode) ∧
            performed + 1 = performed + 1 ∧ Holds journal units memory (.empty, 0) t := by
      intro t holds
      by_cases same : named (latestOf (memory journal) written) = (status, errorCode)
      · exact Or.inr (Or.inl (eq_empty_of_named names same ▸ holds))
      · exact Or.inr (Or.inr ⟨full, same, rfl, holds⟩)
    rw [Program.safely_bind, clear, eraseAll, eraseSectors, Program.safely_operate]
    refine ⟨Or.inl filled.holds, fun t tear => absurd tear trusted.whole, ?_⟩
    intro t does
    rw [trusted.erases does, carryOut]
    have erased := filled.erase size
    have start : update memory journal ((memory journal).erase
        ((sectors journal).addressOfSector 0)
        ((sectors journal).addressOfSector (sectors journal).numberOfSectors)) journal =
        (memory journal).erase ((sectors journal).addressOfSector 0)
          ((sectors journal).addressOfSector (sectors journal).numberOfSectors) :=
      update_self ..
    rw [← start] at erased
    refine ⟨emptied _ ⟨_, 0, rfl, start ▸ erased, rfl⟩, ?_⟩
    apply erased.write_safely trusted positive (Nat.mul_zero _).symm
    · intro u holds
      exact emptied u (holds.of_erased)
    · intro _ u holds
      exact ⟨Or.inr (Or.inl holds.of_erased), holds.of_erased⟩

end StatusJournal

end Bootloader
