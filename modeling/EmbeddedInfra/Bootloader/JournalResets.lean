import EmbeddedInfra.Bootloader.JournalRecords

/-! Which resets during a record lose the status: those after the erase of a full journal. -/

namespace Bootloader

open CrashLogic Hal Function StatusJournalEntry

namespace StatusJournal

variable {δ : Type} [DecidableEq δ] {sectors : δ → Sectors} {journal : δ}
  {units written : Nat} {memory : Memory δ}

inductive Call where
  | record (status : UpgradePackStatus) (errorCode : BitVec 32)
  | clear

def Call.program (sectors : δ → Sectors) (journal : δ) : Call → FlashProgram δ Unit
  | .record status errorCode => StatusJournal.record sectors journal status errorCode
  | .clear => StatusJournal.clear sectors journal

/-- Flashes that do what they are told, where a reset during a write leaves a prefix. -/
def device (sectors : δ → Sectors) : Device (Memory δ) (FlashOperation δ) where
  does := fun operation s t => t = carryOut sectors operation s
  tears := fun operation s t => PrefixWritten s operation t

theorem trusted_device (sectors : δ → Sectors) (journal : δ) :
    Trusted (device sectors) sectors journal where
  writes := id
  erases := id
  tears := id
  whole := nofun

/-- The status and the error code that the journal reads. -/
def held (sectors : δ → Sectors) (journal : δ) (memory : Memory δ) :
    UpgradePackStatus × BitVec 32 :=
  (status (sectors journal).totalSize (memory journal),
    errorCode (sectors journal).totalSize (memory journal))

/-- No unit is left erased. -/
def Full (contents : Contents) (units : Nat) : Prop :=
  ∀ unit, unit < units → ¬ UnitErased contents unit

omit [DecidableEq δ] in
theorem held_of_filled (size : (sectors journal).totalSize = size * units)
    (filled : Filled (memory journal) units written) :
    held sectors journal memory = named (latestOf (memory journal) written) :=
  named_of_filled size filled

theorem held_of_holds (size : (sectors journal).totalSize = size * units)
    {pair : UpgradePackStatus × BitVec 32} {t : Memory δ}
    (holds : Holds journal units memory pair t) : held sectors journal t = pair := by
  obtain ⟨contents, written, rfl, filled, names⟩ := holds
  have self : update memory journal contents journal = contents :=
    update_self ..
  rw [← self] at filled names
  rw [held_of_filled size filled, names]

theorem filled_of_holds {pair : UpgradePackStatus × BitVec 32} {t : Memory δ}
    (holds : Holds journal units memory pair t) : ∃ written, Filled (t journal) units written := by
  obtain ⟨contents, written, rfl, filled, -⟩ := holds
  exact ⟨written, by rwa [update_self]⟩

omit [DecidableEq δ] in
theorem Filled.full_iff (filled : Filled (memory journal) units written) :
    Full (memory journal) units ↔ written = units := by
  constructor
  · intro full
    by_contra different
    have room := lt_of_le_of_ne filled.within different
    exact full written room (filled.free written le_rfl room)
  · rintro rfl
    exact filled.used

theorem filled_erased (units : Nat) : Filled Contents.erased units 0 where
  within := Nat.zero_le _
  used := fun _ inUse => absurd inUse (Nat.not_lt_zero _)
  free := fun _ _ _ _ _ => rfl
  fresh := fun _ _ => rfl
  once := fun _ => Nat.zero_le _

theorem Filled.clear_safely (size : (sectors journal).totalSize = size * units)
    (filled : Filled (memory journal) units written) :
    (StatusJournal.clear sectors journal).Safely (device sectors)
      (fun _ t => ∃ written, Filled (t journal) units written)
      (fun _ _ t => ∃ written, Filled (t journal) units written) 0 memory := by
  rw [StatusJournal.clear, eraseAll, eraseSectors, Program.safely_operate]
  refine ⟨⟨written, filled⟩, by intros; contradiction, ?_⟩
  rintro t rfl
  have erased : Filled (carryOut sectors
      (.eraseSectors journal 0 (sectors journal).numberOfSectors) memory journal) units 0 := by
    rw [carryOut, update_self]
    exact filled.erase size
  exact ⟨⟨0, erased⟩, ⟨0, erased⟩⟩

theorem Call.filled_safely
    (size : (sectors journal).totalSize = size * units) (call : Call)
    (filled : Filled (memory journal) units written) :
    (call.program sectors journal).Safely (device sectors)
      (fun _ t => ∃ written, Filled (t journal) units written)
      (fun _ _ t => ∃ written, Filled (t journal) units written) 0 memory := by
  cases call with
  | clear => exact filled.clear_safely size
  | record status errorCode =>
    apply (filled.record_safely (trusted_device sectors journal) size).mono
    · rintro _ t (old | new | ⟨-, -, -, empty⟩)
      · exact filled_of_holds old
      · exact filled_of_holds new
      · exact filled_of_holds empty
    · intro _ _ t _ new
      exact filled_of_holds new

theorem filled_of_survives
    (size : (sectors journal).totalSize = size * units)
    {start : Memory δ} (fresh : start journal = Contents.erased)
    (reached : Survives (device sectors) (Call.program sectors journal) anywhere start
      memory) : ∃ written, Filled (memory journal) units written := by
  apply reached.invariant
  · exact ⟨0, fresh ▸ filled_erased units⟩
  · intro s call value _ t good ended
    obtain ⟨written, filled⟩ := good
    exact (call.filled_safely size filled).ends ended
  · intro s call _ t good _ reset
    obtain ⟨written, filled⟩ := good
    exact (call.filled_safely size filled).interrupted reset

theorem Filled.interrupted_erased (device : Device (Memory δ) (FlashOperation δ))
    (erases : device.does (.eraseSectors journal 0 (sectors journal).numberOfSectors) memory
      (carryOut sectors (.eraseSectors journal 0 (sectors journal).numberOfSectors) memory))
    (size : (sectors journal).totalSize = size * units)
    (filled : Filled (memory journal) units units) {status : UpgradePackStatus}
    {errorCode : BitVec 32}
    (different : named (latestOf (memory journal) units) ≠ (status, errorCode)) :
    ∃ t, Program.Interrupted device (record sectors journal status errorCode) memory 1 t ∧
      Holds journal units memory (.empty, 0) t := by
  have scan := read_filled size filled
  rw [if_neg (lt_irrefl _)] at scan
  have other : ¬ Scan.names ⟨latestOf (memory journal) units, none⟩ status errorCode = true :=
    fun names => different (named_of_names names)
  refine ⟨_, ?_, ⟨_, 0, rfl, filled.erase size, rfl⟩⟩
  apply Program.Interrupted.query
  change Program.Interrupted _ (if (read (sectors journal).totalSize (memory journal)).names
    status errorCode then pure () else _) _ _ _
  rw [if_neg (by rwa [scan])]
  simp only [scan]
  exact .later erases .here

/-- In every journal that calls and resets lead to, no unit has been programmed twice, and a
reset during a record leaves the old or the new pair exactly if it cannot leave a full
journal erased that names something, while something else is being recorded. -/
theorem reset_keeps_or_records_iff
    (size : (sectors journal).totalSize = StatusJournalEntry.size * units)
    {start : Memory δ} (fresh : start journal = Contents.erased)
    (reached : Survives (device sectors) (Call.program sectors journal) anywhere start
      memory) :
    (∀ unit, (memory journal).programmed unit ≤ 1) ∧
      ∀ status errorCode,
        (∀ performed t,
          Program.Interrupted (device sectors) (record sectors journal status errorCode) memory
            performed t →
          held sectors journal t = held sectors journal memory ∨
            held sectors journal t = (status, errorCode)) ↔
        ¬ (Full (memory journal) units ∧ held sectors journal memory ≠ (status, errorCode) ∧
          held sectors journal memory ≠ (.empty, 0) ∧ (status, errorCode) ≠ (.empty, 0)) := by
  obtain ⟨written, filled⟩ := filled_of_survives size fresh reached
  have before := held_of_filled size filled
  refine ⟨filled.once, ?_⟩
  intro status errorCode
  have trusted := trusted_device sectors journal
  constructor
  · rintro resets ⟨full, different, notEmpty, something⟩
    obtain rfl := filled.full_iff.mp full
    rw [before] at different
    obtain ⟨t, reset, erased⟩ := filled.interrupted_erased (device sectors) rfl size different
    have empty := held_of_holds size erased
    rcases resets 1 t reset with old | new
    · exact notEmpty (old.symm.trans empty)
    · exact something (new.symm.trans empty)
  · intro condition performed t reset
    have safely : (record sectors journal status errorCode).Safely (device sectors) _ _ 0 memory :=
      filled.record_safely trusted size
    rcases safely.interrupted reset with old | new | ⟨full, different, -, empty⟩
    · left
      rw [before]
      exact held_of_holds size old
    · right
      exact held_of_holds size new
    · have same := held_of_holds size empty
      by_contra neither
      rw [not_or] at neither
      apply condition
      refine ⟨filled.full_iff.mpr full, before ▸ different, ?_, ?_⟩
      · intro wasEmpty
        exact neither.1 (same.trans wasEmpty.symm)
      · intro recordsEmpty
        exact neither.2 (same.trans recordsEmpty.symm)

/-- Flash of one sector with room for four entries. -/
def fourUnits : Unit → Sectors := fun _ => homogeneous 1 64 (by decide) (by decide)

theorem fourUnits_size : (fourUnits ()).totalSize = size * 4 := by decide

/-- What calls leave in an erased journal of four units. -/
def afterCalls (calls : List Call) : Memory Unit :=
  calls.foldl (fun s call => (Program.run (carryOut fourUnits) (call.program fourUnits ()) s).2)
    fun _ => Contents.erased

theorem survives_afterCalls (calls : List Call) :
    Survives (device fourUnits) (Call.program fourUnits ()) anywhere
      (fun _ => Contents.erased) (afterCalls calls) :=
  .runs (fun _ _ => rfl) calls .start

/-- A journal with erased units left keeps its status through any reset. -/
theorem reset_keeps_or_records_fourUnits :
    (∀ unit, (afterCalls [.record .downloaded 0] ()).programmed unit ≤ 1) ∧
      ∀ performed t, Program.Interrupted (device fourUnits)
        (record fourUnits () .readyToDeploy 0) (afterCalls [.record .downloaded 0]) performed t →
          held fourUnits () t = held fourUnits () (afterCalls [.record .downloaded 0]) ∨
            held fourUnits () t = (.readyToDeploy, 0) := by
  have result := reset_keeps_or_records_iff fourUnits_size rfl
    (survives_afterCalls [.record .downloaded 0])
  apply And.intro result.1
  apply (result.2 .readyToDeploy 0).mpr
  rintro ⟨full, -⟩
  apply full 3 (by decide)
  unfold UnitErased
  decide +kernel

/-- A reset after the erase of a full journal leaves it empty. -/
theorem reset_loses_fourUnits :
    ∃ memory t : Memory Unit,
      Survives (device fourUnits) (Call.program fourUnits ()) anywhere
        (fun _ => Contents.erased) memory ∧
      Program.Interrupted (device fourUnits) (record fourUnits () .readyToDeploy 0) memory 1 t ∧
      held fourUnits () t ≠ held fourUnits () memory ∧
      held fourUnits () t ≠ (.readyToDeploy, 0) := by
  let memory := afterCalls [.record .downloaded 0, .record .invalid 0, .record .downloaded 0,
    .record .invalid 0]
  have reached : Survives (device fourUnits) _ _ _ memory := survives_afterCalls _
  have names : held fourUnits () memory = (.invalid, 0) := by decide +kernel
  have full : Full (memory ()) 4 := by
    unfold Full UnitErased
    decide +kernel
  obtain ⟨written, filled⟩ := filled_of_survives fourUnits_size rfl reached
  obtain rfl := filled.full_iff.mp full
  have different : named (latestOf (memory ()) 4) ≠ (.readyToDeploy, 0) := by
    rw [← held_of_filled fourUnits_size filled, names]
    decide
  obtain ⟨t, reset, erased⟩ := filled.interrupted_erased (device fourUnits) rfl fourUnits_size
    different
  have empty := held_of_holds fourUnits_size erased
  refine ⟨memory, t, reached, reset, ?_, ?_⟩
  · rw [names, empty]
    decide
  · rw [empty]
    decide

end StatusJournal

end Bootloader
