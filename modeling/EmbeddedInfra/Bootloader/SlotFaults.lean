import EmbeddedInfra.Bootloader.UpgradeSurvives

/-! What a faulty slot flash can make of an installation. The descriptor is that of the bytes
that the slot holds, so that it does not tell whether they are those of the pack. -/

namespace Bootloader

open CrashLogic Hal List Function StatusJournalEntry StatusJournal PackBuilder

namespace BootSequence

variable (boot : BootSequence)

/-- A slot flash that leaves any bytes where it was asked to change some. -/
inductive Faulty (memory : Memory Flash) : FlashOperation Flash → Memory Flash → Prop
  | journalWrite (buffer : List Byte) (address : Nat) :
      Faulty memory (.writeBuffer .journal buffer address)
        (carryOut boot.sectors (.writeBuffer .journal buffer address) memory)
  | journalErase (first last : Nat) :
      Faulty memory (.eraseSectors .journal first last)
        (carryOut boot.sectors (.eraseSectors .journal first last) memory)
  | slotWrite (buffer : List Byte) (address : Nat) (left : Contents)
      (requested : left.requested = ((memory .slot).program buffer address).requested)
      (elsewhere : ∀ i, i < address ∨ address + buffer.length ≤ i →
        left.memory i = (memory .slot).memory i) :
      Faulty memory (.writeBuffer .slot buffer address) (update memory .slot left)
  | slotErase (first last : Nat) (left : Contents)
      (requested : left.requested = ((memory .slot).erase
        ((boot.sectors .slot).addressOfSector first)
        ((boot.sectors .slot).addressOfSector last)).requested)
      (elsewhere : ∀ i, i < (boot.sectors .slot).addressOfSector first ∨
        (boot.sectors .slot).addressOfSector last ≤ i →
        left.memory i = (memory .slot).memory i) :
      Faulty memory (.eraseSectors .slot first last) (update memory .slot left)

/-- The slot flash can do anything within the range of an operation. -/
def faulty : Device (Memory Flash) (FlashOperation Flash) where
  does := fun operation s t => boot.Faulty s operation t
  tears := fun _ _ _ => False

/-- A device whose slot flash is faulty; what it leaves of a byte meets a relation with the
byte that it was asked for. -/
structure Driver (device : Device (Memory Flash) (FlashOperation Flash))
    (leaves : Nat → Byte → Byte → Prop) : Prop where
  does : ∀ {operation s t}, device.does operation s t → boot.Faulty s operation t
  tears : ∀ {operation s t}, ¬ device.tears operation s t
  written : ∀ {buffer address s t}, device.does (.writeBuffer .slot buffer address) s t →
    ∀ k, k < buffer.length →
      leaves (address + k) (buffer.getD k 0) ((t .slot).memory (address + k))

theorem driver_faulty : boot.Driver boot.faulty fun _ _ _ => True where
  does := id
  tears := id
  written := fun _ _ _ => trivial

variable {boot} {device : Device (Memory Flash) (FlashOperation Flash)}
  {leaves : Nat → Byte → Byte → Prop} {performed : Nat} {memory : Memory Flash}

theorem Driver.trusted (driver : boot.Driver device leaves) :
    StatusJournal.Trusted device boot.sectors .journal where
  writes := by
    intro buffer address s t does
    cases driver.does does
    rfl
  erases := by
    intro first last s t does
    cases driver.does does
    rfl
  tears := fun tear => absurd tear driver.tears
  whole := driver.tears

theorem Driver.write (driver : boot.Driver device leaves) {buffer : List Byte} {address : Nat}
    {s t : Memory Flash} (does : device.does (.writeBuffer .slot buffer address) s t) :
    t .journal = s .journal ∧
      (∀ k, k < buffer.length → (t .slot).requested (address + k) = buffer.getD k 0) ∧
      ∀ i, i < address ∨ address + buffer.length ≤ i →
        (t .slot).requested i = (s .slot).requested i ∧
          (t .slot).memory i = (s .slot).memory i := by
  cases driver.does does with
  | slotWrite _ _ left requested elsewhere =>
    refine ⟨rfl, ?_, ?_⟩
    · intro k within
      simp only [update_self, requested, Contents.program, Nat.le_add_right, if_true,
        Nat.add_sub_cancel_left, getD_eq_getElem _ _ within]
    · intro i outside
      simp only [update_self, requested]
      refine ⟨?_, elsewhere i outside⟩
      simp only [Contents.program]
      split
      next after => rw [getD_eq_default _ _ (by omega)]
      next => rfl

theorem Driver.erase (driver : boot.Driver device leaves) {first last : Nat} {s t : Memory Flash}
    (does : device.does (.eraseSectors .slot first last) s t) : t .journal = s .journal := by
  cases driver.does does
  rfl

/-! ### One image -/

section

variable {address : Nat}

/-- The slot has been asked for the first bytes of the image, and what it left of them is as
the relation has it. -/
def AskedTo (boot : BootSequence) (leaves : Nat → Byte → Byte → Prop) (address offset : Nat)
    (slot : Contents) : Prop :=
  ∀ i, i < offset → slot.requested i = (boot.imageAt address).getD i 0 ∧
    leaves i (slot.requested i) (slot.memory i)

/-- The slot has been asked for the image, and for the descriptor of what it holds instead. -/
structure Asked (boot : BootSequence) (leaves : Nat → Byte → Byte → Prop) (address : Nat)
    (slot : Contents) : Prop where
  image : AskedTo boot leaves address (boot.imageSizeAt address) slot
  descriptor : ∀ k, k < imageDescriptorSize →
    slot.requested (boot.slotSize - imageDescriptorSize + k) =
        (boot.descriptorOf address (slot.read 0 (boot.imageSizeAt address))).bytes.getD k 0 ∧
      leaves (boot.slotSize - imageDescriptorSize + k)
        (slot.requested (boot.slotSize - imageDescriptorSize + k))
        (slot.memory (boot.slotSize - imageDescriptorSize + k))
  room : boot.imageSizeAt address ≤ boot.slotSize - imageDescriptorSize

theorem eraseFor_driver (driver : boot.Driver device leaves) (imageSize : BitVec 32) :
    (boot.eraseFor imageSize).Safely device (fun _ _ => True)
      (fun _ _ t => t .journal = memory .journal) performed memory := by
  rw [eraseFor, Program.safely_bind, eraseSectors, Program.safely_operate]
  refine ⟨trivial, fun _ _ => trivial, ?_⟩
  intro t does
  have first := driver.erase does
  refine ⟨trivial, ?_⟩
  split
  · rw [eraseSector, eraseSectors, Program.safely_operate]
    refine ⟨trivial, fun _ _ => trivial, ?_⟩
    intro u second
    exact ⟨trivial, (driver.erase second).trans first⟩
  · exact ⟨trivial, first⟩

theorem copy_driver (driver : boot.Driver device leaves) :
    (boot.copy (imageAddress address) (boot.openImage address).1.imageSize
        (boot.openImage address).2).Safely device (fun _ _ => True)
      (fun _ _ t => t .journal = memory .journal ∧
        AskedTo boot leaves address (boot.imageSizeAt address) (t .slot)) performed memory := by
  rw [copy_eq]
  apply boot.copyFrom_safely address fun offset t =>
    t .journal = memory .journal ∧ AskedTo boot leaves address offset (t .slot)
  · exact fun _ _ _ _ => trivial
  · exact fun _ _ _ _ _ _ _ => trivial
  · rintro offset s t ⟨same, asked⟩ more does
    have size : boot.chunkSize address offset ≤ boot.imageSizeAt address - offset :=
      min_le_right _ _
    have length := boot.length_chunkAt address offset
    obtain ⟨journal, inside, outside⟩ := driver.write does
    refine ⟨journal.trans same, ?_⟩
    intro i before
    rcases Nat.lt_or_ge i offset with earlier | here
    · obtain ⟨requested, kept⟩ := outside i (Or.inl earlier)
      rw [requested, kept]
      exact asked i earlier
    · obtain ⟨k, rfl⟩ := Nat.exists_eq_add_of_le here
      have within : k < (boot.chunkAt address offset).length := by omega
      have present : offset + k < (boot.imageAt address).length := by
        rw [length_imageAt]
        omega
      have left := driver.written does k within
      rw [inside k within]
      refine ⟨?_, left⟩
      rw [getD_eq_getElem _ _ within, boot.getElem_chunkAt address offset k within present,
        getD_eq_getElem _ _ present]
  · omega
  · exact Nat.zero_le _
  · exact ⟨rfl, fun i before => absurd before (Nat.not_lt_zero i)⟩

theorem AskedTo.descriptor (driver : boot.Driver device leaves) {t : Memory Flash}
    (room : boot.imageSizeAt address ≤ boot.slotSize - imageDescriptorSize)
    (asked : AskedTo boot leaves address (boot.imageSizeAt address) (memory .slot))
    (does : device.does (.writeBuffer .slot
      (boot.descriptorOf address ((memory .slot).read 0 (boot.imageSizeAt address))).bytes
      (boot.slotSize - imageDescriptorSize)) memory t) :
    t .journal = memory .journal ∧ Asked boot leaves address (t .slot) := by
  obtain ⟨journal, inside, outside⟩ := driver.write does
  have below : ∀ i, i < boot.imageSizeAt address →
      (t .slot).requested i = (memory .slot).requested i ∧
        (t .slot).memory i = (memory .slot).memory i :=
    fun i before => outside i (Or.inl (lt_of_lt_of_le before room))
  have same : (t .slot).read 0 (boot.imageSizeAt address) =
      (memory .slot).read 0 (boot.imageSizeAt address) := by
    apply Contents.read_congr
    intro k small
    rw [Nat.zero_add]
    exact (below k small).2
  refine ⟨journal, ?_, ?_, room⟩
  · intro i before
    rw [(below i before).1, (below i before).2]
    exact asked i before
  · intro k small
    have within := (boot.length_descriptorOf address
      ((memory .slot).read 0 (boot.imageSizeAt address))).symm ▸ small
    rw [same, inside k within]
    exact ⟨rfl, driver.written does k within⟩

theorem upgrade_driver (driver : boot.Driver device leaves)
    (large : imageDescriptorSize ≤ boot.slotSize) :
    (boot.upgrade (imageAddress address) (boot.openImage address).1.imageSize
        (boot.openImage address).1.destinationAddress (boot.openImage address).2).Safely device
      (fun _ _ => True)
      (fun _ result t => t .journal = memory .journal ∧
        (result = 0 → Asked boot leaves address (t .slot)) ∧
        (boot.ImageFits address → result = 0)) performed memory := by
  by_cases destination : (boot.openImage address).1.destinationAddress = boot.layout.slotBegin
  · by_cases size : boot.sizeFits (boot.openImage address).1.imageSize = true
    · obtain ⟨long, room⟩ := (boot.sizeFits_iff large _).mp size
      have checks := boot.startFitsTarget_eq address long
      by_cases start : boot.startFitsTarget (imageAddress address)
          (boot.openImage address).1.imageSize = true
      · rw [upgrade_eq boot destination size start, Program.safely_bind]
        apply (eraseFor_driver driver _).mono
        · exact fun _ _ => id
        · intro n _ t _ same
          rw [Program.safely_bind]
          apply (copy_driver driver).mono
          · exact fun _ _ => id
          · rintro m - u - ⟨same', asked⟩
            rw [Program.safely_bind]
            apply boot.writeDescriptor_safely address trivial
            rw [writeBuffer, Program.safely_operate]
            refine ⟨trivial, fun _ _ => trivial, ?_⟩
            intro v does
            obtain ⟨same'', complete⟩ := asked.descriptor driver room does
            exact ⟨trivial, trivial, same''.trans (same'.trans same), fun _ => complete,
              fun _ => rfl⟩
      · have refused : boot.startFitsTarget (imageAddress address)
            (boot.openImage address).1.imageSize = false := Bool.eq_false_iff.mpr start
        rw [upgrade, if_neg (not_not.mpr destination), if_neg (by rw [size]; decide),
          if_pos refused]
        exact ⟨trivial, rfl, fun zero => absurd zero (by decide),
          fun fits => absurd (checks.trans fits.start) start⟩
    · rw [upgrade, if_neg (not_not.mpr destination), if_pos (Bool.eq_false_iff.mpr size)]
      exact ⟨trivial, rfl, fun zero => absurd zero (by decide), fun fits => absurd fits.size size⟩
  · rw [upgrade, if_pos destination]
    exact ⟨trivial, rfl, fun zero => absurd zero (by decide),
      fun fits => absurd fits.destination destination⟩

end

/-! ### A run -/

section

variable {units : Nat}

section

variable (driver : boot.Driver device leaves) (size : boot.journalSize = size * units)
  (inOrder : ∃ written, StatusJournal.Filled (memory .journal) units written)

include driver size inOrder

theorem record_driver (status : UpgradePackStatus) (errorCode : BitVec 32) :
    (record boot.sectors .journal status errorCode).Safely device (fun _ _ => True)
      (fun _ _ t => Reads units (status, errorCode) (t .journal) ∧ t .slot = memory .slot)
      performed memory := by
  obtain ⟨written, filled⟩ := inOrder
  apply (filled.record_safely driver.trusted size).mono
  · exact fun _ _ _ => trivial
  · intro _ _ t _ holds
    exact reads_of_holds holds

theorem markAsError_driver (errorCode : BitVec 32) :
    (boot.markAsError errorCode).Safely device (fun _ _ => True)
      (fun _ _ t => Reads units (.invalid, errorCode) (t .journal)) performed memory := by
  rw [markAsError, writeStatus, Program.safely_bind]
  apply (record_driver driver size inOrder .invalid 0).mono
  · exact fun _ _ => id
  · rintro n - t - ⟨reads, -⟩
    have status := reads.status size
    obtain ⟨written, filled, -⟩ := reads
    rw [writeError, journalStatus, Program.safely_reading_bind, status]
    apply (record_driver driver size ⟨written, filled⟩ .invalid errorCode).mono
    · exact fun _ _ => id
    · rintro _ - u - ⟨reads, -⟩
      exact reads

end

/-- The images have been refused, or the last one has been installed. -/
def Settled (boot : BootSequence) (units : Nat) (leaves : Nat → Byte → Byte → Prop)
    (memory : Memory Flash) : Prop :=
  (∃ errorCode, Reads units (.invalid, errorCode) (memory .journal)) ∨
    Reads units (.deployed, 0) (memory .journal) ∧
      Asked boot leaves (boot.imageNumber (boot.numberOfImages - 1)) (memory .slot)

section

variable (driver : boot.Driver device leaves) (size : boot.journalSize = size * units)
  (large : imageDescriptorSize ≤ boot.slotSize)
  (inOrder : ∃ written, StatusJournal.Filled (memory .journal) units written)

include driver size large inOrder

theorem tryUpgradeImage_driver (address : Nat) :
    (boot.tryUpgradeImage address).Safely device (fun _ _ => True)
      (fun _ upgraded t =>
        (upgraded = true → t .journal = memory .journal ∧ Asked boot leaves address (t .slot)) ∧
        (upgraded = false → ∃ errorCode, Reads units (.invalid, errorCode) (t .journal)) ∧
        (boot.ImageFits address → upgraded = true)) performed memory := by
  rw [tryUpgradeImage]
  split
  next name =>
    rw [Program.safely_bind]
    apply (upgrade_driver driver large).mono
    · exact fun _ _ => id
    · rintro n result t - ⟨same, asked, fits⟩
      split
      next failed =>
        rw [Program.safely_bind]
        apply (markAsError_driver driver size (same ▸ inOrder) result).mono
        · exact fun _ _ => id
        · intro _ _ u _ reads
          exact ⟨trivial, by simp, fun _ => ⟨result, reads⟩,
            fun imageFits => absurd (fits imageFits) failed⟩
      next done =>
        exact ⟨trivial, fun _ => ⟨same, asked (not_not.mp done)⟩, by simp, fun _ => rfl⟩
  next other =>
    rw [Program.safely_bind]
    apply (markAsError_driver driver size inOrder _).mono
    · exact fun _ _ => id
    · intro _ _ u _ reads
      exact ⟨trivial, by simp, fun _ => ⟨_, reads⟩, fun imageFits => absurd imageFits.name other⟩

theorem upgradeImages_driver (images number : Nat) (rest : number + images = boot.numberOfImages)
    (some_image : 0 < images) :
    (boot.upgradeImages images (boot.imageNumber number)).Safely device (fun _ _ => True)
      (fun _ _ t => Settled boot units leaves t ∧
        (boot.ValidPack → Reads units (.deployed, 0) (t .journal))) performed memory := by
  induction images generalizing number performed memory with
  | zero => exact absurd some_image (Nat.lt_irrefl 0)
  | succ images ih =>
    rw [upgradeImages, Program.safely_bind]
    apply (tryUpgradeImage_driver driver size large inOrder (boot.imageNumber number)).mono
    · exact fun _ _ => id
    · rintro n upgraded t - ⟨installed, refused, fits⟩
      split
      next yes =>
        obtain ⟨same, asked⟩ := installed yes
        rcases Nat.eq_zero_or_pos images with rfl | more
        · have last : number = boot.numberOfImages - 1 := by omega
          rw [upgradeImages, writeStatus]
          apply (record_driver driver size (same ▸ inOrder) .deployed 0).mono
          · exact fun _ _ => id
          · rintro _ _ u - ⟨reads, slot⟩
            exact ⟨Or.inr ⟨reads, by rw [slot, ← last]; exact asked⟩, fun _ => reads⟩
        · exact ih (same ▸ inOrder) (number + 1) (by omega) more
      next no =>
        have invalid := refused (Bool.eq_false_iff.mpr no)
        exact ⟨trivial, Or.inl invalid,
          fun pack => absurd (fits (pack.fits number (by omega))) no⟩

end

variable {pair : UpgradePackStatus × BitVec 32}

theorem load_driver (driver : boot.Driver device leaves)
    (size : boot.journalSize = size * units)
    (reads : Reads units pair (memory .journal))
    (requested : pair.1 = .readyToDeploy ∨ pair.1 = .deployStarted) :
    boot.load.Safely device (fun _ _ => True)
      (fun _ loaded t => (loaded = true → t = memory) ∧
        (loaded = false → ∃ pair, Reads units pair (t .journal) ∧ pair.1 ≠ .deployed) ∧
        (boot.Verified → loaded = true)) performed memory := by
  by_cases verified : boot.Verified
  · apply load_safely verified
    · rwa [reads.status size]
    · trivial
    · exact ⟨fun _ => rfl, nofun, fun _ => rfl⟩
  -- every other pack is refused, with an error or without
  have refuse : ∀ errorCode, Program.Safely device (fun _ _ => True)
      (fun _ loaded t => (loaded = true → t = memory) ∧
        (loaded = false → ∃ pair, Reads units pair (t .journal) ∧ pair.1 ≠ .deployed) ∧
        (boot.Verified → loaded = true))
      (boot.markAsError errorCode >>= fun _ => pure false) performed memory := by
    intro errorCode
    obtain ⟨written, filled, -⟩ := reads
    rw [Program.safely_bind]
    apply (markAsError_driver driver size ⟨written, filled⟩ errorCode).mono
    · exact fun _ _ => id
    · intro _ _ t _ invalid
      exact ⟨trivial, nofun, fun _ => ⟨_, invalid, (by decide : UpgradePackStatus.invalid ≠ _)⟩,
        fun ok => absurd ok verified⟩
  rw [load, journalStatus, Program.safely_reading_bind]
  split
  next sane =>
    dsimp only
    split
    · exact refuse _
    next version =>
      split
      · exact refuse _
      next name =>
        split
        · exact refuse _
        next signature =>
          exact absurd ⟨sane.2, not_not.mp version, not_not.mp name,
            Bool.not_eq_false _ ▸ signature⟩ verified
  next =>
    have notDeployed : pair.1 ≠ .deployed := by
      rcases requested with ready | started
      · rw [ready]
        decide
      · rw [started]
        decide
    exact ⟨trivial, nofun, fun _ => ⟨pair, reads, notDeployed⟩, fun ok => absurd ok verified⟩

/-- What a run comes to: only an installation records that it is complete, a valid pack is
always recorded so, and the slot is started exactly if it can be. -/
structure Outcomes (boot : BootSequence) (leaves : Nat → Byte → Byte → Prop) (outcome : Outcome)
    (memory : Memory Flash) : Prop where
  asked : StatusJournal.status boot.journalSize (memory .journal) = .deployed →
    Asked boot leaves (boot.imageNumber (boot.numberOfImages - 1)) (memory .slot)
  deployed : boot.ValidPack →
    StatusJournal.status boot.journalSize (memory .journal) = .deployed
  starts : outcome = .start boot.layout.slotBegin ↔ boot.startable memory = true

theorem startOrHalt_driver
    (asked : status boot.journalSize (memory .journal) = .deployed →
      Asked boot leaves (boot.imageNumber (boot.numberOfImages - 1)) (memory .slot))
    (deployed : boot.ValidPack →
      status boot.journalSize (memory .journal) = .deployed) :
    boot.startOrHalt.Safely device (fun _ _ => True)
      (fun _ outcome t => Outcomes boot leaves outcome t) performed memory := by
  rw [startOrHalt, Program.safely_reading_bind]
  split
  next yes => exact ⟨trivial, asked, deployed, iff_of_true rfl yes⟩
  next no => exact ⟨trivial, asked, deployed, iff_of_false (by simp) no⟩

section

variable (driver : boot.Driver device leaves) (size : boot.journalSize = size * units)
  (large : imageDescriptorSize ≤ boot.slotSize) (images : boot.numberOfImages ≠ 0)
  (reads : Reads units pair (memory .journal))

include driver size large images reads

theorem upgradeFromImages_driver (requested : pair.1 ≠ .deployed) :
    boot.upgradeFromImages.Safely device (fun _ _ => True)
      (fun _ _ t =>
        (status boot.journalSize (t .journal) = .deployed →
          Asked boot leaves (boot.imageNumber (boot.numberOfImages - 1)) (t .slot)) ∧
        (boot.ValidPack → status boot.journalSize (t .journal) = .deployed))
      performed memory := by
  rw [upgradeFromImages]
  split
  next magic =>
    refine ⟨trivial, ?_, fun pack => absurd pack.magic magic⟩
    rw [reads.status size]
    exact fun deployed => absurd deployed requested
  next =>
    obtain ⟨written, filled, -⟩ := reads
    rw [Program.safely_bind, writeStatus]
    apply (record_driver driver size ⟨written, filled⟩ .deployStarted 0).mono
    · exact fun _ _ => id
    · rintro n - t - ⟨⟨written, filled, -⟩, -⟩
      dsimp only
      split
      next version =>
        apply (markAsError_driver driver size ⟨written, filled⟩ _).mono
        · exact fun _ _ => id
        · intro _ _ u _ invalid
          refine ⟨?_, fun pack => absurd pack.headerVersion version⟩
          rw [invalid.status size]
          exact fun deployed => absurd deployed (by decide : UpgradePackStatus.invalid ≠ _)
      next =>
        apply (upgradeImages_driver driver size large ⟨written, filled⟩ boot.numberOfImages 0
          (Nat.zero_add _) (Nat.pos_of_ne_zero images)).mono
        · exact fun _ _ => id
        · rintro _ _ u - ⟨⟨errorCode, invalid⟩ | ⟨reads, asked⟩, deployed⟩
          · refine ⟨?_, fun pack => (deployed pack).status size⟩
            rw [invalid.status size]
            exact fun deployed => absurd deployed (by decide : UpgradePackStatus.invalid ≠ _)
          · exact ⟨fun _ => asked, fun _ => reads.status size⟩

theorem run_driver (requested : pair.1 = .readyToDeploy ∨ pair.1 = .deployStarted) :
    boot.run.Safely device (fun _ _ => True)
      (fun _ outcome t => Outcomes boot leaves outcome t) performed memory := by
  have status : status boot.journalSize (memory .journal) = .readyToDeploy ∨
      status boot.journalSize (memory .journal) = .deployStarted := by
    rwa [reads.status size]
  have notDeployed : pair.1 ≠ .deployed := by
    rcases requested with ready | started
    · rw [ready]
      decide
    · rw [started]
      decide
  rw [run, installRequested, journalStatus, Program.safely_bind, Program.safely_reading_bind,
    Program.safely_pure]
  refine ⟨trivial, ?_⟩
  rw [if_pos (decide_eq_true status), Program.safely_bind, install, Program.safely_bind]
  apply (load_driver driver size reads requested).mono
  · exact fun _ _ => id
  · rintro n loaded t - ⟨loads, refuses, verified⟩
    split
    next yes =>
      obtain rfl := loads yes
      apply (upgradeFromImages_driver driver size large images reads notDeployed).mono
      · exact fun _ _ => id
      · rintro _ _ u - ⟨asked, deployed⟩
        exact startOrHalt_driver asked deployed
    next no =>
      obtain ⟨pair, reads, notDeployed⟩ := refuses (Bool.eq_false_iff.mpr no)
      refine ⟨trivial, startOrHalt_driver ?_ fun pack => absurd (verified pack.toVerified) no⟩
      rw [reads.status size]
      exact fun deployed => absurd deployed notDeployed

end

def descriptorIn (boot : BootSequence) (slot : Contents) : ImageDescriptor :=
  readImageDescriptor slot (boot.slotSize - imageDescriptorSize)

def descriptorAsked (boot : BootSequence) (slot : Contents) : ImageDescriptor :=
  boot.descriptorIn { slot with memory := slot.requested }

/-- What the faults of the flash left passes for an image: the descriptor that was asked for,
or one that has been turned into that of another size. -/
inductive Unnoticed (boot : BootSequence) (slot : Contents) : Prop
  | kept (magic : (boot.descriptorIn slot).magic = (boot.descriptorAsked slot).magic)
      (imageSize : (boot.descriptorIn slot).imageSize = (boot.descriptorAsked slot).imageSize)
      (sha256 : (boot.descriptorIn slot).sha256 = (boot.descriptorAsked slot).sha256)
      (fits : imageStartFitsTarget (slot.read 0 boot.newImage.length) boot.layout boot.target =
        true)
  | resized (magic : (boot.descriptorIn slot).magic = (boot.descriptorAsked slot).magic)
      (imageSize : (boot.descriptorIn slot).imageSize ≠ (boot.descriptorAsked slot).imageSize)
      (room : (boot.descriptorIn slot).imageSize.toNat ≤ boot.slotSize - imageDescriptorSize)
      (sha256 : (boot.descriptorIn slot).sha256 =
        (boot.sha256 (slot.read 0 (boot.descriptorIn slot).imageSize.toNat)).toList)
      (fits : imageStartFitsTarget (slot.read 0 (boot.descriptorIn slot).imageSize.toNat)
        boot.layout boot.target = true)

theorem Asked.descriptorAsked_eq {address : Nat}
    (asked : Asked boot leaves address (memory .slot)) :
    boot.descriptorAsked (memory .slot) =
      boot.descriptorOf address ((memory .slot).read 0 (boot.imageSizeAt address)) :=
  boot.readImageDescriptor_descriptorOf fun k small => (asked.descriptor k small).1

theorem Asked.startable_iff
    (asked : Asked boot leaves (boot.imageNumber (boot.numberOfImages - 1)) (memory .slot))
    (large : imageDescriptorSize ≤ boot.slotSize) :
    boot.startable memory = true ↔ Unnoticed boot (memory .slot) := by
  have length : boot.newImage.length =
      boot.imageSizeAt (boot.imageNumber (boot.numberOfImages - 1)) := length_imageAt _ _
  have requested := asked.descriptorAsked_eq
  have magic := congrArg ImageDescriptor.magic requested
  have imageSize := congrArg ImageDescriptor.imageSize requested
  have sha256 := congrArg ImageDescriptor.sha256 requested
  simp only [descriptorOf] at magic imageSize sha256
  have imageSize_toNat : (boot.descriptorAsked (memory .slot)).imageSize.toNat =
      boot.imageSizeAt (boot.imageNumber (boot.numberOfImages - 1)) := by
    rw [imageSize, imageSizeAt]
  rw [BootSequence.startable, applicationIsStartable_iff large rfl, ← descriptorIn]
  constructor
  · rintro ⟨started, room, hash, fits⟩
    by_cases same : (boot.descriptorIn (memory .slot)).imageSize =
        (boot.descriptorAsked (memory .slot)).imageSize
    · rw [same, imageSize_toNat] at hash fits
      rw [← length] at fits
      exact .kept (started.trans magic.symm) same (hash.symm.trans sha256.symm) fits
    · exact .resized (started.trans magic.symm) same room hash.symm fits
  · intro unnoticed
    cases unnoticed with
    | kept sameMagic same sameHash fits =>
      rw [sameMagic, sameHash, same, imageSize_toNat, sha256]
      rw [length] at fits
      exact ⟨magic, asked.room, rfl, fits⟩
    | resized sameMagic other room hash fits =>
      exact ⟨sameMagic.trans magic, room, hash.symm, fits⟩

theorem Asked.read_eq_iff {address : Nat} (asked : Asked boot leaves address (memory .slot)) :
    (memory .slot).read 0 (boot.imageSizeAt address) = boot.imageAt address ↔
      ∀ i, i < boot.imageSizeAt address → (memory .slot).memory i = (memory .slot).requested i := by
  constructor
  · intro same i before
    have inside : i < (boot.imageAt address).length := by rwa [length_imageAt]
    have within : i < ((memory .slot).read 0 (boot.imageSizeAt address)).length := by
      rwa [Contents.length_read]
    calc
      (memory .slot).memory i = (memory .slot).memory (0 + i) := by rw [Nat.zero_add]
      _ = ((memory .slot).read 0 (boot.imageSizeAt address))[i] :=
        (Contents.getElem_read _ _ _ _ within).symm
      _ = (boot.imageAt address)[i] := getElem_of_eq same within
      _ = (memory .slot).requested i := by
        rw [(asked.image i before).1, getD_eq_getElem _ _ inside]
  · intro kept
    apply ext_getElem
    · rw [Contents.length_read, length_imageAt]
    · intro i within inside
      rw [Contents.length_read] at within
      rw [Contents.getElem_read, Nat.zero_add, kept i within, (asked.image i within).1,
        getD_eq_getElem _ _ inside]

end

/-! ### A flash that holds something else -/

/-- A slot flash that stores another image in place of whatever it is given for it. -/
def substitute (boot : BootSequence) (other : List Byte) :
    FlashOperation Flash → Memory Flash → Memory Flash
  | .writeBuffer .slot buffer address, memory =>
    update memory .slot
      { (memory .slot).program buffer address with
        memory := fun i =>
          if address ≤ i ∧ i < address + buffer.length then
            if i < other.length then other.getD i 0 else buffer.getD (i - address) 0
          else (memory .slot).memory i }
  | operation, memory => carryOut boot.sectors operation memory

def substituting (boot : BootSequence) (other : List Byte) :
    Device (Memory Flash) (FlashOperation Flash) where
  does := fun operation s t => t = boot.substitute other operation s
  tears := fun _ _ _ => False

theorem driver_substituting (other : List Byte) :
    boot.Driver (boot.substituting other) fun i requested left =>
      left = if i < other.length then other.getD i 0 else requested where
  does := by
    rintro operation s t rfl
    cases operation with
    | writeBuffer flash buffer address =>
      cases flash with
      | journal => exact .journalWrite buffer address
      | slot =>
        apply Faulty.slotWrite
        · rfl
        · intro i outside
          exact if_neg (by omega)
    | eraseSectors flash first last =>
      cases flash with
      | journal => exact .journalErase first last
      | slot =>
        apply Faulty.slotErase
        · rfl
        · intro i outside
          exact if_neg (by omega)
  tears := id
  written := by
    rintro buffer address s t rfl k within
    simp only [substitute, update_self]
    rw [if_pos ⟨Nat.le_add_right _ _, by omega⟩, Nat.add_sub_cancel_left]

/-- Whatever image of the same size fits the target, there is a flash behaviour with which a
valid pack is recorded as installed and that image is started. -/
theorem substituted_starts {units : Nat}
    (size : boot.journalSize = size * units) (pack : boot.ValidPack)
    (large : imageDescriptorSize ≤ boot.slotSize) {other : List Byte}
    (length : other.length = boot.newImage.length)
    (fits : imageStartFitsTarget other boot.layout boot.target = true)
    {pair : UpgradePackStatus × BitVec 32} (reads : Reads units pair (memory .journal))
    (requested : pair.1 = .readyToDeploy ∨ pair.1 = .deployStarted) :
    ∃ performed t, Program.Ends boot.faulty boot.run memory (.start boot.layout.slotBegin)
        performed t ∧
      status boot.journalSize (t .journal) = .deployed ∧
      boot.startable t = true ∧ (t .slot).read 0 other.length = other := by
  have does : ∀ operation s,
      (boot.substituting other).does operation s (boot.substitute other operation s) :=
    fun _ _ => rfl
  obtain ⟨_, substituted⟩ := Program.ends_run does boot.run memory
  have allowed : ∀ operation s, boot.faulty.does operation s (boot.substitute other operation s) :=
    fun operation s => (driver_substituting other).does (does operation s)
  obtain ⟨performed, ended⟩ := Program.ends_run allowed boot.run memory
  have safely : boot.run.Safely (boot.substituting other) _ _ 0 memory :=
    run_driver (driver_substituting other) size large pack.images reads requested
  have outcomes := safely.ends substituted
  have deployed := outcomes.deployed pack
  have asked := outcomes.asked deployed
  have started := outcomes.starts
  generalize Program.run (boot.substitute other) boot.run memory = result at *
  rcases result with ⟨outcome, t⟩
  rw [newImage, length_imageAt] at length
  have held : (t .slot).read 0 other.length = other := by
    apply ext_getElem
    · rw [Contents.length_read]
    · intro i _ inside
      have left := (asked.image i (length ▸ inside)).2
      rw [if_pos inside, getD_eq_getElem _ _ inside] at left
      rw [Contents.getElem_read, Nat.zero_add, left]
  have kept : boot.descriptorIn (t .slot) = boot.descriptorAsked (t .slot) := by
    rw [asked.descriptorAsked_eq]
    apply boot.readImageDescriptor_descriptorOf
    intro k small
    have left := (asked.descriptor k small).2
    have room := asked.room
    rw [if_neg (by omega)] at left
    exact left.trans (asked.descriptor k small).1
  have startable : boot.startable t = true := by
    apply (asked.startable_iff large).mpr
    apply Unnoticed.kept
    · rw [kept]
    · rw [kept]
    · rw [kept]
    · rw [newImage, length_imageAt, ← length, held]
      exact fits
  obtain rfl := started.mpr startable
  exact ⟨performed, t, ended, deployed, startable, held⟩

/-- The calls that stage a pack in an erased journal. -/
def stagingCalls : List StatusJournal.Call := [.record .downloaded 0, .record .readyToDeploy 0]

theorem staged_stagingCalls : status smallTarget.journalSize
    (smallFlash stagingCalls .journal) = .readyToDeploy := by decide +kernel

theorem length_newImage_smallTarget :
    smallTarget.newImage.length = (imageOf 2).length := by
  rw [validPack_smallTarget.2, length_imageOf, length_imageOf]

theorem substituted_smallTarget :
    ∃ (performed : Nat) (t : Memory Flash),
      Program.Ends smallTarget.faulty smallTarget.run
        (smallFlash stagingCalls) (.start smallTarget.layout.slotBegin) performed t ∧
      status smallTarget.journalSize (t .journal) = .deployed ∧
      smallTarget.startable t = true ∧
      (t .slot).read 0 (imageOf 2).length = imageOf 2 := by
  obtain ⟨pack, -⟩ := validPack_smallTarget
  obtain ⟨written, filled⟩ := filled_smallFlash stagingCalls
  have reads : Reads 4 _ (smallFlash stagingCalls .journal) := ⟨written, filled, rfl⟩
  have staged := staged_stagingCalls
  rw [reads.status journalSize_smallTarget] at staged
  have fits : imageStartFitsTarget (imageOf 2) smallTarget.layout
      smallTarget.target = true := by
    decide +kernel
  have large : imageDescriptorSize ≤ smallTarget.slotSize := by
    rw [slotSize_smallTarget]
    decide
  exact substituted_starts journalSize_smallTarget pack large
    length_newImage_smallTarget.symm fits reads (Or.inl staged)

theorem other_ne_newImage : imageOf 2 ≠ smallTarget.newImage := by
  rw [validPack_smallTarget.2]
  decide +kernel

end BootSequence

end Bootloader
