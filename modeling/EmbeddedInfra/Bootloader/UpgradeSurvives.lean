import EmbeddedInfra.Bootloader.JournalResets
import EmbeddedInfra.Bootloader.PackBuilder

/-! An upgrade survives resets: as long as no reset falls between the erase of a full journal
and the entry that replaces it, the slot can be started or the next run installs again. -/

namespace Bootloader

open CrashLogic Hal List Function Contents StatusJournalEntry PackBuilder

/-- What a reset leaves in the middle of an operation: a prefix of a journal entry, anything
in the slot. -/
inductive Torn (memory : Memory Flash) : FlashOperation Flash → Memory Flash → Prop
  | journal (buffer : List Byte) (address stored : Nat) :
      Torn memory (.writeBuffer .journal buffer address)
        (update memory .journal
          ((memory .journal).program (buffer.take stored) address))
  | slotWrite (buffer : List Byte) (address : Nat) (left : Contents) :
      Torn memory (.writeBuffer .slot buffer address) (update memory .slot left)
  | slotErase (first last : Nat) (left : Contents) :
      Torn memory (.eraseSectors .slot first last) (update memory .slot left)

namespace BootSequence

variable (boot : BootSequence)

def device : Device (Memory Flash) (FlashOperation Flash) where
  does := fun operation s t => t = carryOut boot.sectors operation s
  tears := fun operation s t => Torn s operation t

theorem trusted_device : StatusJournal.Trusted boot.device boot.sectors .journal where
  writes := id
  erases := id
  tears := by
    rintro buffer address s t ⟨⟩
    exact .writeBuffer ..
  whole := nofun

/-- The descriptor lies in one sector, which the installer erases as the descriptor's. -/
def DescriptorInOneSector : Prop :=
  boot.slotSize ≤ (boot.sectors .slot).addressOfSector
    ((boot.sectors .slot).sectorOfAddress (boot.slotSize - imageDescriptorSize) + 1)

variable {boot} {crash : Nat → Memory Flash → Prop} {performed : Nat} {memory : Memory Flash}

theorem torn_write {buffer : List Byte} {address : Nat} {s t : Memory Flash}
    (torn : boot.device.tears (.writeBuffer .slot buffer address) s t) :
    t .journal = s .journal := by
  cases torn
  rfl

theorem torn_erase {first last : Nat} {s t : Memory Flash}
    (torn : boot.device.tears (.eraseSectors .slot first last) s t) :
    t .journal = s .journal := by
  cases torn
  rfl

section

variable {address : Nat}

/-- The bytes that the installation has still to write are erased. -/
def ErasedFrom (boot : BootSequence) (address offset : Nat) (slot : Contents) : Prop :=
  (∀ i, offset ≤ i → i < boot.imageSizeAt address → slot.memory i = erasedByte) ∧
    ∀ i, boot.slotSize - imageDescriptorSize ≤ i → i < boot.slotSize → slot.memory i = erasedByte

theorem eraseFor_safely (large : imageDescriptorSize ≤ boot.slotSize)
    (together : boot.DescriptorInOneSector) (long : 0 < boot.imageSizeAt address)
    (short : boot.imageSizeAt address ≤ boot.slotSize - imageDescriptorSize)
    (safe : ∀ n t, t .journal = memory .journal → crash n t) :
    (boot.eraseFor (boot.openImage address).1.imageSize).Safely boot.device crash
      (fun _ _ t => t .journal = memory .journal ∧ ErasedFrom boot address 0 (t .slot))
      performed memory := by
  have positive : 0 < imageDescriptorSize := by decide
  have lastByte : boot.imageSizeAt address - 1 < (boot.sectors .slot).totalSize := by
    change _ < boot.slotSize
    omega
  have imageEnd : boot.imageSizeAt address ≤ (boot.sectors .slot).addressOfSector
      ((boot.sectors .slot).sectorOfAddress (boot.imageSizeAt address - 1) + 1) := by
    have next := (boot.sectors .slot).lt_next lastByte
    omega
  have descriptorStart : boot.slotSize - imageDescriptorSize < (boot.sectors .slot).totalSize := by
    change _ < boot.slotSize
    omega
  have descriptorSector := (boot.sectors .slot).start_le descriptorStart
  rw [eraseFor, Program.safely_bind, eraseSectors, Program.safely_operate]
  refine ⟨safe _ _ rfl, fun t tear => safe _ t (torn_erase tear), ?_⟩
  rintro t rfl
  have first := (boot.sectors .slot).first
  refine ⟨safe _ _ rfl, ?_⟩
  split
  next apart =>
    rw [eraseSector, eraseSectors, Program.safely_operate]
    refine ⟨safe _ _ rfl, fun t tear => safe _ t ((torn_erase tear).trans rfl), ?_⟩
    rintro t rfl
    refine ⟨safe _ _ rfl, rfl, ?_, ?_⟩
    · intro i _ inside
      simp only [carryOut, update_self]
      apply erase_keeps
      apply erase_inside
      · exact first.trans_le (Nat.zero_le i)
      · exact lt_of_lt_of_le inside imageEnd
    · intro i after before
      simp only [carryOut, update_self]
      apply erase_inside
      · exact le_trans descriptorSector after
      · exact lt_of_lt_of_le before together
  next joined =>
    have covered := (boot.sectors .slot).addressOfSector_mono
      (Nat.succ_le_succ (Nat.le_of_not_lt joined))
    refine ⟨safe _ _ rfl, rfl, ?_, ?_⟩
    · intro i _ inside
      simp only [carryOut, update_self]
      apply erase_inside
      · exact first.trans_le (Nat.zero_le i)
      · exact lt_of_lt_of_le inside imageEnd
    · intro i _ before
      simp only [carryOut, update_self]
      apply erase_inside
      · exact first.trans_le (Nat.zero_le i)
      · exact lt_of_lt_of_le before (le_trans together covered)

def CopiedTo (boot : BootSequence) (address offset : Nat) (slot : Contents) : Prop :=
  (∀ i, i < offset → slot.memory i = (boot.imageAt address).getD i 0) ∧
    ErasedFrom boot address offset slot

theorem CopiedTo.program {offset : Nat} {slot : Contents}
    (short : boot.imageSizeAt address ≤ boot.slotSize - imageDescriptorSize)
    (copied : CopiedTo boot address offset slot) (more : offset < boot.imageSizeAt address) :
    CopiedTo boot address (offset + boot.chunkSize address offset)
      (slot.program (boot.chunkAt address offset) offset) := by
  have size : boot.chunkSize address offset ≤ boot.imageSizeAt address - offset :=
    min_le_right _ _
  have length := boot.length_chunkAt address offset
  refine ⟨?_, ?_, ?_⟩
  · intro i before
    rcases Nat.lt_or_ge i offset with earlier | here
    · rw [program_before _ earlier]
      exact copied.1 i earlier
    · obtain ⟨k, rfl⟩ := Nat.exists_eq_add_of_le here
      have within : k < (boot.chunkAt address offset).length := by omega
      have inside : offset + k < (boot.imageAt address).length := by
        rw [length_imageAt]
        omega
      rw [program_erased _ within (copied.2.1 _ here (by omega)),
        boot.getElem_chunkAt address offset k within inside, getD_eq_getElem _ _ inside]
  · intro i after inside
    rw [program_after _ (by omega)]
    exact copied.2.1 i (by omega) inside
  · intro i after inside
    rw [program_after _ (by omega)]
    exact copied.2.2 i after inside

theorem copy_safely
    (short : boot.imageSizeAt address ≤ boot.slotSize - imageDescriptorSize)
    (safe : ∀ n t, t .journal = memory .journal → crash n t)
    (copied : CopiedTo boot address 0 (memory .slot)) :
    (boot.copy (imageAddress address) (boot.openImage address).1.imageSize
        (boot.openImage address).2).Safely boot.device crash
      (fun _ _ t => t .journal = memory .journal ∧
        CopiedTo boot address (boot.imageSizeAt address) (t .slot)) performed memory := by
  rw [copy_eq]
  apply boot.copyFrom_safely address fun offset t =>
    t .journal = memory .journal ∧ CopiedTo boot address offset (t .slot)
  · intro n offset s inv
    exact safe n s inv.1
  · intro n offset s t inv _ tear
    exact safe n t ((torn_write tear).trans inv.1)
  · rintro offset s t ⟨same, before⟩ more rfl
    exact ⟨same, before.program short more⟩
  · omega
  · exact Nat.zero_le _
  · exact ⟨rfl, copied⟩

theorem read_copied {slot : Contents}
    (copied : ∀ i, i < boot.imageSizeAt address →
      slot.memory i = (boot.imageAt address).getD i 0) :
    slot.read 0 (boot.imageSizeAt address) = boot.imageAt address := by
  apply ext_getElem
  · rw [length_read, length_imageAt]
  · intro k within inside
    rw [length_read] at within
    rw [getElem_read, Nat.zero_add, copied k within, getD_eq_getElem _ _ inside]

theorem CopiedTo.holdsImage {slot : Contents} (large : imageDescriptorSize ≤ boot.slotSize)
    (short : boot.imageSizeAt address ≤ boot.slotSize - imageDescriptorSize)
    (start : imageStartFitsTarget (boot.imageAt address) boot.layout boot.target = true)
    (copied : CopiedTo boot address (boot.imageSizeAt address) slot) :
    HoldsImage boot.sha256
      (slot.program (boot.descriptorOf address (slot.read 0 (boot.imageSizeAt address))).bytes
        (boot.slotSize - imageDescriptorSize)) boot.slotSize boot.layout boot.target
      (boot.imageAt address) := by
  have message := read_copied copied.1
  rw [message]
  have image : (slot.program (boot.descriptorOf address (boot.imageAt address)).bytes
      (boot.slotSize - imageDescriptorSize)).read 0 (boot.imageSizeAt address) =
      boot.imageAt address := by
    apply read_copied
    intro i inside
    rw [program_before _ (lt_of_lt_of_le inside short)]
    exact copied.1 i inside
  have stored : readImageDescriptor
      (slot.program (boot.descriptorOf address (boot.imageAt address)).bytes
        (boot.slotSize - imageDescriptorSize)) (boot.slotSize - imageDescriptorSize) =
      boot.descriptorOf address (boot.imageAt address) := by
    apply boot.readImageDescriptor_descriptorOf
    intro k small
    have within : k < (boot.descriptorOf address (boot.imageAt address)).bytes.length := by
      rw [length_descriptorOf]
      exact small
    rw [program_erased _ within (copied.2.2 _ (Nat.le_add_right _ _) (by omega)),
      getD_eq_getElem _ _ within]
  constructor
  · rw [applicationIsStartable_eq large short]
    · exact (congrArg (imageStartFitsTarget · boot.layout boot.target) image).trans start
    · rw [stored]
      change _ = ImageDescriptor.mk _ _
        (boot.sha256 (read _ 0 (boot.imageSizeAt address))).toList _
      rw [image]
      rfl
  · rw [stored, length_imageAt]
    rfl
  · rw [length_imageAt]
    exact image

theorem upgrade_safely (large : imageDescriptorSize ≤ boot.slotSize)
    (together : boot.DescriptorInOneSector) (fits : boot.ImageFits address)
    (safe : ∀ n t, t .journal = memory .journal → crash n t) :
    (boot.upgrade (imageAddress address) (boot.openImage address).1.imageSize
        (boot.openImage address).1.destinationAddress (boot.openImage address).2).Safely
      boot.device crash
      (fun _ result t => result = 0 ∧ t .journal = memory .journal ∧
        HoldsImage boot.sha256 (t .slot) boot.slotSize boot.layout boot.target
          (boot.imageAt address)) performed memory := by
  obtain ⟨long, short⟩ := (boot.sizeFits_iff large _).mp fits.size
  change _ ≤ boot.imageSizeAt address at long
  change boot.imageSizeAt address ≤ _ at short
  have start := (boot.startFitsTarget_eq address long).trans fits.start
  rw [upgrade_eq boot fits.destination fits.size start, Program.safely_bind]
  apply (eraseFor_safely large together (lt_of_lt_of_le (by decide) long) short safe).mono
  · exact fun _ _ => id
  · rintro n - t - ⟨same, erased⟩
    rw [Program.safely_bind]
    have copied : CopiedTo boot address 0 (t .slot) :=
      ⟨fun i before => absurd before (Nat.not_lt_zero i), erased⟩
    apply (copy_safely short (fun n u unchanged => safe n u (unchanged.trans same)) copied).mono
    · exact fun _ _ => id
    · rintro n - u - ⟨same', copied⟩
      rw [Program.safely_bind]
      have unchanged := same'.trans same
      apply boot.writeDescriptor_safely address (safe n u unchanged)
      rw [writeBuffer, Program.safely_operate]
      refine ⟨safe n u unchanged, fun v tear => safe n v ((torn_write tear).trans unchanged), ?_⟩
      rintro v rfl
      exact ⟨safe _ _ unchanged, safe _ _ unchanged, rfl, unchanged,
        copied.holdsImage large short fits.start⟩

end

/-- An upgrade of a slot is not lost: the slot is as it was and the upgrade is staged, the
upgrade has been started, or it is complete. -/
inductive InHand (boot : BootSequence) (units : Nat) (slot : Contents) (memory : Memory Flash) :
    Prop
  | staged (errorCode : BitVec 32)
      (reads : Reads units (.readyToDeploy, errorCode) (memory .journal))
      (same : memory .slot = slot)
  | started (reads : Reads units (.deployStarted, 0) (memory .journal))
  | complete (pair : UpgradePackStatus × BitVec 32) (reads : Reads units pair (memory .journal))
      (finished : pair = (.deployed, 0) ∨ pair = (.empty, 0))
      (holds : HoldsImage boot.sha256 (memory .slot) boot.slotSize boot.layout boot.target
        boot.newImage)

def FullAndStaged (boot : BootSequence) (units : Nat) (memory : Memory Flash) : Prop :=
  StatusJournal.Full (memory .journal) units ∧
    StatusJournal.status boot.journalSize (memory .journal) = .readyToDeploy

variable {units : Nat}

theorem tryUpgradeImage_safely (large : imageDescriptorSize ≤ boot.slotSize)
    (together : boot.DescriptorInOneSector) {address : Nat} (fits : boot.ImageFits address)
    (safe : ∀ n t, t .journal = memory .journal → crash n t) :
    (boot.tryUpgradeImage address).Safely boot.device crash
      (fun _ upgraded t => upgraded = true ∧ t .journal = memory .journal ∧
        HoldsImage boot.sha256 (t .slot) boot.slotSize boot.layout boot.target
          (boot.imageAt address)) performed memory := by
  rw [tryUpgradeImage, if_pos fits.name, Program.safely_bind]
  apply (upgrade_safely large together fits safe).mono
  · exact fun _ _ => id
  · rintro n _ t - ⟨rfl, same, holds⟩
    rw [if_neg (not_not.mpr rfl)]
    exact ⟨safe n t same, rfl, same, holds⟩

theorem upgradeImages_safely (large : imageDescriptorSize ≤ boot.slotSize)
    (together : boot.DescriptorInOneSector) (pack : boot.ValidPack)
    {post : Nat → Unit → Memory Flash → Prop}
    (safe : ∀ n t, t .journal = memory .journal → crash n t)
    (finish : ∀ n t, t .journal = memory .journal →
      HoldsImage boot.sha256 (t .slot) boot.slotSize boot.layout boot.target boot.newImage →
      (boot.writeStatus .deployed).Safely boot.device crash post n t)
    (images number : Nat) (rest : number + images = boot.numberOfImages) (some_image : 0 < images) :
    (boot.upgradeImages images (boot.imageNumber number)).Safely boot.device crash post performed
      memory := by
  induction images generalizing number performed memory with
  | zero => exact absurd some_image (Nat.lt_irrefl 0)
  | succ images ih =>
    rw [upgradeImages, Program.safely_bind]
    apply (tryUpgradeImage_safely large together (pack.fits number (by omega)) safe).mono
    · exact fun _ _ => id
    · rintro n _ t - ⟨rfl, same, holds⟩
      rw [if_pos rfl]
      rcases Nat.eq_zero_or_pos images with rfl | more
      · have last : number = boot.numberOfImages - 1 := by omega
        rw [upgradeImages]
        exact finish n t same (by rw [newImage, ← last]; exact holds)
      · apply ih (fun n u same' => safe n u (same'.trans same))
          (fun n u same' => finish n u (same'.trans same)) (number + 1) (by omega) more

def Upgraded (boot : BootSequence) (units : Nat) (memory : Memory Flash) : Prop :=
  Reads units (.deployed, 0) (memory .journal) ∧
    HoldsImage boot.sha256 (memory .slot) boot.slotSize boot.layout boot.target boot.newImage

variable {slot : Contents}

theorem Upgraded.inHand (upgraded : Upgraded boot units memory) :
    InHand boot units slot memory :=
  .complete _ upgraded.1 (Or.inl rfl) upgraded.2

theorem deployed_safely (size : boot.journalSize = size * units)
    (started : Reads units (.deployStarted, 0) (memory .journal))
    (holds : HoldsImage boot.sha256 (memory .slot) boot.slotSize boot.layout boot.target
      boot.newImage)
    (safe : ∀ n t, InHand boot units slot t → crash n t) :
    (boot.writeStatus .deployed).Safely boot.device crash (fun _ _ t => Upgraded boot units t)
      performed memory := by
  obtain ⟨written, filled, names⟩ := started
  rw [writeStatus]
  apply (filled.record_safely boot.trusted_device size).mono
  · rintro n t (old | new | ⟨-, -, -, empty⟩)
    · rw [names] at old
      exact safe n t (.started (reads_of_holds old).1)
    · obtain ⟨reads, same⟩ := reads_of_holds new
      exact safe n t (.complete _ reads (Or.inl rfl) (same ▸ holds))
    · obtain ⟨reads, same⟩ := reads_of_holds empty
      exact safe n t (.complete _ reads (Or.inr rfl) (same ▸ holds))
  · intro n _ t _ new
    obtain ⟨reads, same⟩ := reads_of_holds new
    exact ⟨reads, same ▸ holds⟩

section

variable (size : boot.journalSize = size * units) (large : imageDescriptorSize ≤ boot.slotSize)
  (together : boot.DescriptorInOneSector) (pack : boot.ValidPack)

include size large together pack

theorem started_safely (started : Reads units (.deployStarted, 0) (memory .journal))
    (safe : ∀ n t, InHand boot units slot t → crash n t) :
    (boot.upgradeImages boot.numberOfImages boot.firstImage).Safely boot.device crash
      (fun _ _ t => Upgraded boot units t) performed memory := by
  apply upgradeImages_safely large together pack _ _ boot.numberOfImages 0 (Nat.zero_add _)
    (Nat.pos_of_ne_zero pack.images)
  · intro n t same
    exact safe n t (.started (same ▸ started))
  · intro n t same holds
    exact deployed_safely size (same ▸ started) holds safe

theorem upgradeFromImages_safely {pair : UpgradePackStatus × BitVec 32}
    (reads : Reads units pair (memory .journal))
    (requested : pair.1 = .readyToDeploy ∧ memory .slot = slot ∨ pair = (.deployStarted, 0)) :
    boot.upgradeFromImages.Safely boot.device
      (fun n t => (FullAndStaged boot units memory → n ≠ 1) → InHand boot units slot t)
      (fun _ _ t => Upgraded boot units t) 0 memory := by
  have status := reads.status size
  obtain ⟨written, filled, names⟩ := reads
  rw [upgradeFromImages, if_neg (not_not.mpr pack.magic), Program.safely_bind, writeStatus]
  apply (filled.record_safely boot.trusted_device size).mono
  · rintro n t (old | new | ⟨full, different, second, -⟩) elsewhere
    · rw [names] at old
      obtain ⟨reads, same⟩ := reads_of_holds old
      rcases requested with ⟨ready, unchanged⟩ | rfl
      · refine .staged pair.2 ?_ (same.trans unchanged)
        rwa [← ready]
      · exact .started reads
    · exact .started (reads_of_holds new).1
    · rw [names] at different
      rcases requested with ⟨ready, -⟩ | begun
      · exact absurd second (elsewhere ⟨filled.full_iff.mpr full, status.trans ready⟩)
      · exact absurd begun different
  · intro n _ t _ started
    rw [if_neg (not_not.mpr pack.headerVersion)]
    exact started_safely size large together pack (reads_of_holds started).1
      fun _ _ inHand _ => inHand

end

theorem startOrHalt_safely {post : Nat → Outcome → Memory Flash → Prop}
    (startable : boot.startable memory = true) (now : crash performed memory)
    (finish : post performed (.start boot.layout.slotBegin) memory) :
    boot.startOrHalt.Safely boot.device crash post performed memory := by
  rw [startOrHalt, Program.safely_reading_bind, if_pos startable]
  exact ⟨now, finish⟩

theorem run_safely (size : boot.journalSize = size * units)
    (large : imageDescriptorSize ≤ boot.slotSize) (together : boot.DescriptorInOneSector)
    (pack : boot.ValidPack) (inHand : InHand boot units slot memory) :
    boot.run.Safely boot.device
      (fun n t => (FullAndStaged boot units memory → n ≠ 1) → InHand boot units slot t)
      (fun _ outcome t => outcome = .start boot.layout.slotBegin ∧
        HoldsImage boot.sha256 (t .slot) boot.slotSize boot.layout boot.target boot.newImage ∧
        InHand boot units slot t) 0 memory := by
  have requestedRun : ∀ pair, Reads units pair (memory .journal) →
      (pair.1 = .readyToDeploy ∧ memory .slot = slot ∨ pair = (.deployStarted, 0)) →
      boot.run.Safely boot.device
        (fun n t => (FullAndStaged boot units memory → n ≠ 1) → InHand boot units slot t)
        (fun _ outcome t => outcome = .start boot.layout.slotBegin ∧
          HoldsImage boot.sha256 (t .slot) boot.slotSize boot.layout boot.target boot.newImage ∧
          InHand boot units slot t) 0 memory := by
    intro pair reads requested
    have status : StatusJournal.status boot.journalSize (memory .journal) = .readyToDeploy ∨
        StatusJournal.status boot.journalSize (memory .journal) = .deployStarted := by
      rw [reads.status size]
      exact requested.imp And.left (congrArg Prod.fst)
    rw [run, installRequested, journalStatus, Program.safely_bind, Program.safely_reading_bind,
      Program.safely_pure]
    refine ⟨fun _ => inHand, ?_⟩
    rw [if_pos (decide_eq_true status), Program.safely_bind, install, Program.safely_bind]
    apply load_safely pack.toVerified status (fun _ => inHand)
    rw [if_pos rfl]
    apply (upgradeFromImages_safely size large together pack reads requested).mono
    · exact fun _ _ => id
    · intro n _ t _ upgraded
      exact startOrHalt_safely upgraded.2.startable (fun _ => upgraded.inHand)
        ⟨rfl, upgraded.2, upgraded.inHand⟩
  cases inHand with
  | staged errorCode reads same => exact requestedRun _ reads (Or.inl ⟨rfl, same⟩)
  | started reads => exact requestedRun _ reads (Or.inr rfl)
  | complete pair reads finished holds =>
    have inHand : InHand boot units slot memory := .complete pair reads finished holds
    have idle : ¬ (StatusJournal.status boot.journalSize (memory .journal) = .readyToDeploy ∨
        StatusJournal.status boot.journalSize (memory .journal) = .deployStarted) := by
      rw [reads.status size]
      rcases finished with rfl | rfl
      · decide
      · decide
    rw [run, installRequested, journalStatus, Program.safely_bind, Program.safely_reading_bind,
      Program.safely_pure]
    refine ⟨fun _ => inHand, ?_⟩
    rw [if_neg (by rw [decide_eq_true_iff]; exact idle)]
    exact startOrHalt_safely holds.startable (fun _ => inHand) ⟨rfl, holds, inHand⟩

/-- An upgrade staged over a slot that can be started is never lost, whatever resets cut the
boot sequence short, unless one falls between the erase of a full journal and the entry that
replaces it while the upgrade is only staged. -/
theorem upgrade_survives (boot : BootSequence) {units written : Nat}
    (size : boot.journalSize = StatusJournalEntry.size * units)
    (together : boot.DescriptorInOneSector) (pack : boot.ValidPack) {start : Memory Flash}
    (filled : StatusJournal.Filled (start .journal) units written)
    (staged : StatusJournal.status boot.journalSize (start .journal) = .readyToDeploy)
    (startable : boot.startable start = true) {memory : Memory Flash}
    (reached : Survives boot.device (fun _ : Unit => boot.run)
      (fun s _ performed => FullAndStaged boot units s → performed ≠ 1) start memory) :
    (memory .slot = start .slot ∧
        StatusJournal.status boot.journalSize (memory .journal) = .readyToDeploy ∨
      StatusJournal.status boot.journalSize (memory .journal) = .deployStarted ∨
      HoldsImage boot.sha256 (memory .slot) boot.slotSize boot.layout boot.target
        boot.newImage) ∧
    ∃ t, Program.run (carryOut boot.sectors) boot.run memory = (.start boot.layout.slotBegin, t) ∧
      HoldsImage boot.sha256 (t .slot) boot.slotSize boot.layout boot.target boot.newImage := by
  have large : imageDescriptorSize ≤ boot.slotSize := by
    by_contra small
    rw [BootSequence.startable, applicationIsStartable, if_pos (Nat.lt_of_not_le small)] at startable
    cases startable
  have first : InHand boot units (start .slot) start := by
    have reads : Reads units _ (start .journal) := ⟨written, filled, rfl⟩
    have ready := (reads.status size).symm.trans staged
    rcases same : StatusJournal.named (StatusJournal.latestOf (start .journal) written) with
      ⟨status, errorCode⟩
    rw [same] at reads ready
    obtain rfl := ready
    exact .staged errorCode reads rfl
  have inHand : InHand boot units (start .slot) memory := by
    apply reached.invariant first
    · intro s _ outcome performed t inHand ended
      exact ((run_safely size large together pack inHand).ends ended).2.2
    · intro s _ performed t inHand meets reset
      have safely := (run_safely size large together pack inHand).interrupted reset
      rw [Nat.zero_add] at safely
      exact safely meets
  constructor
  · cases inHand with
    | staged errorCode reads same => exact Or.inl ⟨same, reads.status size⟩
    | started reads => exact Or.inr (Or.inl (reads.status size))
    | complete pair reads finished holds => exact Or.inr (Or.inr holds)
  · have does : ∀ operation s, boot.device.does operation s (carryOut boot.sectors operation s) :=
      fun _ _ => rfl
    obtain ⟨performed, ended⟩ := Program.ends_run does boot.run memory
    obtain ⟨outcome, holds, -⟩ := (run_safely size large together pack inHand).ends ended
    exact ⟨_, Prod.ext outcome rfl, holds⟩

/-- A reset between the erase of a full journal and the entry that replaces it loses an
upgrade that is only staged: the next run starts what was in the slot. -/
theorem upgrade_lost (boot : BootSequence) {units : Nat}
    (size : boot.journalSize = size * units) (pack : boot.ValidPack)
    {memory : Memory Flash} (filled : StatusJournal.Filled (memory .journal) units units)
    (staged : StatusJournal.status boot.journalSize (memory .journal) = .readyToDeploy)
    (startable : boot.startable memory = true) :
    ∃ t, Program.Interrupted boot.device boot.run memory 1 t ∧ t .slot = memory .slot ∧
      StatusJournal.status boot.journalSize (t .journal) = .empty ∧
      Program.run (carryOut boot.sectors) boot.run t = (.start boot.layout.slotBegin, t) := by
  have reads : Reads units _ (memory .journal) := ⟨units, filled, rfl⟩
  have different : StatusJournal.named (StatusJournal.latestOf (memory .journal) units) ≠
      (.deployStarted, 0) := by
    intro same
    rw [reads.status size, same] at staged
    cases staged
  obtain ⟨t, reset, erased⟩ := filled.interrupted_erased boot.device rfl size different
  obtain ⟨empty, same⟩ := reads_of_holds erased
  have status := empty.status size
  have does : ∀ operation s, boot.device.does operation s (carryOut boot.sectors operation s) :=
    fun _ _ => rfl
  have requested : Program.Ends boot.device boot.installRequested memory true 0 memory := by
    rw [← decide_eq_true (Or.inl staged :
      StatusJournal.status boot.journalSize (memory .journal) = .readyToDeploy ∨
        StatusJournal.status boot.journalSize (memory .journal) = .deployStarted)]
    exact .query .done
  have loaded : Program.Ends boot.device boot.load memory true 0 memory := by
    have safely : boot.load.Safely boot.device (fun _ _ => True)
        (fun n value t => n = 0 ∧ value = true ∧ t = memory) 0 memory :=
      load_safely pack.toVerified (Or.inl staged) trivial ⟨rfl, rfl, rfl⟩
    obtain ⟨performed, ended⟩ := Program.ends_run does boot.load memory
    obtain ⟨count, value, unchanged⟩ := safely.ends ended
    rw [Nat.zero_add] at count
    rwa [count, value, unchanged] at ended
  refine ⟨t, ?_, same, status, ?_⟩
  · rw [run]
    apply requested.interrupted
    rw [if_pos rfl]
    apply Program.Interrupted.bind
    rw [install]
    apply loaded.interrupted
    rw [if_pos rfl, upgradeFromImages, if_neg (not_not.mpr pack.magic)]
    exact reset.bind
  · have idle : ¬ (StatusJournal.status boot.journalSize (t .journal) = .readyToDeploy ∨
        StatusJournal.status boot.journalSize (t .journal) = .deployStarted) := by
      rw [status]
      decide
    have still : boot.startable t = true := by
      rw [BootSequence.startable, same]
      exact startable
    have ended : boot.run.Safely boot.device (fun _ _ => True)
        (fun _ outcome u => outcome = .start boot.layout.slotBegin ∧ u = t) 0 t := by
      rw [run, installRequested, journalStatus, Program.safely_bind, Program.safely_reading_bind,
        Program.safely_pure]
      refine ⟨trivial, ?_⟩
      rw [if_neg (by rw [decide_eq_true_iff]; exact idle)]
      exact startOrHalt_safely still trivial ⟨rfl, rfl⟩
    obtain ⟨_, runs⟩ := Program.ends_run does boot.run t
    exact Prod.ext (ended.ends runs).1 (ended.ends runs).2

def smallSlot : Contents :=
  { Contents.erased with
    memory := fun i => (PackBuilder.imageOf 0 ++ List.replicate 896 0xff ++
      (makeImageDescriptor PackBuilder.smallHash (PackBuilder.imageOf 0)).bytes).getD i 0xff }

variable (calls : List StatusJournal.Call)

/-- The flash of a small target after calls of the journal. -/
def smallFlash : Memory Flash
  | .journal => StatusJournal.afterCalls calls ()
  | .slot => smallSlot

theorem journalSize_smallTarget :
    smallTarget.journalSize = size * 4 := by decide

theorem filled_smallFlash :
    ∃ written, StatusJournal.Filled (smallFlash calls .journal) 4 written := by
  have fresh : ∃ written, StatusJournal.Filled (StatusJournal.afterCalls calls ()) 4 written :=
    StatusJournal.filled_of_survives StatusJournal.fourUnits_size rfl
      (StatusJournal.survives_afterCalls calls)
  exact fresh

theorem read_smallSlot :
    smallSlot.read 0 (imageOf 0).length = imageOf 0 := by
  apply ext_getElem
  · rw [length_read]
  · intro k _ inside
    rw [getElem_read, Nat.zero_add, smallSlot]
    simp only
    rw [append_assoc, getD_append _ _ _ _ inside, getD_eq_getElem _ _ inside]

theorem descriptor_smallSlot : readImageDescriptor smallSlot (2048 - imageDescriptorSize) =
    makeImageDescriptor smallHash (imageOf 0) := by
  have before : (imageOf 0 ++ List.replicate 896 (0xff : Byte)).length = 1984 := by
    rw [length_append, length_imageOf, length_replicate]
  apply readImageDescriptor_eq
  · exact Vector.length_toList
  · exact length_replicate
  · intro k small
    rw [show 2048 - imageDescriptorSize + k = 1984 + k by rw [imageDescriptorSize]]
    have inside : k < (makeImageDescriptor smallHash
        (imageOf 0)).bytes.length := by
      simp only [makeImageDescriptor, ImageDescriptor.bytes, length_append, length_wordBytes,
        Vector.length_toList, length_replicate]
      exact small
    rw [smallSlot]
    simp only
    rw [getD_append_right _ _ _ _ (by omega), before, Nat.add_sub_cancel_left,
      getD_eq_getElem _ _ inside, getD_eq_getElem _ _ inside]

theorem startable_smallFlash : smallTarget.startable (smallFlash calls) = true := by
  have size : (makeImageDescriptor smallHash (imageOf 0)).imageSize.toNat =
      (imageOf 0).length := by
    simp only [makeImageDescriptor, length_imageOf]
    decide
  have startable : applicationIsStartable smallHash smallSlot 2048
      smallLayout (fun _ => true) = true := by
    have large : imageDescriptorSize ≤ 2048 := by decide
    apply (applicationIsStartable_iff large descriptor_smallSlot).mpr
    rw [size, read_smallSlot]
    refine ⟨rfl, ?_, rfl, ?_⟩
    · rw [length_imageOf]
      decide
    · decide +kernel
  exact startable

theorem imageOf_ne : imageOf 0 ≠ imageOf 1 := by decide +kernel

def fillingCalls : List StatusJournal.Call :=
  [.record .downloaded 0, .record .invalid 0, .record .downloaded 0, .record .readyToDeploy 0]

/-- An upgrade over a journal with erased units left, cut short before its first operation
and then run, ends with the new image. -/
theorem upgrade_survives_smallTarget :
    ∃ t, Program.run (carryOut PackBuilder.smallTarget.sectors) PackBuilder.smallTarget.run
        (smallFlash [.record .downloaded 0, .record .readyToDeploy 0]) =
          (.start PackBuilder.smallTarget.layout.slotBegin, t) ∧
      HoldsImage PackBuilder.smallTarget.sha256 (t .slot) PackBuilder.smallTarget.slotSize
        PackBuilder.smallTarget.layout PackBuilder.smallTarget.target
        PackBuilder.smallTarget.newImage := by
  obtain ⟨written, filled⟩ := filled_smallFlash [.record .downloaded 0, .record .readyToDeploy 0]
  have staged : StatusJournal.status PackBuilder.smallTarget.journalSize
      (smallFlash [.record .downloaded 0, .record .readyToDeploy 0] .journal) =
        .readyToDeploy := by
    decide +kernel
  have together : PackBuilder.smallTarget.DescriptorInOneSector := by
    unfold DescriptorInOneSector
    decide
  apply (upgrade_survives PackBuilder.smallTarget journalSize_smallTarget together
    PackBuilder.validPack_smallTarget.1 filled staged (startable_smallFlash _)
    (.reset () .start (fun _ => by decide) (.here))).2

/-- Over a full journal, a reset after its erase loses the upgrade: the next run starts the
older image. -/
theorem upgrade_lost_smallTarget :
    ∃ memory t : Memory Flash,
      PackBuilder.smallTarget.ValidPack ∧
      StatusJournal.status PackBuilder.smallTarget.journalSize (memory .journal) =
        .readyToDeploy ∧
      PackBuilder.smallTarget.startable memory = true ∧
      Program.Interrupted PackBuilder.smallTarget.device PackBuilder.smallTarget.run memory 1 t ∧
      StatusJournal.status PackBuilder.smallTarget.journalSize (t .journal) = .empty ∧
      Program.run (carryOut PackBuilder.smallTarget.sectors) PackBuilder.smallTarget.run t =
        (.start PackBuilder.smallTarget.layout.slotBegin, t) ∧
      (t .slot).read 0 PackBuilder.smallTarget.newImage.length ≠
        PackBuilder.smallTarget.newImage := by
  obtain ⟨pack, newImage⟩ := PackBuilder.validPack_smallTarget
  have staged : StatusJournal.status PackBuilder.smallTarget.journalSize
      (smallFlash fillingCalls .journal) = .readyToDeploy := by
    decide +kernel
  have full : StatusJournal.Full (smallFlash fillingCalls .journal) 4 := by
    unfold StatusJournal.Full StatusJournal.UnitErased
    decide +kernel
  obtain ⟨written, filled⟩ := filled_smallFlash fillingCalls
  obtain rfl := filled.full_iff.mp full
  obtain ⟨t, reset, same, empty, runs⟩ := upgrade_lost PackBuilder.smallTarget
    journalSize_smallTarget pack filled staged (startable_smallFlash _)
  refine ⟨_, t, pack, staged, startable_smallFlash _, reset, empty, runs, ?_⟩
  rw [same, newImage, PackBuilder.length_imageOf, ← PackBuilder.length_imageOf 0]
  exact fun holds => imageOf_ne (read_smallSlot.symm.trans holds)

end BootSequence

end Bootloader
