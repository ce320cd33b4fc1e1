import EmbeddedInfra.Flash.FlashSpi

/-! The rounds of the loop of `FlashSpi`, for any number of polls of the busy bit, and what the
device makes of their sessions. -/

namespace FlashSpis

open List FlashSpi

variable {geometry : FlashGeometry} {answers : Nat → UInt8} {loop : Loop} {s t : FlashSpi}

/-- However often the status has been read, the device is not busy at some later time. -/
def BusyEnds (answers : Nat → UInt8) : Prop := ∀ reads, ∃ more, answers (reads + more) &&& 1 ≠ 1

/-- One state follows another in the run of a loop. -/
def Leads (answers : Nat → UInt8) (loop : Loop) (s t : FlashSpi) : Prop :=
  ∃ count, (advance answers loop)^[count] s = t

namespace Leads

theorem refl : Leads answers loop s s := ⟨0, rfl⟩

theorem head (rest : Leads answers loop (advance answers loop s) t) : Leads answers loop s t := by
  have ⟨count, reached⟩ := rest
  exact ⟨count + 1, reached⟩

theorem trans {u : FlashSpi} (front : Leads answers loop s t) (back : Leads answers loop t u) :
    Leads answers loop s u := by
  have ⟨first, reached⟩ := front
  have ⟨second, ended⟩ := back
  refine ⟨second + first, ?_⟩
  rw [Function.iterate_add_apply, reached, ended]

end Leads

/-- The state after a number of polls. -/
def FlashSpi.held (s : FlashSpi) (polls : Nat) (status : UInt8) : FlashSpi :=
  { s with
    sessions := s.sessions ++ List.replicate polls [commandReadStatusRegister]
    statusRegister := status
    reads := s.reads + polls
    position := .condition }

theorem leads_held_idle (answers : Nat → UInt8) (loop : Loop) (idle : s.statusRegister &&& 1 ≠ 1)
    (waits : s.position = .whileBusy) :
    Leads answers loop s (s.held 0 s.statusRegister) := by
  refine .head ?_
  have next : advance answers loop s = s.held 0 s.statusRegister := by
    simp [advance, waits, idle, held]
  rw [next]
  exact .refl

theorem advance_busy (busy : s.statusRegister &&& 1 = 1) (waits : s.position = .whileBusy)
    (rest : Leads answers loop { readStatusRegister answers s with position := .whileBusy } t) :
    Leads answers loop s t := by
  refine .head (.head (.head ?_))
  simpa [advance, waits, busy, readStatusRegister, send] using rest

theorem hold_ends (loop : Loop) (more : Nat) (ends : answers (s.reads + more) &&& 1 ≠ 1)
    (waits : s.position = .whileBusy) :
    ∃ polls status, Leads answers loop s (s.held polls status) := by
  induction more generalizing s with
  | zero =>
    by_cases busy : s.statusRegister &&& 1 = 1
    · have idle := leads_held_idle answers loop
        (s := { readStatusRegister answers s with position := .whileBusy }) ends rfl
      refine ⟨1, answers s.reads, advance_busy busy waits ?_⟩
      simpa [held, readStatusRegister, send] using idle
    · exact ⟨0, _, leads_held_idle answers loop busy waits⟩
  | succ more ih =>
    by_cases busy : s.statusRegister &&& 1 = 1
    · have later : answers (s.reads + 1 + more) &&& 1 ≠ 1 := by
        rw [Nat.add_assoc, Nat.add_comm 1]
        exact ends
      have ⟨polls, status, rest⟩ :=
        ih (s := { readStatusRegister answers s with position := .whileBusy }) later rfl
      refine ⟨polls + 1, status, advance_busy busy waits ?_⟩
      simpa [held, readStatusRegister, send, replicate_succ,
        Nat.add_comm, Nat.add_left_comm] using rest
    · exact ⟨0, _, leads_held_idle answers loop busy waits⟩

def FlashSpi.enabled (s : FlashSpi) : FlashSpi := { writeEnable s with position := .operation }

theorem round (loop : Loop) (ends : BusyEnds answers) (starts : s.position = .condition)
    (holds : loop.condition s = true) :
    ∃ polls status, Leads answers loop s ((loop.operation s.enabled).held polls status) := by
  let read : FlashSpi :=
    { readStatusRegister answers (loop.operation s.enabled) with position := .whileBusy }
  have ⟨more, idle⟩ := ends read.reads
  have ⟨polls, status, rest⟩ := hold_ends loop (s := read) more idle rfl
  refine ⟨polls + 1, status, .head (.head (.head (.head ?_)))⟩
  have enabled : advance answers loop (advance answers loop s) = s.enabled := by
    simp only [advance, starts, holds, if_true]
    rfl
  have same : read.held polls status = (loop.operation s.enabled).held (polls + 1) status := by
    simp [read, held, readStatusRegister, send, replicate_succ]
    omega
  rw [enabled, ← same]
  exact rest

/-- The run comes to its end after a number of sessions, and has then scheduled `onDone` once. -/
def Ends (answers : Nat → UInt8) (loop : Loop) (s : FlashSpi) (sent : List Bytes) : Prop :=
  ∃ t, Leads answers loop s t ∧ t.position = .finished ∧ t.scheduled = s.scheduled + 1 ∧
    t.sessions = s.sessions ++ sent

theorem ends_none (starts : s.position = .condition) (holds : loop.condition s = false) :
    Ends answers loop s [] := by
  refine ⟨{ s with scheduled := s.scheduled + 1, position := .finished }, .head (.head ?_), rfl,
    rfl, (append_nil _).symm⟩
  simpa [advance, starts, holds] using Leads.refl

theorem Ends.after {sent more : List Bytes} (front : Leads answers loop s t)
    (sends : t.sessions = s.sessions ++ sent) (same : t.scheduled = s.scheduled)
    (rest : Ends answers loop t more) : Ends answers loop s (sent ++ more) := by
  have ⟨u, reached, finished, scheduled, sessions⟩ := rest
  refine ⟨u, front.trans reached, finished, by rw [scheduled, same], ?_⟩
  rw [sessions, sends, append_assoc]

def roundSessions (command : Bytes) (polls : Nat) : List Bytes :=
  [commandWriteEnable] :: command :: List.replicate polls [commandReadStatusRegister]

theorem sessions_held {command : Bytes} (sends : t.sessions = s.enabled.sessions ++ [command])
    (polls : Nat) (status : UInt8) :
    (t.held polls status).sessions = s.sessions ++ roundSessions command polls := by
  simp [held, sends, roundSessions, enabled, writeEnable, send]

theorem filterMap_round {β : Type} {meaning : Bytes → Option β}
    (enable : meaning [commandWriteEnable] = none)
    (status : meaning [commandReadStatusRegister] = none) (command : Bytes) (polls : Nat) :
    (roundSessions command polls).filterMap meaning = (meaning command).toList := by
  have none : (List.replicate polls [commandReadStatusRegister]).filterMap meaning = [] := by
    rw [filterMap_eq_nil_iff]
    intro session member
    rw [eq_of_mem_replicate member]
    exact status
  rw [roundSessions, filterMap_cons_none enable, filterMap_cons, none]
  cases meaning command <;> rfl

theorem programmed_round (geometry : FlashGeometry) (command : Bytes) (polls : Nat) :
    (roundSessions command polls).filterMap (programmed geometry) =
      (programmed geometry command).toList := by
  apply filterMap_round <;> cases extended : geometry.extendedAddressing <;>
    simp [programmed, FlashGeometry.instruction, extended, commandWriteEnable,
      commandReadStatusRegister, commandPageProgram]

theorem erased_round (geometry : FlashGeometry) (command : Bytes) (polls : Nat) :
    (roundSessions command polls).filterMap (erased geometry) =
      (erased geometry command).toList := by
  apply filterMap_round <;> cases extended : geometry.extendedAddressing <;>
    simp [erased, FlashGeometry.instruction, extended, commandWriteEnable,
      commandReadStatusRegister, commandEraseSector, commandEraseSubSector, commandEraseBulk]

theorem instructionAndAddress_eq (geometry : FlashGeometry) (instruction : Instruction)
    (address : Nat) :
    ∃ bytes, geometry.instructionAndAddress instruction address =
        geometry.instruction instruction :: bytes ∧ bytes.length = geometry.addressSize ∧
      (address < (if geometry.extendedAddressing then 2 ^ 32 else 2 ^ 24) →
        toAddress bytes = address) := by
  cases extended : geometry.extendedAddressing
  · refine ⟨(FlashGeometry.addressRange address).drop 1, ?_, ?_, ?_⟩
    · simp [FlashGeometry.instructionAndAddress, FlashGeometry.instruction, extended]
    · simp [FlashGeometry.addressRange, FlashGeometry.addressSize, extended]
    · intro small
      simp only [FlashGeometry.addressRange, toAddress, drop_succ_cons, drop_zero,
        foldl_cons, foldl_nil, UInt8.toNat_ofNat'] at small ⊢
      simp only [Bool.false_eq_true, if_false] at small
      omega
  · refine ⟨FlashGeometry.addressRange address, ?_, ?_, ?_⟩
    · simp [FlashGeometry.instructionAndAddress, FlashGeometry.instruction, extended]
    · simp [FlashGeometry.addressRange, FlashGeometry.addressSize, extended]
    · intro small
      simp only [FlashGeometry.addressRange, toAddress,
        foldl_cons, foldl_nil, UInt8.toNat_ofNat'] at small ⊢
      simp only [if_true] at small
      omega

end FlashSpis
