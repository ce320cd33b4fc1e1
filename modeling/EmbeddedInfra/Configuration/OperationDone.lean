import EmbeddedInfra.Configuration.ConfigurationBlob
import EmbeddedInfra.Runs

/-! Operations of a configuration store: writes are put together and put off, and erases take
their identifiers from the same counter. -/

namespace Configuration

open Runs List

abbrev OperationId := BitVec 32

/-- What the store waits for its blobs to complete, and for which operation. -/
inductive Outstanding where
  | writing (blob : Blob) (id : OperationId) (version : Nat)
  | erasingReplaced (blob : Blob) (id : OperationId)
  | erasingInactive (blob : Blob) (id : OperationId)
  | erasingActive (blob : Blob) (id : OperationId)
  deriving DecidableEq

namespace Outstanding

def id : Outstanding → OperationId
  | writing _ id _ => id
  | erasingReplaced _ id => id
  | erasingInactive _ id => id
  | erasingActive _ id => id

def isErase : Outstanding → Bool
  | erasingInactive _ _ => true
  | erasingActive _ _ => true
  | _ => false

def covers (version : Nat) : Outstanding → Prop
  | writing _ _ written => version ≤ written
  | _ => False

end Outstanding

/-- The configuration is given by the number of changes made to it. -/
structure OperationStore where
  version : Nat
  activeBlob : Blob
  inactiveBlob : Blob
  operationId : OperationId
  writingBlob : Bool
  writeRequested : Bool
  lockCount : Nat
  outstanding : List Outstanding
  /-- The versions that have been written completely. -/
  written : List Nat
  /-- What calls of `Write` returned, and the version at that time. -/
  returned : List (OperationId × Nat)
  /-- What the observers have just been told. -/
  operationDone : Option OperationId

namespace OperationStore

def afterRecovery (activeBlob : Blob) : OperationStore where
  version := 0
  activeBlob
  inactiveBlob := activeBlob.other
  operationId := 0
  writingBlob := false
  writeRequested := false
  lockCount := 0
  outstanding := []
  written := []
  returned := []
  operationDone := none

def isLocked (s : OperationStore) : Bool := decide (s.lockCount ≠ 0)

def write (s : OperationStore) : OperationStore × OperationId :=
  let thisId := s.operationId
  let s := { s with writeRequested := true }
  if s.writingBlob = false ∧ s.isLocked = false then
    ({ s with
      operationId := s.operationId + 1
      writeRequested := false
      writingBlob := true
      outstanding := s.outstanding ++ [.writing s.activeBlob thisId s.version] }, thisId)
  else (s, thisId)

def erase (s : OperationStore) : OperationStore × OperationId :=
  let thisId := s.operationId
  ({ s with
    operationId := s.operationId + 1
    outstanding := s.outstanding ++ [.erasingInactive s.inactiveBlob thisId] }, thisId)

def lock (s : OperationStore) : OperationStore := { s with lockCount := s.lockCount + 1 }

def unlocked (s : OperationStore) : OperationStore :=
  if s.writeRequested = true then s.write.1 else s

def unlock (s : OperationStore) : OperationStore :=
  let s := { s with lockCount := s.lockCount - 1 }
  if s.lockCount = 0 then s.unlocked else s

def blobWriteDone (s : OperationStore) : OperationStore :=
  have s := { s with
    activeBlob := s.inactiveBlob
    inactiveBlob := s.activeBlob
    writingBlob := false }
  if s.writeRequested = true then s.write.1 else s

def complete (s : OperationStore) (operation : Outstanding) : OperationStore :=
  let s := { s with outstanding := s.outstanding.erase operation }
  match operation with
  | .writing _ id version =>
    { s with
      written := version :: s.written
      outstanding := s.outstanding ++ [.erasingReplaced s.inactiveBlob id] }
  | .erasingReplaced _ id => { s.blobWriteDone with operationDone := some id }
  | .erasingInactive _ id =>
    { s with outstanding := s.outstanding ++ [.erasingActive s.activeBlob id] }
  | .erasingActive _ id => { s with operationDone := some id }

/-- A call of `Write`, which returns an identifier to its caller. -/
def callWrite (s : OperationStore) : OperationStore :=
  { s.write.1 with returned := (s.write.2, s.version) :: s.returned }

inductive Action where
  | changeConfiguration
  | write
  | lock
  | unlock
  | erase
  | complete (operation : Outstanding)

def step (s : OperationStore) (action : Action) : Option OperationStore :=
  have s := { s with operationDone := none }
  match action with
  | .changeConfiguration => some { s with version := s.version + 1 }
  | .write => some s.callWrite
  | .lock => some s.lock
  | .unlock => if s.isLocked = true then some s.unlock else none
  | .erase => some s.erase.1
  | .complete operation =>
    if operation ∈ s.outstanding then some (s.complete operation) else none

def Wrote (s : OperationStore) (version : Nat) : Prop := ∃ written ∈ s.written, version ≤ written

/-- A write that has not been written, or that its observers have not been told of. -/
def PendingWrite (s : OperationStore) (id : OperationId) : Prop :=
  (∃ version, (id, version) ∈ s.returned ∧ ¬ s.Wrote version) ∨
    ∃ operation ∈ s.outstanding, operation.isErase = false ∧ operation.id = id

structure Persisted (s : OperationStore) : Prop where
  done : ∀ id, s.operationDone = some id → ∀ version, (id, version) ∈ s.returned → s.Wrote version
  apart : ∀ operation ∈ s.outstanding, operation.isErase = true → ¬ s.PendingWrite operation.id

/-- No erase is called while a write is put off, and an operation is given an identifier that
no other one has that is still outstanding. -/
def Careful (s : OperationStore) : Action → Prop
  | .write => ∀ operation ∈ s.outstanding, operation.id ≠ s.operationId
  | .erase => s.writeRequested = false ∧ ∀ operation ∈ s.outstanding, operation.id ≠ s.operationId
  | _ => True

instance : ∀ s, DecidablePred (Careful s)
  | s, .write => inferInstanceAs (Decidable (∀ operation ∈ s.outstanding, _))
  | s, .erase => inferInstanceAs (Decidable (_ ∧ ∀ operation ∈ s.outstanding, _))
  | _, .changeConfiguration => isTrue trivial
  | _, .lock => isTrue trivial
  | _, .unlock => isTrue trivial
  | _, .complete _ => isTrue trivial

/-- What holds between two events: a call of `Write` has been answered, is being answered or
is put off, and no outstanding operation answers for a later one. -/
structure Inv (s : OperationStore) : Prop where
  returned : ∀ id version, (id, version) ∈ s.returned → version ≤ s.version ∧
    (s.Wrote version ∨ (∃ operation ∈ s.outstanding, operation.id = id ∧
      operation.covers version) ∨ (s.writeRequested = true ∧ id = s.operationId))
  ids : (s.outstanding.map Outstanding.id).Nodup
  fresh : s.writeRequested = true → ∀ operation ∈ s.outstanding, operation.id ≠ s.operationId
  settled : ∀ operation ∈ s.outstanding, ∀ version, (operation.id, version) ∈ s.returned →
    s.Wrote version ∨ operation.covers version

variable {s : OperationStore}

theorem inv_afterRecovery (activeBlob : Blob) : Inv (afterRecovery activeBlob) where
  returned := nofun
  ids := nodup_nil
  fresh := nofun
  settled := nofun

theorem map_id_append (outstanding : List Outstanding) (operation : Outstanding)
    (ids : (outstanding.map Outstanding.id).Nodup)
    (fresh : ∀ other ∈ outstanding, other.id ≠ operation.id) :
    ((outstanding ++ [operation]).map Outstanding.id).Nodup := by
  rw [map_append, nodup_append]
  refine ⟨ids, nodup_singleton _, ?_⟩
  intro id member one last
  obtain ⟨other, there, rfl⟩ := mem_map.mp member
  rw [map_singleton, mem_singleton] at last
  rw [last]
  exact fresh other there

theorem write_of_free (free : s.writingBlob = false ∧ s.isLocked = false) :
    s.write = ({ s with
      operationId := s.operationId + 1
      writeRequested := false
      writingBlob := true
      outstanding := s.outstanding ++ [.writing s.activeBlob s.operationId s.version] },
      s.operationId) :=
  if_pos free

theorem write_of_not_free (busy : ¬ (s.writingBlob = false ∧ s.isLocked = false)) :
    s.write = ({ s with writeRequested := true }, s.operationId) :=
  if_neg busy

theorem Inv.write (inv : Inv s) (requested : s.writeRequested = true) : Inv s.write.1 := by
  by_cases free : s.writingBlob = false ∧ s.isLocked = false
  · rw [write_of_free free]
    have fresh := inv.fresh requested
    constructor
    · intro id version member
      obtain ⟨before, answered⟩ := inv.returned id version member
      refine ⟨before, ?_⟩
      rcases answered with wrote | ⟨operation, there, same, covers⟩ | ⟨-, rfl⟩
      · exact Or.inl wrote
      · exact Or.inr (Or.inl ⟨operation, mem_append_left _ there, same, covers⟩)
      · exact Or.inr (Or.inl ⟨_, mem_append_right _ (mem_singleton_self _), rfl, before⟩)
    · exact map_id_append _ _ inv.ids fresh
    · nofun
    · intro operation there version member
      rcases mem_append.mp there with old | new
      · exact inv.settled operation old version member
      · obtain rfl := mem_singleton.mp new
        exact Or.inr (inv.returned _ version member).1
  · rw [write_of_not_free free]
    constructor
    · intro id version member
      obtain ⟨before, answered⟩ := inv.returned id version member
      refine ⟨before, answered.imp_right (Or.imp_right ?_)⟩
      exact fun put_off => ⟨rfl, put_off.2⟩
    · exact inv.ids
    · exact fun _ => inv.fresh requested
    · exact inv.settled

theorem Inv.callWrite (inv : Inv s)
    (fresh : ∀ operation ∈ s.outstanding, operation.id ≠ s.operationId) : Inv s.callWrite := by
  let asked : OperationStore := { s with
    writeRequested := true
    returned := (s.operationId, s.version) :: s.returned }
  have requested : Inv asked := by
    constructor
    · intro id version member
      rcases mem_cons.mp member with new | old
      · obtain ⟨rfl, rfl⟩ := Prod.mk.inj new
        exact ⟨le_rfl, Or.inr (Or.inr ⟨rfl, rfl⟩)⟩
      · obtain ⟨before, answered⟩ := inv.returned id version old
        refine ⟨before, answered.imp_right (Or.imp_right ?_)⟩
        exact fun put_off => ⟨rfl, put_off.2⟩
    · exact inv.ids
    · exact fun _ => fresh
    · intro operation there version member
      rcases mem_cons.mp member with new | old
      · exact absurd (Prod.mk.inj new).1 (fresh operation there)
      · exact inv.settled operation there version old
  have started := requested.write rfl
  by_cases free : s.writingBlob = false ∧ s.isLocked = false
  · rw [write_of_free (s := asked) free] at started
    rw [OperationStore.callWrite, write_of_free free]
    exact started
  · rw [write_of_not_free (s := asked) free] at started
    rw [OperationStore.callWrite, write_of_not_free free]
    exact started

theorem Inv.erase (inv : Inv s) (notRequested : s.writeRequested = false)
    (fresh : ∀ operation ∈ s.outstanding, operation.id ≠ s.operationId) : Inv s.erase.1 := by
  constructor
  · intro id version member
    obtain ⟨before, answered⟩ := inv.returned id version member
    refine ⟨before, ?_⟩
    rcases answered with wrote | ⟨operation, there, same, covers⟩ | ⟨requested, -⟩
    · exact Or.inl wrote
    · exact Or.inr (Or.inl ⟨operation, mem_append_left _ there, same, covers⟩)
    · cases notRequested.symm.trans requested
  · exact map_id_append _ _ inv.ids fresh
  · intro requested
    cases notRequested.symm.trans requested
  · intro operation there version member
    rcases mem_append.mp there with old | new
    · exact inv.settled operation old version member
    · obtain rfl := mem_singleton.mp new
      rcases (inv.returned _ version member).2 with wrote | ⟨other, there, same, -⟩ |
        ⟨requested, -⟩
      · exact Or.inl wrote
      · exact absurd same (fresh other there)
      · cases notRequested.symm.trans requested

theorem Inv.of_eq {t : OperationStore} (inv : Inv s)
    (accounts : (t.operationId, t.writeRequested, t.outstanding, t.written, t.returned) =
      (s.operationId, s.writeRequested, s.outstanding, s.written, s.returned))
    (version : s.version ≤ t.version) : Inv t := by
  simp only [Prod.mk.injEq] at accounts
  obtain ⟨operationId, writeRequested, outstanding, written, returned⟩ := accounts
  constructor
  · intro id one member
    rw [returned] at member
    obtain ⟨before, answered⟩ := inv.returned id one member
    refine ⟨before.trans version, ?_⟩
    rw [Wrote, written, outstanding, writeRequested, operationId]
    exact answered
  · rw [outstanding]
    exact inv.ids
  · rw [writeRequested, outstanding, operationId]
    exact inv.fresh
  · rw [outstanding, returned]
    simp only [Wrote, written]
    exact inv.settled

theorem Inv.replace (inv : Inv s) {operation : Outstanding} (member : operation ∈ s.outstanding)
    (others : List Outstanding) (ids : others.map Outstanding.id = [] ∨
      others.map Outstanding.id = [operation.id]) (written : List Nat)
    (grows : ∀ version, s.Wrote version → ∃ one ∈ written, version ≤ one)
    (done : ∀ version, (operation.id, version) ∈ s.returned → ∃ one ∈ written, version ≤ one) :
    Inv { s with outstanding := s.outstanding.erase operation ++ others, written := written } := by
  have perm : s.outstanding.Perm (operation :: s.outstanding.erase operation) :=
    perm_cons_erase member
  have idOf : ∀ other ∈ others, other.id = operation.id := by
    intro other there
    have inIds := mem_map_of_mem (f := Outstanding.id) there
    rcases ids with none | one
    · rw [none] at inIds
      cases inIds
    · rw [one, mem_singleton] at inIds
      exact inIds
  have nodup : ((operation :: s.outstanding.erase operation).map Outstanding.id).Nodup :=
    ((perm.map _).nodup_iff).mp inv.ids
  rw [map_cons, nodup_cons] at nodup
  constructor
  · intro id version returned
    obtain ⟨before, answered⟩ := inv.returned id version returned
    refine ⟨before, ?_⟩
    rcases answered with wrote | ⟨one, there, same, covers⟩ | putOff
    · exact Or.inl (grows version wrote)
    · rcases mem_cons.mp (perm.mem_iff.mp there) with rfl | stays
      · exact Or.inl (done version (same ▸ returned))
      · exact Or.inr (Or.inl ⟨one, mem_append_left _ stays, same, covers⟩)
    · exact Or.inr (Or.inr putOff)
  · change ((s.outstanding.erase operation ++ others).map Outstanding.id).Nodup
    rw [map_append]
    rcases ids with none | one
    · rw [none, append_nil]
      exact nodup.2
    · rw [one]
      exact (perm_append_singleton _ _).nodup_iff.mpr (nodup_cons.mpr nodup)
  · intro requested one there
    rcases mem_append.mp there with stays | new
    · exact inv.fresh requested one (perm.mem_iff.mpr (mem_cons_of_mem _ stays))
    · rw [idOf one new]
      exact inv.fresh requested operation member
  · intro one there version returned
    rcases mem_append.mp there with stays | new
    · rcases inv.settled one (perm.mem_iff.mpr (mem_cons_of_mem _ stays)) version returned with
        wrote | covers
      · exact Or.inl (grows version wrote)
      · exact Or.inr covers
    · rw [idOf one new] at returned
      exact Or.inl (done version returned)

theorem Inv.writeIfRequested (inv : Inv s) :
    Inv (if s.writeRequested = true then s.write.1 else s) := by
  split
  next requested => exact inv.write requested
  next => exact inv

theorem Inv.blobWriteDone (inv : Inv s) : Inv s.blobWriteDone := by
  apply Inv.writeIfRequested
  exact inv.of_eq rfl le_rfl

theorem Inv.unlock (inv : Inv s) : Inv s.unlock := by
  rw [OperationStore.unlock]
  have released : Inv { s with lockCount := s.lockCount - 1 } := inv.of_eq rfl le_rfl
  split
  next => exact released.writeIfRequested
  next => exact released

theorem write_written : s.write.1.written = s.written := by
  by_cases free : s.writingBlob = false ∧ s.isLocked = false
  · rw [write_of_free free]
  · rw [write_of_not_free free]

theorem write_returned : s.write.1.returned = s.returned := by
  by_cases free : s.writingBlob = false ∧ s.isLocked = false
  · rw [write_of_free free]
  · rw [write_of_not_free free]

theorem write_operationDone : s.write.1.operationDone = s.operationDone := by
  by_cases free : s.writingBlob = false ∧ s.isLocked = false
  · rw [write_of_free free]
  · rw [write_of_not_free free]

theorem blobWriteDone_written : s.blobWriteDone.written = s.written := by
  rw [OperationStore.blobWriteDone]
  split
  next => exact write_written
  next => rfl

theorem blobWriteDone_returned : s.blobWriteDone.returned = s.returned := by
  rw [OperationStore.blobWriteDone]
  split
  next => exact write_returned
  next => rfl

theorem unlock_operationDone : s.unlock.operationDone = s.operationDone := by
  rw [OperationStore.unlock]
  split
  next =>
    rw [OperationStore.unlocked]
    split
    next => exact write_operationDone
    next => rfl
  next => rfl

def Told (s : OperationStore) : Prop :=
  ∀ id, s.operationDone = some id → ∀ version, (id, version) ∈ s.returned → s.Wrote version

theorem told_of_none (silent : s.operationDone = none) : Told s := by
  intro id told
  cases silent.symm.trans told

theorem Inv.complete (inv : Inv s) (silent : s.operationDone = none) {operation : Outstanding}
    (member : operation ∈ s.outstanding) :
    Inv (s.complete operation) ∧ Told (s.complete operation) := by
  have settled := inv.settled operation member
  have ends : (∀ version, ¬ operation.covers version) →
      ∀ version, (operation.id, version) ∈ s.returned → s.Wrote version := fun covers version one =>
    (settled version one).resolve_right (covers version)
  cases operation with
  | writing blob id version =>
    constructor
    · refine inv.replace member [.erasingReplaced s.inactiveBlob id] (Or.inr rfl)
        (version :: s.written) ?_ ?_
      · intro one wrote
        obtain ⟨later, there, before⟩ := wrote
        exact ⟨later, mem_cons_of_mem _ there, before⟩
      · intro one returned
        rcases settled one returned with ⟨later, there, before⟩ | covers
        · exact ⟨later, mem_cons_of_mem _ there, before⟩
        · exact ⟨version, mem_cons_self, covers⟩
    · exact told_of_none silent
  | erasingReplaced blob id =>
    have wrote := ends fun _ covers => covers
    have removed := inv.replace member [] (Or.inl rfl) _ (fun _ wrote => wrote) wrote
    rw [append_nil] at removed
    constructor
    · exact removed.blobWriteDone.of_eq rfl le_rfl
    · intro done told version returned
      obtain rfl := Option.some.inj told
      have before : (id, version) ∈ s.returned := by
        change (id, version) ∈ (OperationStore.blobWriteDone _).returned at returned
        rwa [blobWriteDone_returned] at returned
      change ∃ written ∈ (OperationStore.blobWriteDone _).written, version ≤ written
      rw [blobWriteDone_written]
      exact wrote version before
  | erasingInactive blob id =>
    have wrote := ends fun _ covers => covers
    constructor
    · exact inv.replace member [.erasingActive s.activeBlob id] (Or.inr rfl) _
        (fun _ wrote => wrote) wrote
    · exact told_of_none silent
  | erasingActive blob id =>
    have wrote := ends fun _ covers => covers
    have removed := inv.replace member [] (Or.inl rfl) _ (fun _ wrote => wrote) wrote
    rw [append_nil] at removed
    constructor
    · exact removed.of_eq rfl le_rfl
    · intro done told version returned
      obtain rfl := Option.some.inj told
      exact wrote version returned

theorem Inv.step (inv : Inv s) {action : Action} (careful : Careful s action)
    {t : OperationStore} (steps : step s action = some t) : Inv t ∧ Told t := by
  let quiet : OperationStore := { s with operationDone := none }
  have quietInv : Inv quiet := inv.of_eq rfl le_rfl
  cases action with
  | changeConfiguration =>
    obtain rfl := Option.some.inj steps
    exact ⟨inv.of_eq rfl (Nat.le_succ _), told_of_none rfl⟩
  | write =>
    obtain rfl := Option.some.inj steps
    exact ⟨quietInv.callWrite careful, told_of_none (write_operationDone (s := quiet))⟩
  | lock =>
    obtain rfl := Option.some.inj steps
    exact ⟨inv.of_eq rfl le_rfl, told_of_none rfl⟩
  | unlock =>
    obtain ⟨-, same⟩ := Option.ite_none_right_eq_some.mp steps
    obtain rfl := Option.some.inj same
    exact ⟨quietInv.unlock, told_of_none (unlock_operationDone (s := quiet))⟩
  | erase =>
    obtain rfl := Option.some.inj steps
    exact ⟨quietInv.erase careful.1 careful.2, told_of_none rfl⟩
  | complete operation =>
    obtain ⟨member, same⟩ := Option.ite_none_right_eq_some.mp steps
    obtain rfl := Option.some.inj same
    exact quietInv.complete rfl member

theorem Inv.persisted (inv : Inv s) (told : Told s) : Persisted s where
  done := told
  apart := by
    intro operation member isErase pending
    rcases pending with ⟨version, returned, notWrote⟩ | ⟨other, there, notErase, same⟩
    · rcases inv.settled operation member version returned with wrote | covers
      · exact notWrote wrote
      · cases operation with
        | writing => cases isErase
        | _ => exact covers
    · have equal := inj_on_of_nodup_map inv.ids there member same
      cases notErase.symm.trans (equal ▸ isErase)

/-- While no erase is called during a write that is put off, observers that are told of an
identifier are told of a configuration that is persisted. -/
theorem done_means_persisted (activeBlob : Blob) (s : OperationStore)
    (reached : Reachable step Careful (afterRecovery activeBlob) s) : Persisted s := by
  have kept : Inv s ∧ Told s := by
    apply reached.invariant
    · exact ⟨inv_afterRecovery activeBlob, told_of_none rfl⟩
    · intro s action t good careful steps
      exact good.1.step careful steps
  exact kept.1.persisted kept.2

/-- Two writes are put together, and the second one is written after the first. -/
theorem done_means_persisted_twoWrites : ∃ s,
    Reachable step Careful (afterRecovery .first) s ∧ Persisted s ∧
      decide (s.operationDone = some 1 ∧ (1, 2) ∈ s.returned ∧ s.written = [2, 1]) = true := by
  obtain ⟨s, reached, shown⟩ := exists_of_executeIf Careful step (afterRecovery .first)
    [.changeConfiguration, .write, .changeConfiguration, .write,
      .complete (.writing .first 0 1), .complete (.erasingReplaced .second 0),
      .complete (.writing .second 1 2), .complete (.erasingReplaced .first 1)]
    (fun s => decide (s.operationDone = some 1 ∧ (1, 2) ∈ s.returned ∧ s.written = [2, 1]))
    (by decide)
  exact ⟨s, reached, done_means_persisted .first s reached, shown⟩

/-- A write that is put off by a lock and an erase have the same identifier: the observers are
told of it when the erase is done. -/
theorem done_before_write_lockedStore :
    ¬ ∀ s, Reachable step anyStep (afterRecovery .first) s → Persisted s := by
  intro always
  obtain ⟨s, reached, shown⟩ := exists_of_execute step (afterRecovery .first)
    [.lock, .changeConfiguration, .write, .erase, .complete (.erasingInactive .second 0),
      .complete (.erasingActive .first 0)]
    (fun s => decide (s.operationDone = some 0 ∧ (0, 1) ∈ s.returned ∧ s.written = []))
    (by decide)
  obtain ⟨told, returned, nothing⟩ := of_decide_eq_true shown
  obtain ⟨version, written, -⟩ := (always s reached).done 0 told 1 returned
  rw [nothing] at written
  cases written

end OperationStore

end Configuration
