import EmbeddedInfra.Runs
import EmbeddedInfra.Ble.ClaimingGattClientConnection
import Mathlib.Tactic

/-! Long operations transfer the whole value, and report once. -/

namespace Ble.Gatt.Connection

open Runs List

/-! ### Chunks -/

def Consecutive : Nat → List (Nat × Bytes) → Prop
  | _, [] => True
  | offset, chunk :: rest =>
    chunk.1 = offset ∧ chunk.2 ≠ [] ∧ Consecutive (offset + chunk.2.length) rest

def contents (chunks : List (Nat × Bytes)) : Bytes := chunks.flatMap Prod.snd

variable {offset : Nat} {answer : Answer}

theorem consecutive_append {chunks : List (Nat × Bytes)} {last : Bytes}
    (before : Consecutive offset chunks) (some_left : last ≠ []) :
    Consecutive offset (chunks ++ [(offset + (contents chunks).length, last)]) := by
  induction chunks generalizing offset with
  | nil => exact ⟨rfl, some_left, trivial⟩
  | cons chunk rest ih =>
    obtain ⟨here, filled, later⟩ := before
    have next := ih later
    rw [Nat.add_assoc, ← length_append] at next
    exact ⟨here, filled, next⟩

theorem contents_append (chunks : List (Nat × Bytes)) (offset : Nat) (last : Bytes) :
    contents (chunks ++ [(offset, last)]) = contents chunks ++ last := by
  simp [contents]

def prepared (handle : Nat) (calls : List (Request × GattRequestStatus)) : List (Nat × Bytes) :=
  (calls.map Prod.fst).filterMap fun request =>
    match request with
    | .prepareWrite at_ offset data => if at_ = handle then some (offset, data) else none
    | _ => none

def echo (chunk : Nat × Bytes) : Answer := ⟨.success, chunk.1, chunk.2⟩

def accepted (request : Request) : Request × GattRequestStatus := (request, .accepted)

def prepare (handle : Nat) (chunk : Nat × Bytes) : Request :=
  .prepareWrite handle chunk.1 chunk.2

/-! ### What a write does -/

/-- What was called for so far: the chunks of the value in order, and an Execute Write with the write
flag only when all of them were echoed. -/
structure InOrder (mtu handle : Nat) (data : Bytes) (s : Connection) : Prop where
  consecutive : Consecutive 0 (prepared handle s.calls)
  partOf : contents (prepared handle s.calls) <+: data
  sized : ∀ chunk ∈ prepared handle s.calls, chunk.2.length ≤ mtu - 5
  forHandle : ∀ at_ offset chunk, (∃ status, (.prepareWrite at_ offset chunk, status) ∈ s.calls) →
    at_ = handle
  written : (∃ status, (.executeWrite .write, status) ∈ s.calls) →
    contents (prepared handle s.calls) = data ∧
      (prepared handle s.calls).map echo <+: s.answers
  /-- A value that fits is written at once. -/
  atOnce : ∀ at_ whole, (∃ status, (.write at_ whole, status) ∈ s.calls) →
    at_ = handle ∧ whole = data ∧ data.length ≤ mtu - 3 ∧ s.calls.length = 1
  noReads : ∀ entry ∈ s.calls, (∀ at_, entry.1 ≠ .read at_) ∧ ∀ at_ offset, entry.1 ≠ .readBlob at_ offset

def Ended (s : Connection) : Prop :=
  (∃ at_ offset chunk, accepted (.prepareWrite at_ offset chunk) ∈ s.calls) →
    accepted (.executeWrite .write) ∈ s.calls ∨ ∃ status, (.executeWrite .cancel, status) ∈ s.calls

/-- The queue is cancelled only when no Execute Write was accepted. -/
def Exclusive (s : Connection) : Prop :=
  (∃ status, (.executeWrite .cancel, status) ∈ s.calls) → accepted (.executeWrite .write) ∉ s.calls

inductive WritePhase (mtu handle : Nat) (data : Bytes) (s : Connection) : Prop
  | queued (at_ : s = begun handle (.longWrite data 0 .success))
  | writeCalled (at_ : s.place = .calling (.write handle data) true) (short : data.length ≤ mtu - 3)
      (calls : s.calls = [])
  | writeWaiting (at_ : s.place = .waiting (.write handle data))
      (calls : s.calls = [accepted (.write handle data)])
  | preparing (offset : Nat) (sent : List (Nat × Bytes)) (pendingResult : GattResult)
      (at_ : s.place = .calling (.prepareWrite handle offset (currentLongWriteChunk mtu data offset))
        (decide (offset = 0)))
      (operation : s.operation = .longWrite data offset pendingResult)
      (calls : s.calls = sent.map fun chunk => accepted (prepare handle chunk))
      (answers : s.answers = sent.map echo) (consecutive : Consecutive 0 sent)
      (partly : contents sent = data.take offset) (sized : ∀ chunk ∈ sent, chunk.2.length ≤ mtu - 5)
      (inside : offset < data.length)
  | prepareWaiting (offset : Nat) (sent : List (Nat × Bytes)) (pendingResult : GattResult)
      (at_ : s.place = .waiting (.prepareWrite handle offset (currentLongWriteChunk mtu data offset)))
      (operation : s.operation = .longWrite data offset pendingResult)
      (calls : s.calls = (sent ++ [(offset, currentLongWriteChunk mtu data offset)]).map
        fun chunk => accepted (prepare handle chunk))
      (answers : s.answers = sent.map echo) (consecutive : Consecutive 0 sent)
      (partly : contents sent = data.take offset) (sized : ∀ chunk ∈ sent, chunk.2.length ≤ mtu - 5)
      (inside : offset < data.length)
  | executing (sent : List (Nat × Bytes)) (pendingResult : GattResult)
      (at_ : s.place = .calling (.executeWrite .write) false)
      (operation : s.operation = .longWrite data data.length pendingResult)
      (calls : s.calls = sent.map fun chunk => accepted (prepare handle chunk))
      (answers : s.answers = sent.map echo) (consecutive : Consecutive 0 sent)
      (partly : contents sent = data) (sized : ∀ chunk ∈ sent, chunk.2.length ≤ mtu - 5)
  | executeWaiting (at_ : s.place = .waiting (.executeWrite .write))
      (called : accepted (.executeWrite .write) ∈ s.calls)
  | cancelling (at_ : s.place = .calling (.executeWrite .cancel) false)
      (unwritten : accepted (.executeWrite .write) ∉ s.calls)
      (split : ∀ at_ whole, ¬ ∃ status, (.write at_ whole, status) ∈ s.calls)
  | cancelWaiting (at_ : s.place = .waiting (.executeWrite .cancel))
      (called : ∃ status, (.executeWrite .cancel, status) ∈ s.calls)
  | done (at_ : s.place = .idle) (claim : s.claim = .unclaimed) (once : s.reports.length = 1)
      (ended : Ended s)

structure WriteInvariant (mtu handle : Nat) (data : Bytes) (s : Connection) : Prop where
  sameHandle : s.handle = handle
  operation : ∃ offset pendingResult, s.operation = .longWrite data offset pendingResult
  inOrder : InOrder mtu handle data s
  exclusive : Exclusive s
  busy : s.place ≠ .idle → s.claim = .claimed ∧ s.reports = []
  phase : WritePhase mtu handle data s

section Calls

variable {mtu handle : Nat} {data : Bytes} {s t : Connection} {sent : List (Nat × Bytes)}

theorem prepared_append (first second : List (Request × GattRequestStatus)) :
    prepared handle (first ++ second) = prepared handle first ++ prepared handle second := by
  rw [prepared, map_append, filterMap_append, prepared, prepared]

variable {calls : List (Request × GattRequestStatus)} {request : Request}

theorem prepared_of_requests (requests : calls.map Prod.fst = sent.map (prepare handle)) :
    prepared handle calls = sent := by
  rw [prepared, requests, filterMap_map]
  calc
    _ = sent.filterMap some := filterMap_congr fun _ _ => if_pos rfl
    _ = sent := filterMap_some

theorem requests_sent (sent : List (Nat × Bytes)) :
    (sent.map fun chunk => accepted (prepare handle chunk)).map Prod.fst =
      sent.map (prepare handle) := by
  rw [List.map_map]
  rfl

variable {status : GattRequestStatus}

theorem request_of_prepares (requests : calls.map Prod.fst = sent.map (prepare handle))
    (member : (request, status) ∈ calls) :
    ∃ chunk, request = prepare handle chunk := by
  have member := mem_map_of_mem (f := Prod.fst) member
  rw [requests] at member
  obtain ⟨chunk, _, same⟩ := mem_map.mp member
  exact ⟨chunk, same.symm⟩

theorem inOrder_prepares (requests : s.calls.map Prod.fst = sent.map (prepare handle))
    (consecutive : Consecutive 0 sent) (partOf : contents sent <+: data)
    (sized : ∀ chunk ∈ sent, chunk.2.length ≤ mtu - 5) : InOrder mtu handle data s := by
  have all := prepared_of_requests requests
  refine ⟨all.symm ▸ consecutive, all.symm ▸ partOf, all.symm ▸ sized, ?_, ?_, ?_, ?_⟩
  · rintro at_ offset chunk ⟨status, member⟩
    obtain ⟨_, same⟩ := request_of_prepares requests member
    exact (Request.prepareWrite.inj same).1
  · rintro ⟨status, member⟩
    obtain ⟨_, same⟩ := request_of_prepares requests member
    cases same
  · rintro at_ whole ⟨status, member⟩
    obtain ⟨_, same⟩ := request_of_prepares requests member
    cases same
  · rintro ⟨request, status⟩ member
    obtain ⟨_, same⟩ := request_of_prepares requests member
    rw [same]
    exact ⟨fun _ => Request.noConfusion, fun _ _ => Request.noConfusion⟩

theorem no_other_request (requests : calls.map Prod.fst = sent.map (prepare handle))
    (other : ∀ at_ offset chunk, request ≠ .prepareWrite at_ offset chunk) :
    ¬ ∃ status, (request, status) ∈ calls := by
  rintro ⟨status, member⟩
  obtain ⟨_, same⟩ := request_of_prepares requests member
  exact other _ _ _ same

theorem InOrder.answered (inOrder : InOrder mtu handle data s) (calls : t.calls = s.calls)
    (answers : s.answers <+: t.answers) : InOrder mtu handle data t where
  consecutive := calls ▸ inOrder.consecutive
  partOf := calls ▸ inOrder.partOf
  sized := calls ▸ inOrder.sized
  forHandle := calls ▸ inOrder.forHandle
  written called := by
    rw [calls] at called ⊢
    have written := inOrder.written called
    exact ⟨written.1, written.2.trans answers⟩
  atOnce := calls ▸ inOrder.atOnce
  noReads := calls ▸ inOrder.noReads

theorem mem_snoc {last : Request} {lastStatus : GattRequestStatus} (other : request ≠ last) :
    (∃ status, (request, status) ∈ calls ++ [(last, lastStatus)]) ↔
      ∃ status, (request, status) ∈ calls := by
  constructor
  · rintro ⟨status, member⟩
    rw [mem_append, mem_singleton] at member
    rcases member with member | same
    · exact ⟨status, member⟩
    · exact absurd (congrArg Prod.fst same) other
  · rintro ⟨status, member⟩
    exact ⟨status, mem_append_left _ member⟩

theorem InOrder.executed (inOrder : InOrder mtu handle data s) {flag : GattExecuteWriteFlag}
    (calls : t.calls = s.calls ++ [(.executeWrite flag, status)]) (answers : t.answers = s.answers)
    (split : ∀ at_ whole, ¬ ∃ status, (.write at_ whole, status) ∈ s.calls)
    (whole : flag = .write → contents (prepared handle s.calls) = data ∧
      (prepared handle s.calls).map echo <+: s.answers) :
    InOrder mtu handle data t := by
  have same : prepared handle t.calls = prepared handle s.calls := by
    rw [calls, prepared_append]
    exact append_nil _
  refine ⟨same ▸ inOrder.consecutive, same ▸ inOrder.partOf, same ▸ inOrder.sized, ?_, ?_, ?_, ?_⟩
  · intro at_ offset chunk called
    rw [calls, mem_snoc Request.noConfusion] at called
    exact inOrder.forHandle at_ offset chunk called
  · intro called
    rw [same, answers]
    by_cases flagged : flag = .write
    · exact whole flagged
    · rw [calls, mem_snoc fun same => flagged (Request.executeWrite.inj same).symm] at called
      exact inOrder.written called
  · intro at_ whole called
    rw [calls, mem_snoc Request.noConfusion] at called
    exact absurd called (split at_ whole)
  · intro entry member
    rw [calls, mem_append, mem_singleton] at member
    rcases member with member | rfl
    · exact inOrder.noReads entry member
    · exact ⟨fun _ => Request.noConfusion, fun _ _ => Request.noConfusion⟩

theorem next_chunk (chunked : 0 < mtu - 5) {offset : Nat} (inside : offset < data.length)
    (consecutive : Consecutive 0 sent) (partly : contents sent = data.take offset)
    (sized : ∀ chunk ∈ sent, chunk.2.length ≤ mtu - 5) :
    let chunk := currentLongWriteChunk mtu data offset
    0 < chunk.length ∧ offset + chunk.length ≤ data.length ∧
      Consecutive 0 (sent ++ [(offset, chunk)]) ∧
      contents (sent ++ [(offset, chunk)]) = data.take (offset + chunk.length) ∧
      ∀ entry ∈ sent ++ [(offset, chunk)], entry.2.length ≤ mtu - 5 := by
  intro chunk
  have length : chunk.length = min (mtu - 5) (data.length - offset) := by
    simp only [chunk, currentLongWriteChunk, longWriteChunkSize, length_take, length_drop]
  have reached : (contents sent).length = offset := by
    rw [partly, length_take]
    omega
  have grown : Consecutive 0 (sent ++ [(0 + (contents sent).length, chunk)]) :=
    consecutive_append consecutive (ne_nil_of_length_pos (by omega))
  rw [Nat.zero_add, reached] at grown
  refine ⟨by omega, by omega, grown, ?_, ?_⟩
  · have whole : chunk = (data.drop offset).take chunk.length := by
      rw [length]
      simp only [chunk, currentLongWriteChunk, longWriteChunkSize]
      rw [← length_drop, take_eq_take_min]
    rw [contents_append, partly, take_add]
    exact congrArg _ whole
  · intro entry member
    rcases mem_append.mp member with before | last
    · exact sized entry before
    · rw [mem_singleton.mp last]
      show chunk.length ≤ mtu - 5
      omega

end Calls

/-! ### The steps of a write -/

section Write

variable {mtu handle : Nat} {data : Bytes} {s t : Connection}

variable {result : GattResult} {offset : Nat} {answer : Answer}

theorem invariant_complete {value : Bytes} (sameHandle : s.handle = handle)
    (operation : ∃ offset pendingResult, s.operation = .longWrite data offset pendingResult)
    (inOrder : InOrder mtu handle data s) (exclusive : Exclusive s) (silent : s.reports = [])
    (ended : Ended s) : WriteInvariant mtu handle data (s.complete result value) where
  sameHandle := sameHandle
  operation := operation
  inOrder := inOrder.answered rfl List.prefix_rfl
  exclusive := exclusive
  busy := fun other => absurd rfl other
  phase := .done rfl rfl (by simp [complete, silent]) ended

theorem invariant_cancel (sameHandle : s.handle = handle) (inOrder : InOrder mtu handle data s)
    (busy : s.claim = .claimed ∧ s.reports = [])
    (unwritten : accepted (.executeWrite .write) ∉ s.calls)
    (split : ∀ at_ whole, ¬ ∃ status, (.write at_ whole, status) ∈ s.calls) :
    WriteInvariant mtu handle data (s.cancelLongWrite data offset result) where
  sameHandle := sameHandle
  operation := ⟨offset, result, rfl⟩
  inOrder := inOrder.answered rfl List.prefix_rfl
  exclusive := fun _ => unwritten
  busy := fun _ => busy
  phase := .cancelling rfl unwritten split

theorem granted_invariant (chunked : mtu - 3 < data.length → 0 < data.length)
    (keeps : WriteInvariant mtu handle data s) (steps : s.step mtu .claimGranted = some t) :
    WriteInvariant mtu handle data t := by
  simp only [step] at steps
  split at steps
  next queued =>
    cases steps
    have initial : s = begun handle (.longWrite data 0 .success) := by
      cases keeps.phase with
      | queued at_ => exact at_
      | done _ claim _ _ => simp [claim] at queued
      | writeCalled at_ _ _ | writeWaiting at_ _ | preparing _ _ _ at_
      | prepareWaiting _ _ _ at_ | executing _ _ at_ | executeWaiting at_ _ | cancelling at_ _ _
      | cancelWaiting at_ _ => simp [(keeps.busy (by simp [at_])).1] at queued
    have inOrder : InOrder mtu handle data s := keeps.inOrder
    subst initial
    simp only [performCharacteristicOperation, begun]
    by_cases short : data.length ≤ maximumWritePayloadSize mtu
    · rw [if_pos short]
      refine ⟨rfl, ⟨0, .success, rfl⟩, inOrder.answered rfl List.prefix_rfl, fun called => ?_,
        fun _ => ⟨rfl, rfl⟩, .writeCalled rfl short rfl⟩
      obtain ⟨_, member⟩ := called
      exact absurd member not_mem_nil
    · rw [if_neg short]
      refine ⟨rfl, ⟨0, .success, rfl⟩, inOrder.answered rfl List.prefix_rfl, fun called => ?_,
        fun _ => ⟨rfl, rfl⟩, ?_⟩
      · obtain ⟨_, member⟩ := called
        exact absurd member not_mem_nil
      · exact .preparing 0 [] .success rfl rfl rfl rfl trivial rfl
          (fun _ member => absurd member not_mem_nil) (chunked (Nat.lt_of_not_le short))
  next => cases steps

theorem returns_invariant (chunked : 0 < mtu - 5) {status : GattRequestStatus}
    (keeps : WriteInvariant mtu handle data s) (steps : s.step mtu (.returns status) = some t) :
    WriteInvariant mtu handle data t := by
  have sameHandle := keeps.sameHandle
  simp only [step] at steps
  cases keeps.phase with
  | writeCalled at_ short calls =>
    obtain ⟨claimed, silent⟩ := keeps.busy (by simp [at_])
    have inOrder : ∀ u : Connection, u.calls = [(.write handle data, status)] →
        InOrder mtu handle data u := by
      intro u same
      refine ⟨?_, ?_, ?_, ?_, ?_, ?_, ?_⟩ <;> rw [same]
      · exact trivial
      · exact List.nil_prefix
      · exact fun _ member => absurd member not_mem_nil
      · simp
      · simp
      · intro at_ whole called
        have found : at_ = handle ∧ whole = data := by simpa using called
        exact ⟨found.1, found.2, short, rfl⟩
      · simp
    have exclusive : ∀ u : Connection, u.calls = [(.write handle data, status)] → Exclusive u := by
      intro u same
      rw [Exclusive, same]
      simp
    rw [at_] at steps
    simp only [calls, nil_append, Option.some.injEq] at steps
    split at steps
    next accepts =>
      subst steps accepts
      exact ⟨sameHandle, keeps.operation, inOrder _ rfl, exclusive _ rfl, fun _ => ⟨claimed, silent⟩,
        .writeWaiting rfl rfl⟩
    next refuses =>
      subst steps
      simp only [refused, if_true]
      refine invariant_complete sameHandle keeps.operation (inOrder _ rfl) (exclusive _ rfl) silent ?_
      simp [Ended, accepted]
  | preparing offset sent pendingResult at_ operation calls answers consecutive partly sized inside =>
    obtain ⟨claimed, silent⟩ := keeps.busy (by simp [at_])
    obtain ⟨_, fits, grown, more, allSized⟩ := next_chunk chunked inside consecutive partly sized
    have requests : (s.calls ++ [(Request.prepareWrite handle offset
        (currentLongWriteChunk mtu data offset), status)]).map Prod.fst =
          (sent ++ [(offset, currentLongWriteChunk mtu data offset)]).map (prepare handle) := by
      rw [calls, map_append, requests_sent, map_append]
      rfl
    have inOrder : ∀ u : Connection, u.calls = s.calls ++ [(.prepareWrite handle offset
        (currentLongWriteChunk mtu data offset), status)] → InOrder mtu handle data u := by
      intro u same
      exact inOrder_prepares (same ▸ requests) grown (more ▸ List.take_prefix _ _) allSized
    have unexecuted : ∀ flag, ¬ ∃ other, (Request.executeWrite flag, other) ∈ s.calls ++
        [(.prepareWrite handle offset (currentLongWriteChunk mtu data offset), status)] :=
      fun flag => no_other_request requests fun _ _ _ => Request.noConfusion
    rw [at_] at steps
    simp only [Option.some.injEq] at steps
    split at steps
    next accepts =>
      subst steps accepts
      refine ⟨sameHandle, keeps.operation, inOrder _ rfl, fun called => absurd called (unexecuted _),
        fun _ => ⟨claimed, silent⟩, ?_⟩
      refine .prepareWaiting offset sent pendingResult rfl operation ?_ answers consecutive partly
        sized inside
      rw [map_append, ← calls]
      rfl
    next refuses =>
      subst steps
      by_cases first : offset = 0
      · simp only [refused, first, decide_true, if_true]
        refine invariant_complete sameHandle keeps.operation (inOrder _ (by rw [first]))
          (fun called => absurd called (first ▸ unexecuted _)) silent ?_
        rintro ⟨at_, place, chunk, called⟩
        have none_sent : sent = [] := by
          rw [first, take_zero] at partly
          cases sent with
          | nil => rfl
          | cons chunk rest =>
            have empty := (append_eq_nil_iff.mp partly).1
            exact absurd empty consecutive.2.1
        rw [calls, none_sent] at called
        have same := congrArg Prod.snd (mem_singleton.mp called)
        exact absurd same.symm refuses
      · simp only [refused, first, decide_false, Bool.false_eq_true, if_false, operation]
        refine invariant_cancel sameHandle (inOrder _ rfl) ⟨claimed, silent⟩ ?_ ?_
        · exact fun called => unexecuted _ ⟨_, called⟩
        · exact fun _ _ => no_other_request requests fun _ _ _ => Request.noConfusion
  | executing sent pendingResult at_ operation calls answers consecutive partly sized =>
    obtain ⟨claimed, silent⟩ := keeps.busy (by simp [at_])
    have requests : s.calls.map Prod.fst = sent.map (prepare handle) := by
      rw [calls, requests_sent]
    have all : prepared handle s.calls = sent := prepared_of_requests requests
    have inOrder : ∀ u : Connection, u.calls = s.calls ++ [(.executeWrite .write, status)] →
        u.answers = s.answers → InOrder mtu handle data u := by
      intro u same sameAnswers
      refine keeps.inOrder.executed same sameAnswers ?_ fun _ => ?_
      · exact fun _ _ => no_other_request requests fun _ _ _ => Request.noConfusion
      · rw [all, answers]
        exact ⟨partly, List.prefix_rfl⟩
    have uncancelled : ¬ ∃ other, (Request.executeWrite .cancel, other) ∈ s.calls ++
        [(.executeWrite .write, status)] := by
      rw [mem_snoc (by simp)]
      exact no_other_request requests fun _ _ _ => Request.noConfusion
    rw [at_] at steps
    simp only [Option.some.injEq] at steps
    split at steps
    next accepts =>
      subst steps accepts
      refine ⟨sameHandle, keeps.operation, inOrder _ rfl rfl, fun called => absurd called uncancelled,
        fun _ => ⟨claimed, silent⟩, .executeWaiting rfl ?_⟩
      exact mem_append_right _ mem_cons_self
    next refuses =>
      subst steps
      simp only [refused, Bool.false_eq_true, if_false, operation]
      refine invariant_cancel sameHandle (inOrder _ rfl rfl) ⟨claimed, silent⟩ ?_ ?_
      · intro called
        rcases mem_append.mp called with called | called
        · exact no_other_request requests (fun _ _ _ => Request.noConfusion) ⟨_, called⟩
        · exact refuses (congrArg Prod.snd (mem_singleton.mp called)).symm
      · intro at_ whole called
        rw [mem_snoc Request.noConfusion] at called
        exact no_other_request requests (fun _ _ _ => Request.noConfusion) called
  | cancelling at_ unwritten split =>
    obtain ⟨claimed, silent⟩ := keeps.busy (by simp [at_])
    obtain ⟨offset, pendingResult, operation⟩ := keeps.operation
    have inOrder : ∀ u : Connection, u.calls = s.calls ++ [(.executeWrite .cancel, status)] →
        u.answers = s.answers → InOrder mtu handle data u :=
      fun u same sameAnswers => keeps.inOrder.executed same sameAnswers split (by simp)
    have still : accepted (.executeWrite .write) ∉ s.calls ++ [(.executeWrite .cancel, status)] := by
      simpa [accepted] using unwritten
    have called : ∃ other, (Request.executeWrite .cancel, other) ∈
        s.calls ++ [(.executeWrite .cancel, status)] :=
      ⟨status, mem_append_right _ mem_cons_self⟩
    rw [at_] at steps
    simp only [Option.some.injEq] at steps
    split at steps
    next =>
      subst steps
      exact ⟨sameHandle, keeps.operation, inOrder _ rfl rfl, fun _ => still,
        fun _ => ⟨claimed, silent⟩, .cancelWaiting rfl called⟩
    next =>
      subst steps
      simp only [refused, Bool.false_eq_true, if_false, operation]
      exact invariant_complete sameHandle ⟨_, _, rfl⟩ (inOrder _ rfl rfl) (fun _ => still) silent
        fun _ => .inr called
  | queued at_ => simp [at_, begun] at steps
  | writeWaiting at_ _ | prepareWaiting _ _ _ at_ | executeWaiting at_ _ | cancelWaiting at_ _
  | done at_ _ _ _ => simp [at_] at steps

theorem chunkPrepared_invariant (chunked : 0 < mtu - 5) (few : data.length < 2 ^ 16)
    {sent : List (Nat × Bytes)} {pendingResult : GattResult} (sameHandle : s.handle = handle)
    (claimed : s.claim = .claimed) (silent : s.reports = [])
    (calls : s.calls = (sent ++ [(offset, currentLongWriteChunk mtu data offset)]).map fun chunk =>
      accepted (prepare handle chunk)) (answers : s.answers = sent.map echo ++ [answer])
    (consecutive : Consecutive 0 sent) (partly : contents sent = data.take offset)
    (sized : ∀ chunk ∈ sent, chunk.2.length ≤ mtu - 5) (inside : offset < data.length) :
    WriteInvariant mtu handle data (s.longWriteChunkPrepared mtu data offset pendingResult answer) := by
  obtain ⟨filled, fits, grown, more, allSized⟩ := next_chunk chunked inside consecutive partly sized
  have requests : s.calls.map Prod.fst =
      (sent ++ [(offset, currentLongWriteChunk mtu data offset)]).map (prepare handle) := by
    rw [calls, requests_sent]
  have inOrder : ∀ u : Connection, u.calls = s.calls → InOrder mtu handle data u := by
    intro u same
    exact inOrder_prepares (same ▸ requests) grown (more ▸ List.take_prefix _ _) allSized
  have cancels : ∀ result, WriteInvariant mtu handle data (s.cancelLongWrite data offset result) := by
    intro result
    refine invariant_cancel sameHandle (inOrder _ rfl) ⟨claimed, silent⟩ ?_ ?_
    · exact fun called => no_other_request requests (fun _ _ _ => Request.noConfusion) ⟨_, called⟩
    · exact fun _ _ => no_other_request requests fun _ _ _ => Request.noConfusion
  have exclusive : ∀ u : Connection, u.calls = s.calls → Exclusive u := by
    intro u same called
    rw [same] at called
    exact absurd called (no_other_request requests fun _ _ _ => Request.noConfusion)
  simp only [longWriteChunkPrepared]
  split
  next => exact cancels _
  next success =>
    split
    next => exact cancels _
    next same =>
      obtain ⟨sameOffset, sameChunk⟩ := not_or.mp same
      have success : answer.result = .success := not_not.mp success
      have sameOffset : answer.offset = offset := not_not.mp sameOffset
      have sameChunk : currentLongWriteChunk mtu data offset = answer.data := not_not.mp sameChunk
      have wrap : (offset + (currentLongWriteChunk mtu data offset).length) % 2 ^ 16 =
          offset + (currentLongWriteChunk mtu data offset).length := Nat.mod_eq_of_lt (by omega)
      have echoed : s.answers =
          (sent ++ [(offset, currentLongWriteChunk mtu data offset)]).map echo := by
        rw [answers, map_append, map_singleton, echo, sameChunk, ← success, ← sameOffset]
      simp only [wrap]
      split
      next whole =>
        refine ⟨sameHandle, ⟨_, pendingResult, rfl⟩, inOrder _ rfl, exclusive _ rfl,
          fun _ => ⟨claimed, silent⟩, ?_⟩
        refine .executing _ pendingResult rfl ?_ calls echoed grown ?_ allSized
        · exact congrArg (Operation.longWrite data · pendingResult) whole
        · rw [more, whole, take_length]
      next partOnly =>
        refine ⟨sameHandle, ⟨_, pendingResult, rfl⟩, inOrder _ rfl, exclusive _ rfl,
          fun _ => ⟨claimed, silent⟩, ?_⟩
        have later : decide (offset + (currentLongWriteChunk mtu data offset).length = 0) = false :=
          decide_eq_false (by omega)
        refine .preparing _ _ pendingResult ?_ rfl calls echoed grown more allSized (by omega)
        rw [later]
        simp only [continueLongWrite, call, sameHandle]

theorem calledBack_invariant (chunked : 0 < mtu - 5) (few : data.length < 2 ^ 16)
    (keeps : WriteInvariant mtu handle data s) (steps : s.step mtu (.calledBack answer) = some t) :
    WriteInvariant mtu handle data t := by
  have sameHandle := keeps.sameHandle
  obtain ⟨_, _, operation⟩ := keeps.operation
  have inOrder : InOrder mtu handle data { s with answers := s.answers ++ [answer] } :=
    keeps.inOrder.answered rfl (List.prefix_append _ _)
  simp only [step] at steps
  cases keeps.phase with
  | writeWaiting at_ calls =>
    obtain ⟨_, silent⟩ := keeps.busy (by simp [at_])
    simp only [at_, Option.some.injEq, answered, operation] at steps
    subst steps
    refine invariant_complete sameHandle ⟨_, _, rfl⟩ (inOrder.answered rfl List.prefix_rfl)
      keeps.exclusive silent ?_
    simp [Ended, calls, accepted]
  | prepareWaiting offset sent pendingResult at_ place calls answers consecutive partly sized inside =>
    obtain ⟨claimed, silent⟩ := keeps.busy (by simp [at_])
    simp only [at_, Option.some.injEq, answered, place] at steps
    subst steps
    exact chunkPrepared_invariant (s := { s with
        operation := .longWrite data offset pendingResult
        place := .waiting (.prepareWrite handle offset (currentLongWriteChunk mtu data offset))
        answers := s.answers ++ [answer] }) chunked few sameHandle claimed silent
      calls (congrArg (· ++ _) answers) consecutive partly sized inside
  | executeWaiting at_ called =>
    obtain ⟨_, silent⟩ := keeps.busy (by simp [at_])
    simp only [at_, Option.some.injEq, answered, operation] at steps
    subst steps
    exact invariant_complete sameHandle ⟨_, _, rfl⟩ (inOrder.answered rfl List.prefix_rfl)
      keeps.exclusive silent fun _ => .inl called
  | cancelWaiting at_ called =>
    obtain ⟨_, silent⟩ := keeps.busy (by simp [at_])
    simp only [at_, Option.some.injEq, answered, operation] at steps
    subst steps
    exact invariant_complete sameHandle ⟨_, _, rfl⟩ (inOrder.answered rfl List.prefix_rfl)
      keeps.exclusive silent fun _ => .inr called
  | queued at_ => simp [at_, begun] at steps
  | writeCalled at_ _ _ | preparing _ _ _ at_ | executing _ _ at_ | cancelling at_ _ _
  | done at_ _ _ _ => simp [at_] at steps

end Write

/-! ### The steps of a read -/

section Read

variable {mtu handle maxSize : Nat} {s t : Connection}

inductive ReadPhase (handle maxSize : Nat) (s : Connection) : Prop
  | queued (at_ : s = begun handle (.longRead [] maxSize))
  | calling (request : Request) (first : Bool) (at_ : s.place = .calling request first)
      (reads : request = .read handle ∨ ∃ offset, request = .readBlob handle offset)
      (busy : s.claim = .claimed ∧ s.reports = [])
  | waiting (request : Request) (at_ : s.place = .waiting request)
      (reads : request = .read handle ∨ ∃ offset, request = .readBlob handle offset)
      (busy : s.claim = .claimed ∧ s.reports = [])
  | done (at_ : s.place = .idle) (claim : s.claim = .unclaimed) (once : s.reports.length = 1)

structure ReadInvariant (handle maxSize : Nat) (s : Connection) : Prop where
  sameHandle : s.handle = handle
  operation : ∃ value, s.operation = .longRead value maxSize ∧ value.length ≤ maxSize
  phase : ReadPhase handle maxSize s

variable {value whole : Bytes}

theorem readInvariant_complete {result : GattResult} (sameHandle : s.handle = handle)
    (operation : ∃ value, s.operation = .longRead value maxSize ∧ value.length ≤ maxSize)
    (silent : s.reports = []) : ReadInvariant handle maxSize (s.complete result value) where
  sameHandle := sameHandle
  operation := operation
  phase := .done rfl rfl (by simp [complete, silent])

variable {first : Bool} {answer : Answer} {event : Event}

theorem readInvariant_continue (sameHandle : s.handle = handle)
    (operation : ∃ value, s.operation = .longRead value maxSize ∧ value.length ≤ maxSize)
    (busy : s.claim = .claimed ∧ s.reports = []) :
    ReadInvariant handle maxSize (s.continueLongRead value first) := by
  simp only [continueLongRead]
  split
  · exact ⟨sameHandle, operation, .calling _ first rfl (.inl (congrArg _ sameHandle)) busy⟩
  · exact ⟨sameHandle, operation,
      .calling _ first rfl (.inr ⟨_, congrArg (Request.readBlob · _) sameHandle⟩) busy⟩

theorem chunkReceived_invariant (sameHandle : s.handle = handle)
    (operation : s.operation = .longRead value maxSize) (fits : value.length ≤ maxSize)
    (busy : s.claim = .claimed ∧ s.reports = []) :
    ReadInvariant handle maxSize (s.longReadChunkReceived mtu value maxSize answer) := by
  simp only [longReadChunkReceived]
  split
  · exact readInvariant_complete sameHandle ⟨value, operation, fits⟩ busy.2
  split
  · exact readInvariant_complete sameHandle ⟨value, operation, fits⟩ busy.2
  split
  next =>
    refine readInvariant_complete sameHandle ⟨_, rfl, ?_⟩ busy.2
    rw [length_append, length_take]
    omega
  next room =>
    have fits : (value ++ answer.data).length ≤ maxSize := by
      rw [length_append]
      omega
    split
    · exact readInvariant_complete sameHandle ⟨_, rfl, fits⟩ busy.2
    · exact readInvariant_continue sameHandle ⟨_, rfl, fits⟩ busy

theorem readStep_invariant (keeps : ReadInvariant handle maxSize s)
    (steps : s.step mtu event = some t) : ReadInvariant handle maxSize t := by
  obtain ⟨sameHandle, ⟨value, operation, fits⟩, phase⟩ := keeps
  cases event with
  | claimGranted =>
    simp only [step] at steps
    split at steps
    next queued =>
      cases steps
      cases phase with
      | queued at_ =>
        subst at_
        show ReadInvariant handle maxSize (({ begun handle (.longRead [] maxSize) with
          claim := .claimed } : Connection).continueLongRead [] true)
        exact readInvariant_continue rfl ⟨[], rfl, Nat.zero_le _⟩ ⟨rfl, rfl⟩
      | calling _ _ _ _ busy | waiting _ _ _ busy => simp [busy.1] at queued
      | done _ claim _ => simp [claim] at queued
    next => cases steps
  | returns status =>
    simp only [step] at steps
    cases phase with
    | calling request first at_ reads busy =>
      simp only [at_, Option.some.injEq] at steps
      split at steps
      next =>
        subst steps
        exact ⟨sameHandle, ⟨value, operation, fits⟩, .waiting request rfl reads busy⟩
      next =>
        subst steps
        simp only [refused, operation]
        split
        · exact readInvariant_complete sameHandle ⟨value, rfl, fits⟩ busy.2
        · exact readInvariant_complete sameHandle ⟨value, rfl, fits⟩ busy.2
    | queued at_ => simp [at_, begun] at steps
    | waiting _ at_ _ _ | done at_ _ _ => simp [at_] at steps
  | calledBack answer =>
    simp only [step] at steps
    cases phase with
    | waiting request at_ reads busy =>
      simp only [at_, Option.some.injEq, answered, operation] at steps
      subst steps
      exact chunkReceived_invariant sameHandle rfl fits busy
    | queued at_ => simp [at_, begun] at steps
    | calling _ _ at_ _ _ | done at_ _ _ => simp [at_] at steps

/-- A peer answers as ATT prescribes: with the part of the value from the offset on that fits, or
with an error at the end of the value. -/
def Prescribed (mtu : Nat) (whole : Bytes) (s : Connection) : Event → Prop
  | .calledBack answer =>
    match s.place with
    | .waiting (.read _) => answer.result = .success ∧ answer.data = whole.take (mtu - 1)
    | .waiting (.readBlob _ offset) =>
      whole.length ≤ offset ∧ answer.result = .invalidOffset ∨
        offset ≤ whole.length ∧ answer.result = .success ∧
          answer.data = (whole.drop offset).take (mtu - 1)
    | _ => True
  | _ => True

instance (whole : Bytes) (s : Connection) : DecidablePred (Prescribed mtu whole s) := fun event => by
  cases event <;> unfold Prescribed
  case calledBack answer =>
    cases s.place with
    | waiting request => cases request <;> infer_instance
    | _ => infer_instance
  all_goals infer_instance

def readResult (maxSize : Nat) (whole : Bytes) : GattResult × Bytes :=
  if whole.length ≤ maxSize then (.success, whole)
  else (.insufficientResources, whole.take maxSize)

/-- What has been read is the first part of the value, and the next request is for the rest. -/
inductive PartPhase (maxSize : Nat) (whole : Bytes) (s : Connection) : Prop
  | queued (at_ : s.place = .idle) (claim : s.claim = .queued)
      (operation : s.operation = .longRead [] maxSize)
  | reading (value : Bytes) (request : Request) (operation : s.operation = .longRead value maxSize)
      (at_ : (∃ first, s.place = .calling request first) ∨ s.place = .waiting request)
      (offset : request = if value = [] then .read s.handle else .readBlob s.handle value.length)
      (part : value = whole.take value.length) (fits : value.length ≤ maxSize)
  | done (at_ : s.place = .idle) (claim : s.claim = .unclaimed)
      (report : (∀ entry ∈ s.calls, entry.2 = .accepted) → s.reports = [readResult maxSize whole])

theorem partPhase_continue (short : whole.length < 2 ^ 16)
    (operation : s.operation = .longRead value maxSize) (part : value = whole.take value.length)
    (fits : value.length ≤ maxSize) :
    PartPhase maxSize whole (s.continueLongRead value first) := by
  have within : value.length ≤ whole.length := by
    have length := congrArg List.length part
    rw [length_take] at length
    omega
  have wrap : value.length % 2 ^ 16 = value.length := Nat.mod_eq_of_lt (by omega)
  simp only [continueLongRead, wrap]
  split
  next zero =>
    have empty := eq_nil_of_length_eq_zero zero
    exact .reading value _ operation (.inl ⟨first, rfl⟩) (if_pos empty).symm part fits
  next more =>
    have filled : value ≠ [] := fun empty => more (congrArg List.length empty)
    exact .reading value _ operation (.inl ⟨first, rfl⟩) (if_neg filled).symm part fits

theorem partPhase_chunk (chunked : 0 < mtu - 1) (short : whole.length < 2 ^ 16)
    (operation : s.operation = .longRead value maxSize) (part : value = whole.take value.length)
    (fits : value.length ≤ maxSize) (silent : s.reports = []) (success : answer.result = .success)
    (data : answer.data = (whole.drop value.length).take (mtu - 1)) :
    PartPhase maxSize whole (s.longReadChunkReceived mtu value maxSize answer) := by
  have within : value.length ≤ whole.length := by
    have length := congrArg List.length part
    rw [length_take] at length
    omega
  have size : answer.data.length = min (mtu - 1) (whole.length - value.length) := by
    rw [data, length_take, length_drop]
  have grown : ∀ count ≤ mtu - 1, value ++ answer.data.take count =
      whole.take (value.length + count) := by
    intro count bound
    rw [take_add, ← part, data, take_take, Nat.min_eq_left bound]
  have notEnd : ¬ (answer.result = .invalidOffset ∧ value ≠ []) := by simp [success]
  rw [longReadChunkReceived, if_neg notEnd, if_neg (not_not.mpr success)]
  split
  next overflow =>
    refine .done rfl rfl fun _ => ?_
    have long : ¬ whole.length ≤ maxSize := by omega
    have filled := grown (maxSize - value.length) (by omega)
    rw [Nat.add_sub_cancel' fits] at filled
    simp only [complete, silent, nil_append, readResult, if_neg long, filled]
  next room =>
    have whole_part : value ++ answer.data = whole.take (value.length + answer.data.length) := by
      have all := grown answer.data.length (by omega)
      rw [take_length] at all
      exact all
    simp only []
    split
    next last =>
      have last : answer.data.length < mtu - 1 := last
      refine .done rfl rfl fun _ => ?_
      have all : value ++ answer.data = whole := by
        rw [whole_part]
        exact take_of_length_le (by omega)
      have enough : whole.length ≤ maxSize := by omega
      simp only [complete, silent, nil_append, readResult, if_pos enough, all]
    next =>
      refine partPhase_continue short rfl ?_ ?_
      · rw [length_append]
        exact whole_part
      · rw [length_append]
        omega

theorem partPhase_step (chunked : 0 < mtu - 1) (short : whole.length < 2 ^ 16)
    (keeps : ReadInvariant handle maxSize s) (phase : PartPhase maxSize whole s)
    (prescribed : Prescribed mtu whole s event) (steps : s.step mtu event = some t) :
    PartPhase maxSize whole t := by
  have busy : s.place ≠ .idle → s.reports = [] := by
    intro placed
    cases keeps.phase with
    | queued at_ => exact at_ ▸ rfl
    | calling _ _ _ _ busy | waiting _ _ _ busy => exact busy.2
    | done at_ _ _ => exact absurd at_ placed
  cases event with
  | claimGranted =>
    simp only [step] at steps
    split at steps
    next queued =>
      cases steps
      cases phase with
      | queued _ _ operation =>
        simp only [performCharacteristicOperation, operation]
        exact partPhase_continue short rfl rfl (Nat.zero_le _)
      | reading _ _ _ at_ _ _ _ =>
        exfalso
        have claimed : s.claim = .claimed := by
          cases keeps.phase with
          | queued initial => rcases at_ with ⟨_, at_⟩ | at_ <;> simp [initial, begun] at at_
          | calling _ _ _ _ busy | waiting _ _ _ busy => exact busy.1
          | done idle _ _ => rcases at_ with ⟨_, at_⟩ | at_ <;> simp [idle] at at_
        simp [claimed] at queued
      | done _ claim _ => simp [claim] at queued
    next => cases steps
  | returns status =>
    simp only [step] at steps
    cases phase with
    | queued at_ _ _ | done at_ _ _ => simp [at_] at steps
    | reading value request operation at_ offset part fits =>
      rcases at_ with ⟨first, at_⟩ | at_
      · simp only [at_, Option.some.injEq] at steps
        split at steps
        next =>
          subst steps
          exact .reading value request operation (.inr rfl) offset part fits
        next refuses =>
          subst steps
          have notAll : ¬ ∀ entry ∈ s.calls ++ [(request, status)],
              entry.2 = GattRequestStatus.accepted :=
            fun all => refuses (all _ (mem_append_right _ mem_cons_self))
          simp only [refused, operation]
          split
          · exact .done rfl rfl fun all => absurd all notAll
          · exact .done rfl rfl fun all => absurd all notAll
      · simp [at_] at steps
  | calledBack answer =>
    simp only [step] at steps
    cases phase with
    | queued at_ _ _ | done at_ _ _ => simp [at_] at steps
    | reading value request operation at_ offset part fits =>
      rcases at_ with ⟨first, at_⟩ | at_
      · simp [at_] at steps
      · have silent := busy (by simp [at_])
        simp only [at_, Option.some.injEq, answered, operation] at steps
        subst steps
        simp only [Prescribed, at_] at prescribed
        split at offset
        next empty =>
          subst offset
          refine partPhase_chunk chunked short rfl part fits silent prescribed.1 ?_
          rw [empty]
          exact prescribed.2
        next filled =>
          subst offset
          rcases prescribed with ⟨atEnd, past⟩ | ⟨_, success, data⟩
          · have all : value = whole := by
              rw [part]
              exact take_of_length_le atEnd
            rw [longReadChunkReceived, if_pos ⟨past, filled⟩]
            refine .done rfl rfl fun _ => ?_
            rw [all] at fits ⊢
            simp only [complete, silent, nil_append, readResult, if_pos fits]
          · exact partPhase_chunk chunked short rfl part fits silent success data

end Read

/-! ### Every operation ends -/

def remaining (s : Connection) : Nat :=
  match s.operation with
  | .longRead value maxSize => maxSize - value.length
  | .longWrite data offset _ => data.length - offset

/-- How many steps the operation takes, at most. -/
def rank (s : Connection) : Nat :=
  match s.place with
  | .idle => if s.claim = .queued then 2 * s.remaining + 5 else 0
  | .calling (.executeWrite .cancel) _ => 2
  | .waiting (.executeWrite .cancel) => 1
  | .calling _ _ => 2 * s.remaining + 4
  | .waiting _ => 2 * s.remaining + 3

theorem rank_continueLongRead (s : Connection) (value : Bytes) (first : Bool) :
    (s.continueLongRead value first).rank = 2 * s.remaining + 4 := by
  simp only [continueLongRead]
  split <;> rfl

variable {mtu maxSize : Nat} {s : Connection} {handle : Nat} {t : Connection} {event : Event}
  {data : Bytes}

theorem rank_chunkReceived {value : Bytes} (chunked : 0 < mtu - 1)
    (operation : s.operation = .longRead value maxSize) :
    (s.longReadChunkReceived mtu value maxSize answer).rank < 2 * s.remaining + 3 := by
  simp only [longReadChunkReceived]
  split
  · exact Nat.zero_lt_succ _
  split
  · exact Nat.zero_lt_succ _
  split
  · exact Nat.zero_lt_succ _
  next room =>
    split
    · exact Nat.zero_lt_succ _
    next more =>
      have more : ¬ answer.data.length < mtu - 1 := more
      rw [rank_continueLongRead]
      simp only [remaining, operation, length_append]
      omega

theorem rank_readStep (chunked : 0 < mtu - 1) (keeps : ReadInvariant handle maxSize s)
    (steps : s.step mtu event = some t) : t.rank < s.rank := by
  obtain ⟨_, ⟨value, operation, fits⟩, phase⟩ := keeps
  cases event with
  | claimGranted =>
    simp only [step] at steps
    split at steps
    next queued =>
      cases steps
      cases phase with
      | queued at_ =>
        subst at_
        show (({ begun handle (.longRead [] maxSize) with
          claim := .claimed } : Connection).continueLongRead [] true).rank < _
        rw [rank_continueLongRead]
        exact Nat.lt_succ_self _
      | calling _ _ _ _ busy | waiting _ _ _ busy => simp [busy.1] at queued
      | done _ claim _ => simp [claim] at queued
    next => cases steps
  | returns status =>
    simp only [step] at steps
    cases phase with
    | calling request first at_ reads busy =>
      have before : s.rank = 2 * s.remaining + 4 := by
        rcases reads with rfl | ⟨_, rfl⟩ <;> simp only [rank, at_]
      simp only [at_, Option.some.injEq] at steps
      split at steps
      next =>
        subst steps
        rw [before]
        rcases reads with rfl | ⟨_, rfl⟩ <;> exact Nat.lt_succ_self _
      next =>
        subst steps
        rw [before]
        simp only [refused, operation]
        split
        · exact Nat.zero_lt_succ _
        · exact Nat.zero_lt_succ _
    | queued at_ => simp [at_, begun] at steps
    | waiting _ at_ _ _ | done at_ _ _ => simp [at_] at steps
  | calledBack answer =>
    simp only [step] at steps
    cases phase with
    | waiting request at_ reads busy =>
      have before : s.rank = 2 * s.remaining + 3 := by
        rcases reads with rfl | ⟨_, rfl⟩ <;> simp only [rank, at_]
      simp only [at_, Option.some.injEq, answered, operation] at steps
      subst steps
      rw [before]
      have lower : (({ s with
          operation := .longRead value maxSize
          place := .waiting request
          answers := s.answers ++ [answer] } : Connection).longReadChunkReceived mtu value maxSize
            answer).rank < 2 * (maxSize - value.length) + 3 := rank_chunkReceived chunked rfl
      simpa only [remaining, operation] using lower
    | queued at_ => simp [at_, begun] at steps
    | calling _ _ at_ _ _ | done at_ _ _ => simp [at_] at steps

theorem rank_chunkPrepared {pendingResult : GattResult} (chunked : 0 < mtu - 5)
    (few : data.length < 2 ^ 16) (inside : offset < data.length) :
    (s.longWriteChunkPrepared mtu data offset pendingResult answer).rank <
      2 * (data.length - offset) + 3 := by
  have length : (currentLongWriteChunk mtu data offset).length =
      min (mtu - 5) (data.length - offset) := by
    simp only [currentLongWriteChunk, longWriteChunkSize, length_take, length_drop]
  have wrap : (offset + (currentLongWriteChunk mtu data offset).length) % 2 ^ 16 =
      offset + (currentLongWriteChunk mtu data offset).length := Nat.mod_eq_of_lt (by omega)
  simp only [longWriteChunkPrepared, wrap]
  split
  · show 2 < _
    omega
  split
  · show 2 < _
    omega
  split
  · show 2 * (data.length - (offset + (currentLongWriteChunk mtu data offset).length)) + 4 < _
    omega
  · show 2 * (data.length - (offset + (currentLongWriteChunk mtu data offset).length)) + 4 < _
    omega

theorem rank_writeStep (chunked : 0 < mtu - 5) (few : data.length < 2 ^ 16)
    (keeps : WriteInvariant mtu handle data s) (steps : s.step mtu event = some t) :
    t.rank < s.rank := by
  obtain ⟨_, _, operation⟩ := keeps.operation
  cases event with
  | claimGranted =>
    simp only [step] at steps
    split at steps
    next queued =>
      cases steps
      have idle : s.place = .idle := by
        by_contra placed
        simp [(keeps.busy placed).1] at queued
      simp only [performCharacteristicOperation, operation]
      split
      · simp only [rank, idle, queued, if_true, call, remaining, operation]
        exact Nat.lt_succ_self _
      · simp only [rank, idle, queued, if_true, continueLongWrite, call, remaining, operation]
        exact Nat.lt_succ_self _
    next => cases steps
  | returns status =>
    simp only [step] at steps
    cases keeps.phase with
    | writeCalled at_ _ _ =>
      simp only [at_, Option.some.injEq] at steps
      split at steps
      all_goals
        subst steps
        simp only [rank, at_]
      · exact Nat.lt_succ_self _
      · exact Nat.zero_lt_succ _
    | preparing offset _ _ at_ place _ _ _ _ _ _ =>
      simp only [at_, Option.some.injEq] at steps
      split at steps
      next =>
        subst steps
        simp only [rank, at_]
        exact Nat.lt_succ_self _
      next =>
        subst steps
        simp only [refused, place]
        split
        · simp only [rank, at_]
          exact Nat.zero_lt_succ _
        · simp only [cancelLongWrite, call, rank, at_]
          omega
    | executing _ _ at_ place _ _ _ _ _ =>
      simp only [at_, Option.some.injEq] at steps
      split at steps
      next =>
        subst steps
        simp only [rank, at_]
        exact Nat.lt_succ_self _
      next =>
        subst steps
        simp only [refused, place, cancelLongWrite, call, rank, at_]
        simp
    | cancelling at_ _ _ =>
      simp only [at_, Option.some.injEq] at steps
      split at steps
      next =>
        subst steps
        simp only [rank, at_]
        exact Nat.lt_succ_self _
      next =>
        subst steps
        simp only [refused, operation, rank, at_]
        simp [complete]
    | queued at_ => simp [at_, begun] at steps
    | writeWaiting at_ _ | prepareWaiting _ _ _ at_ | executeWaiting at_ _ | cancelWaiting at_ _
    | done at_ _ _ _ => simp [at_] at steps
  | calledBack answer =>
    simp only [step] at steps
    cases keeps.phase with
    | writeWaiting at_ _ =>
      simp only [at_, Option.some.injEq, answered, operation] at steps
      subst steps
      simp only [rank, at_]
      exact Nat.zero_lt_succ _
    | prepareWaiting offset _ pendingResult at_ place _ _ _ _ _ inside =>
      simp only [at_, Option.some.injEq, answered, place] at steps
      subst steps
      simp only [rank, at_, remaining, place]
      exact rank_chunkPrepared chunked few inside
    | executeWaiting at_ _ | cancelWaiting at_ _ =>
      simp only [at_, Option.some.injEq, answered, operation] at steps
      subst steps
      simp only [rank, at_]
      exact Nat.zero_lt_succ _
    | queued at_ => simp [at_, begun] at steps
    | writeCalled at_ _ _ | preparing _ _ _ at_ | executing _ _ at_ | cancelling at_ _ _
    | done at_ _ _ _ => simp [at_] at steps

/-! ### Long operations -/

/-- `onDone` was called once and the claim was released; or it was not called, and what the operation
waits for can come. -/
structure ReportsOnce (mtu : Nat) (s : Connection) : Prop where
  released : s.claim = .unclaimed → s.reports.length = 1
  silent : s.claim ≠ .unclaimed → s.reports = [] ∧
    ((s.step mtu .claimGranted).isSome ∨ (∀ status, (s.step mtu (.returns status)).isSome) ∨
      ∀ answer, (s.step mtu (.calledBack answer)).isSome)

/-- The value is written at once, or it is prepared in order; it is executed when all of it was
echoed, and cancelled otherwise. -/
structure WritesWhole (mtu handle : Nat) (data : Bytes) (s : Connection) : Prop where
  inOrder : InOrder mtu handle data s
  ended : s.claim = .unclaimed → Ended s
  exclusive : Exclusive s
  split : mtu - 3 < data.length → ∀ at_ whole, ¬ ∃ status, (.write at_ whole, status) ∈ s.calls

theorem WriteInvariant.reportsOnce (keeps : WriteInvariant mtu handle data s) :
    ReportsOnce mtu s := by
  have called : ∀ request first, s.place = .calling request first → ReportsOnce mtu s := by
    intro request first at_
    obtain ⟨claimed, silent⟩ := keeps.busy (by simp [at_])
    refine ⟨fun free => by simp [claimed] at free, fun _ => ⟨silent, .inr (.inl fun status => ?_)⟩⟩
    simp [step, at_]
  have waited : ∀ request, s.place = .waiting request → ReportsOnce mtu s := by
    intro request at_
    obtain ⟨claimed, silent⟩ := keeps.busy (by simp [at_])
    refine ⟨fun free => by simp [claimed] at free, fun _ => ⟨silent, .inr (.inr fun answer => ?_)⟩⟩
    simp [step, at_]
  cases keeps.phase with
  | queued at_ =>
    subst at_
    exact ⟨fun free => by simp [begun] at free, fun _ => ⟨rfl, .inl rfl⟩⟩
  | writeCalled at_ _ _ => exact called _ _ at_
  | writeWaiting at_ _ => exact waited _ at_
  | preparing _ _ _ at_ => exact called _ _ at_
  | prepareWaiting _ _ _ at_ => exact waited _ at_
  | executing _ _ at_ => exact called _ _ at_
  | executeWaiting at_ _ => exact waited _ at_
  | cancelling at_ _ _ => exact called _ _ at_
  | cancelWaiting at_ _ => exact waited _ at_
  | done _ claim once _ => exact ⟨fun _ => once, fun other => absurd claim other⟩

theorem WriteInvariant.writesWhole (keeps : WriteInvariant mtu handle data s) :
    WritesWhole mtu handle data s where
  inOrder := keeps.inOrder
  exclusive := keeps.exclusive
  split := fun long at_ whole called =>
    absurd (keeps.inOrder.atOnce at_ whole called).2.2.1 (Nat.not_le_of_lt long)
  ended := by
    intro free
    have idle : s.place = .idle := by
      by_contra placed
      simp [(keeps.busy placed).1] at free
    cases keeps.phase with
    | done _ _ _ ended => exact ended
    | queued at_ => simp [at_, begun] at free
    | writeCalled at_ _ _ | writeWaiting at_ _ | preparing _ _ _ at_ | prepareWaiting _ _ _ at_
    | executing _ _ at_ | executeWaiting at_ _ | cancelling at_ _ _ | cancelWaiting at_ _ =>
      simp [at_] at idle

theorem ReadInvariant.reportsOnce (keeps : ReadInvariant handle maxSize s) : ReportsOnce mtu s := by
  cases keeps.phase with
  | queued at_ =>
    subst at_
    exact ⟨fun free => by simp [begun] at free, fun _ => ⟨rfl, .inl rfl⟩⟩
  | calling _ _ at_ _ busy =>
    refine ⟨fun free => by simp [busy.1] at free, fun _ => ⟨busy.2, .inr (.inl fun status => ?_)⟩⟩
    simp [step, at_]
  | waiting _ at_ _ busy =>
    refine ⟨fun free => by simp [busy.1] at free, fun _ => ⟨busy.2, .inr (.inr fun answer => ?_)⟩⟩
    simp [step, at_]
  | done _ claim once => exact ⟨fun _ => once, fun other => absurd claim other⟩

theorem begun_writeInvariant (mtu handle : Nat) (data : Bytes) :
    WriteInvariant mtu handle data (begun handle (.longWrite data 0 .success)) where
  sameHandle := rfl
  operation := ⟨0, .success, rfl⟩
  inOrder := by
    refine inOrder_prepares (show _ = [].map (prepare handle) from rfl) trivial List.nil_prefix ?_
    exact fun _ member => absurd member not_mem_nil
  exclusive := fun _ member => absurd member not_mem_nil
  busy := fun placed => absurd rfl placed
  phase := .queued rfl

theorem begun_readInvariant (handle maxSize : Nat) :
    ReadInvariant handle maxSize (begun handle (.longRead [] maxSize)) where
  sameHandle := rfl
  operation := ⟨[], rfl, Nat.zero_le _⟩
  phase := .queued rfl

/-- A read of a peer that answers as prescribed. -/
structure PrescribedRead (handle maxSize : Nat) (whole : Bytes) (s : Connection) : Prop where
  invariant : ReadInvariant handle maxSize s
  part : PartPhase maxSize whole s

theorem begun_prescribedRead (handle maxSize : Nat) (whole : Bytes) :
    PrescribedRead handle maxSize whole (begun handle (.longRead [] maxSize)) :=
  ⟨begun_readInvariant handle maxSize, .queued rfl rfl rfl⟩

theorem prescribedRead_step {whole : Bytes} (chunked : 0 < mtu - 1) (short : whole.length < 2 ^ 16)
    (keeps : PrescribedRead handle maxSize whole s) (prescribed : Prescribed mtu whole s event)
    (steps : s.step mtu event = some t) : PrescribedRead handle maxSize whole t :=
  ⟨readStep_invariant keeps.invariant steps,
    partPhase_step chunked short keeps.invariant keeps.part prescribed steps⟩

theorem writeStep_invariant (chunked : 0 < mtu - 5) (few : data.length < 2 ^ 16)
    (keeps : WriteInvariant mtu handle data s) (steps : s.step mtu event = some t) :
    WriteInvariant mtu handle data t := by
  cases event with
  | claimGranted => exact granted_invariant (fun long => (Nat.zero_le _).trans_lt long) keeps steps
  | returns status => exact returns_invariant chunked keeps steps
  | calledBack answer => exact calledBack_invariant chunked few keeps steps

/-- A value of two chunks at the smallest MTU. -/
def twoChunks : Bytes := List.replicate 18 1 ++ List.replicate 3 2

def writesTwoChunks : List Event :=
  [.claimGranted, .returns .accepted, .calledBack ⟨.success, 0, List.replicate 18 1⟩,
    .returns .accepted, .calledBack ⟨.success, 18, List.replicate 3 2⟩, .returns .accepted,
    .calledBack ⟨.success, 0, []⟩]

def readsExactly : List Event :=
  [.claimGranted, .returns .accepted, .calledBack ⟨.success, 0, List.replicate 22 7⟩,
    .returns .accepted, .calledBack ⟨.invalidOffset, 0, []⟩]

def endsAccepted (s : Connection) : Bool :=
  s.claim = .unclaimed ∧ ∀ entry ∈ s.calls, entry.2 = .accepted

end Ble.Gatt.Connection
