import EmbeddedInfra.Event.InTurn
import EmbeddedInfra.Runs

/-! A `ClaimableResource` grants one request at a time, in turn and once, in every run. -/

namespace Event

open List

variable (h : History)

theorem released_perform (call : Call) : h.released ⊆ (h.perform call).released := by
  cases call with
  | construct | claim => exact List.Subset.refl _
  | release claimer =>
    rw [History.perform, History.release]
    split
    · exact subset_append_left _ _
    · exact subset_append_left _ _
  | moveConstruct => exact List.Subset.refl _
  | moveAssign | destroy =>
    exact List.Subset.trans (subset_append_left _ _) (subset_append_left _ _)

theorem released_performAll (calls : List Call) :
    h.released ⊆ (calls.foldl History.perform h).released := by
  induction calls generalizing h with
  | nil => exact List.Subset.refl _
  | cons call rest ih => exact List.Subset.trans (released_perform h call) (ih _)

theorem released_step (step : Step) : h.released ⊆ (h.step step).released := by
  cases step with
  | call call => exact released_perform h call
  | execute inside =>
    rw [History.step, History.grant]
    split
    · apply List.Subset.trans _ (released_performAll _ inside)
      exact List.Subset.refl _
    · exact List.Subset.refl _

namespace ClaimableResource

variable (s : ClaimableResource)

theorem removeClaim_called (claimer : Nat) : (s.removeClaim claimer).called = s.called := by
  simp only [removeClaim, scheduleReEvaluateClaim, dequeueClaimer]
  split_ifs <;> rfl

theorem releaseBase_called (claimer : Nat) (k : Claimer) :
    (s.releaseBase claimer k).called = s.called := removeClaim_called _ _

theorem releaseAllClaims_called (claimer : Nat) (k : Claimer) :
    (s.releaseAllClaims claimer k).called = s.called := by
  simp only [releaseAllClaims]
  split_ifs <;> simp only [releaseBase_called]

theorem takeOver_called (claimer other : Nat) (k : Claimer) :
    (s.takeOver claimer other k).called = s.called := by
  simp only [takeOver, replaceClaim, put]
  split_ifs <;> rfl

theorem addClaim_called (claimer : Nat) (urgent : Bool) :
    (s.addClaim claimer urgent).called = s.called := by
  simp only [addClaim, enqueueClaimer, scheduleReEvaluateClaim]
  split_ifs <;> rfl

theorem perform_called {s t : ClaimableResource} {call : Call}
    (performs : s.perform call = some t) : t.called = s.called := by
  cases call with
  | construct claimer =>
    rw [perform] at performs
    split at performs
    · exact Option.some.inj performs ▸ rfl
    · cases performs
  | claim claimer urgent =>
    rw [perform] at performs
    split at performs
    · cases performs
    · split at performs
      · cases performs
      · rw [← Option.some.inj performs, addClaim_called]
        rfl
  | release claimer =>
    rw [perform] at performs
    split at performs
    · cases performs
    · rw [← Option.some.inj performs, releaseBase_called]
  | moveConstruct claimer other =>
    rw [perform] at performs
    split at performs
    · rw [← Option.some.inj performs, takeOver_called]
    · cases performs
  | moveAssign claimer other =>
    rw [perform] at performs
    split at performs
    · cases performs
    · dsimp only at performs
      split at performs
      · cases performs
      · rw [← Option.some.inj performs, takeOver_called, releaseAllClaims_called]
  | destroy claimer =>
    rw [perform] at performs
    split at performs
    · cases performs
    · rw [← Option.some.inj performs]
      exact releaseAllClaims_called _ _ _

theorem performAll_called {s t : ClaimableResource} {calls : List Call}
    (performs : s.performAll calls = some t) : t.called = s.called := by
  induction calls generalizing s with
  | nil => exact Option.some.inj performs ▸ rfl
  | cons call rest ih =>
    have ⟨next, first, remaining⟩ := Option.bind_eq_some_iff.mp performs
    rw [ih remaining, perform_called first]

end ClaimableResource

namespace InTurn

variable {s : ClaimableResource} {h : History}

theorem next {claimer : Nat} {rest : List Nat} (turn : InTurn s h)
    (pending : s.pendingClaims = claimer :: rest) :
    ∃ request ∈ h.waiting, claimer = request.claimer ∧
      ∃ k, s.claimers request.claimer = some k ∧ k.onGranted = some request.number := by
  cases inOrder : inTurn h.waiting with
  | nil =>
    rw [turn.pending, inOrder] at pending
    exact nomatch pending
  | cons request others =>
    rw [turn.pending, inOrder] at pending
    exact ⟨request, mem_inTurn.mp (by simp [inOrder]), (List.cons.inj pending).1.symm,
      turn.first inOrder⟩

theorem step_called {step : Step} {t : ClaimableResource} (turn : InTurn s h)
    (steps : s.step step = some t) :
    ∃ new, t.called = s.called ++ new ∧ ∀ n ∈ new, n ∈ numbers h.waiting := by
  cases step with
  | call call => exact ⟨[], by rw [ClaimableResource.perform_called steps, append_nil], by simp⟩
  | execute inside =>
    rw [ClaimableResource.step] at steps
    split at steps
    · cases steps
    rw [ClaimableResource.reEvaluateClaim] at steps
    dsimp only at steps
    split at steps
    case h_2 =>
      refine ⟨[], ?_, by simp⟩
      rw [← Option.some.inj steps, append_nil]
    case h_1 claimer rest current pending =>
      obtain ⟨request, waits, same, k, here, function⟩ := turn.next pending
      simp only [ClaimableResource.claimGranted, same, here, function] at steps
      refine ⟨[request.number], ClaimableResource.performAll_called steps, ?_⟩
      intro n new
      rw [mem_singleton.mp new]
      exact mem_map_of_mem waits

theorem not_released (turn : InTurn s h) {n : Nat} (waits : n ∈ numbers h.waiting) :
    n ∉ h.released := by
  intro released
  have all := turn.partition.nodup_iff.mpr nodup_range
  have apart := (nodup_append.mp all).2.2 n (mem_append_left _ waits) n released
  exact apart rfl

theorem run {steps : List Step} {t : ClaimableResource} (turn : InTurn s h)
    (runs : Runs.execute ClaimableResource.step s steps = some t) :
    InTurn t (steps.foldl History.step h) ∧
      ∃ new, t.called = s.called ++ new ∧ ∀ n ∈ new, n ∉ h.released := by
  induction steps generalizing s h with
  | nil =>
    cases Option.some.inj runs
    exact ⟨turn, [], (append_nil _).symm, nofun⟩
  | cons step rest ih =>
    have ⟨next, first, remaining⟩ := Option.bind_eq_some_iff.mp runs
    have ⟨last, later, laterCalled, notReleased⟩ := ih (turn.step first) remaining
    have ⟨now, nowCalled, waits⟩ := turn.step_called first
    refine ⟨last, now ++ later, ?_, ?_⟩
    · rw [laterCalled, nowCalled, append_assoc]
    · intro n member
      rcases mem_append.mp member with isNow | isLater
      · exact turn.not_released (waits n isNow)
      · exact fun released => notReleased n isLater (released_step h step released)

end InTurn

/-- At most one claimer is granted, the others wait in turn, no function was called twice, and an
evaluation is due if one can be granted. Only a claimer that waits cannot ask. -/
structure Orderly (s : ClaimableResource) (h : History) : Prop where
  exclusive : ∀ c k, s.claimers c = some k → (k.isGranted = true ↔ s.currentClaim = some c)
  active : claimers h.active = s.currentClaim.toList
  pending : s.pendingClaims = claimers (inTurn h.waiting)
  once : s.called.Nodup
  called : ∀ n, (n ∈ s.called → n ∉ numbers h.waiting) ∧ (n ∈ numbers h.active → n ∈ s.called)
  accounted : (numbers h.waiting ++ numbers h.active ++ h.released).Perm (List.range h.asked)
  due : s.currentClaim = none → s.pendingClaims ≠ [] → 0 < s.scheduled
  asks : ∀ c k urgent, s.claimers c = some k →
    ((s.perform (.claim c urgent)).isSome ↔ c ∉ claimers h.waiting)
  executes : 0 < s.scheduled → (s.step (.execute [])).isSome

theorem InTurn.orderly {s : ClaimableResource} {h : History} (turn : InTurn s h) : Orderly s h where
  exclusive := fun _ _ here => turn.isGranted_iff here
  active := turn.current
  pending := turn.pending
  once := turn.once
  called := fun n => ⟨fun called => (turn.calledOf n called).2, turn.activeCalled n⟩
  accounted := turn.partition
  due := by
    intro current pending
    rw [turn.flag, if_pos (turn.due current pending)]
    exact Nat.one_pos
  asks := by
    intro c k urgent here
    rw [← turn.onGranted_eq_none here]
    simp only [ClaimableResource.perform, here]
    split <;> simp_all
  executes := by
    intro due
    rw [ClaimableResource.step]
    split
    case h_1 none => exact absurd due (by omega)
    rw [ClaimableResource.reEvaluateClaim]
    dsimp only
    split
    case h_2 => rfl
    case h_1 claimer rest current pending =>
      obtain ⟨request, -, same, k, here, function⟩ := turn.next pending
      simp only [ClaimableResource.claimGranted, same, here, function]
      rfl

/-- In every run the claims are granted one at a time, in turn and once, and never after they were
released. -/
theorem claims_in_turn (before later : List Step) (s t : ClaimableResource)
    (runs : Runs.execute ClaimableResource.step {} before = some s)
    (continues : Runs.execute ClaimableResource.step s later = some t) :
    Orderly s (History.of before) ∧
      ∃ new, t.called = s.called ++ new ∧ ∀ n ∈ new, n ∉ (History.of before).released := by
  have ⟨turn, _⟩ := InTurn.initial.run runs
  have ⟨_, called⟩ := turn.run continues
  exact ⟨turn.orderly, called⟩

/-- Claimer 0 has to wait for an urgent request of claimer 1, which claims again when it is granted
and is moved to claimer 2; claimer 0 is destroyed in its function. -/
def sharing : List Step :=
  [.call (.construct 0), .call (.construct 1), .call (.claim 0 false), .call (.claim 1 true),
    .execute [.claim 1 false, .moveConstruct 2 1], .call (.release 2)]

theorem claims_in_turn_sharing :
    ∃ s t : ClaimableResource, Orderly s (History.of sharing) ∧ s.pendingClaims = [0, 2] ∧ t.called = [1, 0, 2] := by
  have ⟨s, runs, pending⟩ : ∃ s, Runs.execute ClaimableResource.step {} sharing = some s ∧
      s.pendingClaims = [0, 2] := ⟨_, rfl, rfl⟩
  have ⟨t, continues, called⟩ : ∃ t, (Runs.execute ClaimableResource.step {} sharing).bind
      (Runs.execute ClaimableResource.step · [.execute [.destroy 0], .execute []]) = some t ∧
        t.called = [1, 0, 2] := ⟨_, rfl, rfl⟩
  rw [runs] at continues
  exact ⟨s, t, (claims_in_turn _ _ _ _ runs continues).1, pending, called⟩

def urgentFirst (requests : List Request) : List Request :=
  requests.filter Request.urgent ++ requests.filter fun request => !request.urgent

/-- Two urgent requests are in the list in the reverse of their order. -/
theorem urgent_reversed : ∃ steps s, Runs.execute ClaimableResource.step {} steps = some s ∧
    s.pendingClaims ≠ claimers (urgentFirst (History.of steps).waiting) :=
  ⟨[.call (.construct 0), .call (.construct 1), .call (.claim 0 true), .call (.claim 1 true)],
    _, rfl, by decide⟩

end Event
