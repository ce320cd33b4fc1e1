/-! Runs of a partial, labelled step function. A step that is not enabled yields
`none`; a condition on steps selects the runs a result speaks about. -/

namespace Runs

variable {σ α : Type} {step : σ → α → Option σ} {ok weaker : σ → α → Prop} {start : σ}

/-- The states that some run from `start` reaches, where every step of the run
meets the condition `ok` in the state it is taken from. -/
inductive Reachable (step : σ → α → Option σ) (ok : σ → α → Prop) (start : σ) : σ → Prop
  | refl : Reachable step ok start start
  | tail {s t : σ} (a : α) (front : Reachable step ok start s) (meets : ok s a)
      (last : step s a = some t) : Reachable step ok start t

/-- The condition that every step meets. -/
def anyStep : σ → α → Prop := fun _ _ => True

theorem Reachable.invariant {good : σ → Prop} (base : good start)
    (preserved : ∀ s a t, good s → ok s a → step s a = some t → good t)
    {s : σ} (reached : Reachable step ok start s) : good s := by
  induction reached with
  | refl => exact base
  | tail a _ meets last ih => exact preserved _ a _ ih meets last

theorem Reachable.mono (weaken : ∀ s a, ok s a → weaker s a)
    {s : σ} (reached : Reachable step ok start s) : Reachable step weaker start s := by
  induction reached with
  | refl => exact .refl
  | tail a _ meets last ih => exact .tail a ih (weaken _ a meets) last

theorem Reachable.trans {middle finish : σ} (front : Reachable step ok start middle)
    (back : Reachable step ok middle finish) : Reachable step ok start finish := by
  induction back with
  | refl => exact front
  | tail a _ meets last ih => exact .tail a ih meets last

/-- The states that some run reaches, with the weights of its steps added up. -/
inductive Weighed (step : σ → α → Option σ) (ok : σ → α → Prop) (weight : σ → α → Nat)
    (start : σ) : Nat → σ → Prop
  | refl : Weighed step ok weight start 0 start
  | tail {total : Nat} {s t : σ} (a : α) (front : Weighed step ok weight start total s)
      (meets : ok s a) (last : step s a = some t) :
      Weighed step ok weight start (total + weight s a) t

theorem Weighed.invariant {weight : σ → α → Nat} {good : Nat → σ → Prop} (base : good 0 start)
    (preserved : ∀ total s a t, good total s → ok s a → step s a = some t →
      good (total + weight s a) t)
    {total : Nat} {s : σ} (reached : Weighed step ok weight start total s) : good total s := by
  induction reached with
  | refl => exact base
  | tail a _ meets last ih => exact preserved _ _ a _ ih meets last

/-- Run a list of labels and report the state it ends in. -/
def execute (step : σ → α → Option σ) : σ → List α → Option σ
  | s, [] => some s
  | s, a :: rest => (step s a).bind fun t => execute step t rest

theorem length_le_of_rank (good : σ → Prop) (rank : σ → Nat)
    (preserved : ∀ s a t, good s → step s a = some t → good t)
    (lowers : ∀ s a t, good s → step s a = some t → rank t < rank s) {s t : σ} (labels : List α)
    (base : good s) (runs : execute step s labels = some t) :
    good t ∧ labels.length + rank t ≤ rank s := by
  induction labels generalizing s with
  | nil =>
    cases runs
    exact ⟨base, by simp⟩
  | cons a rest ih =>
    obtain ⟨u, first, remaining⟩ := Option.bind_eq_some_iff.mp runs
    obtain ⟨last, bound⟩ := ih (preserved s a u base first) remaining
    have lower := lowers s a u base first
    refine ⟨last, ?_⟩
    rw [List.length_cons]
    omega

def executeIf (step : σ → α → Option σ) (check : σ → α → Bool) : σ → List α → Option σ
  | s, [] => some s
  | s, a :: rest =>
    if check s a then (step s a).bind fun t => executeIf step check t rest else none

theorem reachable_of_executeIf {check : σ → α → Bool}
    (sound : ∀ s a, check s a = true → ok s a) (labels : List α) (s t : σ)
    (reached : Reachable step ok start s)
    (runs : executeIf step check s labels = some t) : Reachable step ok start t := by
  induction labels generalizing s with
  | nil =>
    simp only [executeIf, Option.some.injEq] at runs
    exact runs ▸ reached
  | cons a rest ih =>
    simp only [executeIf] at runs
    split at runs
    next checked =>
      obtain ⟨u, first, remaining⟩ := Option.bind_eq_some_iff.mp runs
      exact ih u (.tail a reached (sound s a checked) first) remaining
    next => cases runs

theorem reachable_of_execute (labels : List α) (s t : σ)
    (reached : Reachable step anyStep start s)
    (runs : execute step s labels = some t) : Reachable step anyStep start t := by
  induction labels generalizing s with
  | nil =>
    simp only [execute, Option.some.injEq] at runs
    exact runs ▸ reached
  | cons a rest ih =>
    obtain ⟨u, first, remaining⟩ := Option.bind_eq_some_iff.mp runs
    exact ih u (.tail a reached trivial first) remaining

theorem exists_of_executeIf (ok : σ → α → Prop) [∀ s, DecidablePred (ok s)]
    (step : σ → α → Option σ) (start : σ) (labels : List α) (shows : σ → Bool)
    (runs : (executeIf step (fun s a => decide (ok s a)) start labels).any shows = true) :
    ∃ s, Reachable step ok start s ∧ shows s = true := by
  obtain ⟨s, runs, shown⟩ := (Option.any_eq_true _ _).mp runs
  exact ⟨s, reachable_of_executeIf (fun _ _ => of_decide_eq_true) labels start s .refl runs, shown⟩

theorem exists_of_execute (step : σ → α → Option σ) (start : σ) (labels : List α)
    (shows : σ → Bool) (runs : (execute step start labels).any shows = true) :
    ∃ s, Reachable step anyStep start s ∧ shows s = true := by
  obtain ⟨s, runs, shown⟩ := (Option.any_eq_true _ _).mp runs
  exact ⟨s, reachable_of_execute labels start s .refl runs, shown⟩

end Runs
