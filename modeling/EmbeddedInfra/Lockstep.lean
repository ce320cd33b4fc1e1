import Mathlib.Tactic.ByContra

/-! A system that takes calls, beside a plain one that says what they should do. -/

namespace Lockstep

variable {σ μ κ β : Type} (perform : σ → κ → Option (σ × β)) (plain : μ → κ → μ)
  (answer : μ → κ → β) (Shows : σ → μ → Prop)

/-- After every call the system shows what the plain one holds, and the answers are the same. -/
def Refines : σ → μ → List κ → Prop
  | s, m, [] => Shows s m
  | s, m, call :: rest =>
    Shows s m ∧ ∃ t, perform s call = some (t, answer m call) ∧ Refines t (plain m call) rest

/-- Every call has a property in the plain state that it meets. -/
def Always (Holds : μ → κ → Prop) : μ → List κ → Prop
  | _, [] => True
  | m, call :: rest => Holds m call ∧ Always Holds (plain m call) rest

/-- Every call has a property in the states that it meets. -/
def Throughout (Holds : σ → μ → κ → Prop) : σ → μ → List κ → Prop
  | _, _, [] => True
  | s, m, call :: rest =>
    Holds s m call ∧
      match perform s call with
      | none => True
      | some (t, _) => Throughout Holds t (plain m call) rest

/-- A property of what an outcome leads to. -/
instance decidableOutcome (outcome : Option (σ × β)) (P : σ → Prop) [∀ t, Decidable (P t)] :
    Decidable (match outcome with | none => True | some (t, _) => P t) :=
  match outcome with
  | none => isTrue trivial
  | some (t, _) => inferInstanceAs (Decidable (P t))

instance decidableThroughout (Holds : σ → μ → κ → Prop) [∀ s m call, Decidable (Holds s m call)] :
    ∀ s m calls, Decidable (Throughout perform plain Holds s m calls)
  | _, _, [] => isTrue trivial
  | s, m, call :: rest =>
    have := fun t => decidableThroughout Holds t (plain m call) rest
    inferInstanceAs (Decidable (Holds s m call ∧ match perform s call with
      | none => True
      | some (t, _) => Throughout perform plain Holds t (plain m call) rest))

variable {perform plain answer Shows}

variable {s : σ} {m : μ} {calls : List κ}

theorem Refines.shows (refines : Refines perform plain answer Shows s m calls) : Shows s m := by
  cases calls with
  | nil => exact refines
  | cons call rest => exact refines.1

def run (perform : σ → κ → Option (σ × β)) : σ → List κ → Option σ
  | s, [] => some s
  | s, call :: rest => (perform s call).bind fun (t, _) => run perform t rest

theorem Refines.run (refines : Refines perform plain answer Shows s m calls) :
    ∃ t, Lockstep.run perform s calls = some t ∧ Shows t (calls.foldl plain m) := by
  induction calls generalizing s m with
  | nil => exact ⟨s, rfl, refines⟩
  | cons call rest ih =>
    have ⟨_, t, performs, later⟩ := refines
    have ⟨u, runs, shows_⟩ := ih later
    exact ⟨u, by rw [Lockstep.run, performs]; exact runs, shows_⟩

variable {R : σ → μ → Prop} {Allowed Meets : μ → κ → Prop}

theorem refines_of_always (shows_ : ∀ {s m}, R s m → Shows s m)
    (step : ∀ {s m call}, R s m → Allowed m call → Meets m call →
      ∃ t, perform s call = some (t, answer m call) ∧ R t (plain m call)) (represents : R s m)
    (allowed : Always plain Allowed m calls) (meets : Always plain Meets m calls) :
    Refines perform plain answer Shows s m calls := by
  induction calls generalizing s m with
  | nil => exact shows_ represents
  | cons call rest ih =>
    have ⟨t, performs, next⟩ := step represents allowed.1 meets.1
    exact ⟨shows_ represents, t, performs, ih next allowed.2 meets.2⟩

theorem refines_of_throughout {Holds : σ → μ → κ → Prop} (shows_ : ∀ {s m}, R s m → Shows s m)
    (step : ∀ {s m call}, R s m → Allowed m call → Holds s m call →
      ∃ t, perform s call = some (t, answer m call) ∧ R t (plain m call)) (represents : R s m)
    (allowed : Always plain Allowed m calls)
    (throughout : Throughout perform plain Holds s m calls) :
    Refines perform plain answer Shows s m calls := by
  induction calls generalizing s m with
  | nil => exact shows_ represents
  | cons call rest ih =>
    have ⟨holds, later⟩ := throughout
    have ⟨t, performs, next⟩ := step represents allowed.1 holds
    rw [performs] at later
    exact ⟨shows_ represents, t, performs, ih next allowed.2 later⟩

theorem refines_of_both {Legal Holds : σ → μ → κ → Prop} (shows_ : ∀ {s m}, R s m → Shows s m)
    (step : ∀ {s m call}, R s m → Legal s m call → Holds s m call →
      ∃ t, perform s call = some (t, answer m call) ∧ R t (plain m call)) (represents : R s m)
    (legal : Throughout perform plain Legal s m calls)
    (throughout : Throughout perform plain Holds s m calls) :
    Refines perform plain answer Shows s m calls := by
  induction calls generalizing s m with
  | nil => exact shows_ represents
  | cons call rest ih =>
    have ⟨isLegal, legalLater⟩ := legal
    have ⟨holds, later⟩ := throughout
    have ⟨t, performs, next⟩ := step represents isLegal holds
    rw [performs] at legalLater later
    exact ⟨shows_ represents, t, performs, ih next legalLater later⟩

theorem refines_iff (shows_ : ∀ {s m}, R s m → Shows s m)
    (step : ∀ {s m call}, R s m → Allowed m call → Meets m call →
      ∃ t, perform s call = some (t, answer m call) ∧ R t (plain m call))
    (fails : ∀ {s m call t}, R s m → Allowed m call → ¬Meets m call →
      perform s call = some (t, answer m call) → ¬Shows t (plain m call)) (represents : R s m)
    (allowed : Always plain Allowed m calls) :
    Refines perform plain answer Shows s m calls ↔ Always plain Meets m calls := by
  constructor
  · intro refines
    induction calls generalizing s m with
    | nil => trivial
    | cons call rest ih =>
      have ⟨_, t, performs, later⟩ := refines
      have meets : Meets m call := by
        by_contra meetsNot
        exact fails represents allowed.1 meetsNot performs later.shows
      have ⟨t', performs', next⟩ := step represents allowed.1 meets
      have same := (Prod.mk.inj (Option.some.inj (performs'.symm.trans performs))).1
      exact ⟨meets, ih (same ▸ next) allowed.2 later⟩
  · exact refines_of_always shows_ step represents allowed

variable {Meets : σ → μ → κ → Prop} {Allows : μ → κ → β → μ → Prop}

/-- As long as the calls meet a condition, the system shows what the plain one holds, and the plain
one may give the same answers. -/
def Follows (perform : σ → κ → Option (σ × β)) (Meets : σ → μ → κ → Prop)
    (Allows : μ → κ → β → μ → Prop) (Shows : σ → μ → Prop) : σ → μ → List κ → Prop
  | s, m, [] => Shows s m
  | s, m, call :: rest =>
    Shows s m ∧ (Meets s m call → ∃ t answer n, perform s call = some (t, answer) ∧
      Allows m call answer n ∧ Follows perform Meets Allows Shows t n rest)

theorem follows_of_step (shows_ : ∀ {s m}, R s m → Shows s m)
    (step : ∀ {s m call}, R s m → Meets s m call → ∃ t answer n, perform s call = some (t, answer) ∧
      Allows m call answer n ∧ R t n) (represents : R s m) (calls : List κ) :
    Follows perform Meets Allows Shows s m calls := by
  induction calls generalizing s m with
  | nil => exact shows_ represents
  | cons call rest ih =>
    refine ⟨shows_ represents, fun meets => ?_⟩
    have ⟨t, answer, n, performs, allowed, next⟩ := step represents meets
    exact ⟨t, answer, n, performs, allowed, ih next⟩

end Lockstep
