/-! Programs of operations on a state that outlives them, and what a reset in the middle
of one can leave. A query reads the state at once; an operation is carried out, or torn by
the reset. The operations that have completed are counted. -/

namespace CrashLogic

inductive Program (σ ω α : Type) where
  | done (value : α)
  | query (next : σ → Program σ ω α)
  | perform (operation : ω) (next : Program σ ω α)

/-- What an operation does when it completes, and what it leaves when a reset tears it. -/
structure Device (σ ω : Type) where
  does : ω → σ → σ → Prop
  tears : ω → σ → σ → Prop

namespace Program

variable {σ ω α β : Type} {device : Device σ ω} {crash weaker : Nat → σ → Prop}
  {post : Nat → α → σ → Prop}

def bind : Program σ ω α → (α → Program σ ω β) → Program σ ω β
  | .done value, next => next value
  | .query rest, next => .query fun s => (rest s).bind next
  | .perform operation rest, next => .perform operation (rest.bind next)

instance : Monad (Program σ ω) where
  pure := .done
  bind := .bind

def reading (view : σ → α) : Program σ ω α := .query fun s => .done (view s)

def operate (operation : ω) : Program σ ω Unit := .perform operation (.done ())

def run (effect : ω → σ → σ) : Program σ ω α → σ → α × σ
  | .done value, s => (value, s)
  | .query next, s => run effect (next s) s
  | .perform operation next, s => run effect next (effect operation s)

/-- The program runs from the first state to the last one and returns the value. -/
inductive Ends (device : Device σ ω) : Program σ ω α → σ → α → Nat → σ → Prop
  | done {value : α} {s : σ} : Ends device (.done value) s value 0 s
  | query {next : σ → Program σ ω α} {s t : σ} {value : α} {performed : Nat}
      (rest : Ends device (next s) s value performed t) :
      Ends device (.query next) s value performed t
  | perform {operation : ω} {next : Program σ ω α} {s t u : σ} {value : α} {performed : Nat}
      (first : device.does operation s t) (rest : Ends device next t value performed u) :
      Ends device (.perform operation next) s value (performed + 1) u

/-- A reset after some operations of the program can leave the last state. -/
inductive Interrupted (device : Device σ ω) : Program σ ω α → σ → Nat → σ → Prop
  | here {program : Program σ ω α} {s : σ} : Interrupted device program s 0 s
  | query {next : σ → Program σ ω α} {s t : σ} {performed : Nat}
      (rest : Interrupted device (next s) s performed t) :
      Interrupted device (.query next) s performed t
  | torn {operation : ω} {next : Program σ ω α} {s t : σ}
      (tear : device.tears operation s t) :
      Interrupted device (.perform operation next) s 0 t
  | later {operation : ω} {next : Program σ ω α} {s t u : σ} {performed : Nat}
      (first : device.does operation s t) (rest : Interrupted device next t performed u) :
      Interrupted device (.perform operation next) s (performed + 1) u

/-- After some operations the program is at the state: every reset during the rest of it
leaves a state that meets `crash`, and it ends in `post`. -/
def Safely (device : Device σ ω) (crash : Nat → σ → Prop) (post : Nat → α → σ → Prop) :
    Program σ ω α → Nat → σ → Prop
  | .done value, performed, s => crash performed s ∧ post performed value s
  | .query next, performed, s => crash performed s ∧ Safely device crash post (next s) performed s
  | .perform operation next, performed, s =>
    crash performed s ∧ (∀ t, device.tears operation s t → crash performed t) ∧
      ∀ t, device.does operation s t → Safely device crash post next (performed + 1) t

variable {program : Program σ ω α} {performed : Nat} {s : σ} {before : Nat} {t : σ} {value : α}
  {next : α → Program σ ω β}

theorem Safely.now (safely : Safely device crash post program performed s) : crash performed s := by
  cases program with
  | done | query | perform => exact safely.1

theorem Safely.ends (safely : Safely device crash post program before s)
    (ended : Ends device program s value performed t) : post (before + performed) value t := by
  induction ended generalizing before with
  | done => exact safely.2
  | query _ ih => exact ih safely.2
  | @perform _ _ _ _ _ _ performed first _ ih =>
    rw [Nat.add_comm performed, ← Nat.add_assoc]
    exact ih (safely.2.2 _ first)

theorem Safely.interrupted (safely : Safely device crash post program before s)
    (reset : Interrupted device program s performed t) : crash (before + performed) t := by
  induction reset generalizing before with
  | here => exact safely.now
  | query _ ih => exact ih safely.2
  | torn tear => exact safely.2.1 _ tear
  | @later _ _ _ _ _ performed first _ ih =>
    rw [Nat.add_comm performed, ← Nat.add_assoc]
    exact ih (safely.2.2 _ first)

theorem Safely.mono {stronger : Nat → α → σ → Prop}
    (safely : Safely device crash stronger program performed s)
    (weaken : ∀ n t, crash n t → weaker n t)
    (implies : ∀ n value t, crash n t → stronger n value t → post n value t) :
    Safely device weaker post program performed s := by
  induction program generalizing performed s with
  | done value => exact ⟨weaken _ s safely.1, implies _ value s safely.1 safely.2⟩
  | query next ih => exact ⟨weaken _ s safely.1, ih s safely.2⟩
  | perform operation next ih =>
    apply And.intro (weaken _ s safely.1)
    apply And.intro
    · intro t tear
      exact weaken _ t (safely.2.1 t tear)
    · intro t first
      exact ih (safely.2.2 t first)

theorem safely_bind {post : Nat → β → σ → Prop} :
    Safely device crash post (program >>= next) performed s ↔
      Safely device crash (fun n value => Safely device crash post (next value) n) program
        performed s := by
  induction program generalizing performed s with
  | done value => exact ⟨fun safely => ⟨safely.now, safely⟩, fun safely => safely.2⟩
  | query rest ih => exact and_congr_right fun _ => ih s
  | perform operation rest ih =>
    apply and_congr_right
    intro _
    apply and_congr_right
    intro _
    exact forall_congr' fun t => imp_congr_right fun _ => ih

@[simp] theorem safely_pure :
    Safely device crash post (pure value) performed s ↔
      crash performed s ∧ post performed value s := Iff.rfl

@[simp] theorem safely_reading {view : σ → α} :
    Safely device crash post (reading view) performed s ↔
      crash performed s ∧ post performed (view s) s := by
  change crash performed s ∧ crash performed s ∧ _ ↔ _
  rw [← and_assoc, and_self]

theorem safely_reading_bind {view : σ → α} {post : Nat → β → σ → Prop} :
    Safely device crash post (reading view >>= next) performed s ↔
      Safely device crash post (next (view s)) performed s := by
  rw [safely_bind, safely_reading]
  exact ⟨And.right, fun safely => ⟨safely.now, safely⟩⟩

theorem safely_operate {operation : ω} {post : Nat → Unit → σ → Prop} :
    Safely device crash post (operate operation) performed s ↔
      crash performed s ∧ (∀ t, device.tears operation s t → crash performed t) ∧
        ∀ t, device.does operation s t → crash (performed + 1) t ∧ post (performed + 1) () t :=
  Iff.rfl

theorem ends_run {effect : ω → σ → σ}
    (does : ∀ operation s, device.does operation s (effect operation s))
    (program : Program σ ω α) (s : σ) :
    ∃ performed, Ends device program s (run effect program s).1 performed
      (run effect program s).2 := by
  induction program generalizing s with
  | done value => exact ⟨0, .done⟩
  | query next ih =>
    obtain ⟨performed, ended⟩ := ih s s
    exact ⟨performed, .query ended⟩
  | perform operation next ih =>
    obtain ⟨performed, ended⟩ := ih (effect operation s)
    exact ⟨performed + 1, .perform (does operation s) ended⟩

theorem Interrupted.bind (reset : Interrupted device program s performed t) :
    Interrupted device (program >>= next) s performed t := by
  induction reset with
  | here => exact .here
  | query _ ih => exact .query ih
  | torn tear => exact .torn tear
  | later first _ ih => exact .later first ih

theorem Ends.interrupted {u : σ} (ended : Ends device program s value before t)
    (reset : Interrupted device (next value) t performed u) :
    Interrupted device (program >>= next) s (performed + before) u := by
  induction ended with
  | done => exact reset
  | query _ ih => exact .query (ih reset)
  | perform first _ ih => exact .later first (ih reset)

end Program

open Program

variable {σ ω α β : Type} {device : Device σ ω} {programs : α → Program σ ω β}
  {ok : σ → α → Nat → Prop} {start : σ}

/-- The states reached by running the programs one after another, where a reset cuts some
of them short. A reset falls only where `ok` lets it, given the state that the program
starts in and the operations that it has completed. -/
inductive Survives (device : Device σ ω) (programs : α → Program σ ω β)
    (ok : σ → α → Nat → Prop) (start : σ) : σ → Prop
  | start : Survives device programs ok start start
  | ends {s t : σ} {value : β} {performed : Nat} (a : α)
      (front : Survives device programs ok start s)
      (last : Ends device (programs a) s value performed t) :
      Survives device programs ok start t
  | reset {s t : σ} {performed : Nat} (a : α) (front : Survives device programs ok start s)
      (meets : ok s a performed) (last : Interrupted device (programs a) s performed t) :
      Survives device programs ok start t

/-- A reset may fall anywhere. -/
def anywhere : σ → α → Nat → Prop := fun _ _ _ => True

theorem Survives.invariant {good : σ → Prop} (base : good start)
    (ends : ∀ s a value performed t, good s → Ends device (programs a) s value performed t →
      good t)
    (resets : ∀ s a performed t, good s → ok s a performed →
      Interrupted device (programs a) s performed t → good t)
    {s : σ} (reached : Survives device programs ok start s) : good s := by
  induction reached with
  | start => exact base
  | ends a _ last ih => exact ends _ a _ _ _ ih last
  | reset a _ meets last ih => exact resets _ a _ _ ih meets last

theorem Survives.runs {effect : ω → σ → σ}
    (does : ∀ operation s, device.does operation s (effect operation s)) (labels : List α)
    {s : σ} (reached : Survives device programs ok start s) :
    Survives device programs ok start
      (labels.foldl (fun s a => (run effect (programs a) s).2) s) := by
  induction labels generalizing s with
  | nil => exact reached
  | cons a rest ih => exact ih (.ends a reached (ends_run does (programs a) s).choose_spec)

end CrashLogic
