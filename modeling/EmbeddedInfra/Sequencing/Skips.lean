import EmbeddedInfra.Sequencing.StructuredProgram
import Mathlib.Tactic

/-! Calls that are not the one to execute only move the position that is examined. -/

namespace Sequencing

open Sequencer

variable {σ : Type} {x e : List Nat} {p : Nat} {r : Bool} {w : σ}

/-- What is to be executed is in no position from `p` up to `stop` in the context `e`. -/
def Apart (x : List Nat) (p stop : Nat) (e : List Nat) : Prop :=
  ∀ q, p ≤ q → q < stop → ¬ (q :: e) <:+ x

theorem Apart.mono {stop p' stop' : Nat} (apart : Apart x p stop e) (first : p ≤ p')
    (last : stop' ≤ stop) : Apart x p' stop' e :=
  fun q low high => apart q (first.trans low) (high.trans_le last)

theorem Apart.ne {stop : Nat} (apart : Apart x p stop e) (first : p < stop) : x ≠ p :: e := by
  intro same
  exact apart p le_rfl first (same ▸ List.suffix_rfl)

theorem Apart.inside {stop first last : Nat} (apart : Apart x p stop e) (nonempty : p < stop) :
    Apart x first last (p :: e) := by
  intro q _ _ within
  exact apart p le_rfl nonempty ((List.suffix_cons q (p :: e)).trans within)

namespace Sequencer

theorem increaseCurrentStep_of_lt (room : p + 1 < 256) :
    increaseCurrentStep (σ := σ) ⟨x, p :: e, r, w⟩ = some ⟨x, (p + 1) :: e, r, w⟩ := by
  simp only [increaseCurrentStep, Nat.mod_eq_of_lt room]

theorem executeWithoutContext_skips (action : Call σ) (apart : x ≠ p :: e) (room : p + 1 < 256) :
    executeWithoutContext action ⟨x, p :: e, r, w⟩ = some ⟨x, (p + 1) :: e, r, w⟩ := by
  simp only [executeWithoutContext, apart, if_false, Option.bind_some]
  exact increaseCurrentStep_of_lt room

theorem step_skips (action : σ → σ) (apart : x ≠ p :: e) (room : p + 1 < 256) :
    Sequencer.step action ⟨x, p :: e, r, w⟩ = some ⟨x, (p + 1) :: e, r, w⟩ := by
  simp only [Sequencer.step, apart, if_false]
  exact increaseCurrentStep_of_lt room

theorem pushContext_skips (apart : x ≠ e) (room : e.length < maxContexts) :
    pushContext (σ := σ) ⟨x, e, r, w⟩ = some ⟨x, 0 :: e, r, w⟩ := by
  simp [pushContext, push, apart, room]

theorem popContext_skips {n : Nat} (apart : x ≠ n :: p :: e) (room : p + 1 < 256) :
    popContext (σ := σ) ⟨x, n :: p :: e, r, w⟩ = some ⟨x, (p + 1) :: e, r, w⟩ := by
  simp only [popContext, apart, if_false, Option.bind_some, reduceCtorEq]
  exact increaseCurrentStep_of_lt room

theorem execute_skips (action : Call σ) (apart : ¬ (p :: e) <:+ x) (room : p + 1 < 256) :
    execute_ action ⟨x, p :: e, r, w⟩ = some ⟨x, (p + 1) :: e, r, w⟩ := by
  have other : x.drop (x.length - (p :: e).length) ≠ p :: e := by
    intro same
    exact apart (same ▸ List.drop_suffix _ _)
  simp only [execute_, other, if_false]
  exact increaseCurrentStep_of_lt room

end Sequencer

def andThen (first second : Call σ) : Call σ := fun s => (first s).bind second

def inContext (body : Call σ) : Call σ := fun s => ((pushContext s).bind body).bind popContext

/-- The calls after the `PopContext` with which an `ElseIf`, `Else` or `EndIf` starts. -/
def Otherwise.tail : Otherwise σ → Call σ
  | .endIf => executeWithoutContext some
  | .elseIf condition body otherwise =>
    andThen (executeWithoutContext executeTwoSteps)
      (andThen (executeWithoutContext (skipUnless condition))
        (andThen (inContext body.sequence) otherwise.tail))
  | .elseBranch body =>
    andThen (executeWithoutContext executeNextStep)
      (andThen (inContext body.sequence) (executeWithoutContext some))

theorem Otherwise.sequence_eq (otherwise : Otherwise σ) :
    otherwise.sequence = andThen popContext otherwise.tail := by
  match otherwise with
  | .endIf => rfl
  | .elseIf condition body otherwise =>
    have inner := sequence_eq otherwise
    funext s
    rw [Otherwise.sequence, inner, Otherwise.tail]
    unfold Sequencer.elseIf andThen inContext
    simp only [Option.bind_assoc]
  | .elseBranch body =>
    funext s
    rw [Otherwise.sequence, Otherwise.tail]
    unfold else_ Sequencer.endIf andThen inContext
    simp only [Option.bind_assoc]

theorem branch_sequence (condition : Condition σ) (body : Program σ) (otherwise : Otherwise σ) :
    (Statement.branch condition body otherwise).sequence =
      andThen (executeWithoutContext (skipUnless condition))
        (andThen (inContext body.sequence) otherwise.tail) := by
  funext s
  rw [Statement.sequence, Otherwise.sequence_eq]
  unfold if_ andThen inContext
  simp only [Option.bind_assoc]

theorem whileLoop_sequence (condition : Condition σ) (body : Program σ) :
    (Statement.whileLoop condition body).sequence =
      andThen (executeWithoutContext (skipUnless condition))
        (andThen (inContext body.sequence) (executeWithoutContext executeThirdPreviousStep)) := by
  funext s
  rw [Statement.sequence]
  unfold while_ if_ endWhile andThen inContext
  simp only [Option.bind_assoc]

theorem doWhile_sequence (body : Program σ) (condition : Condition σ) :
    (Statement.doWhile body condition).sequence =
      andThen (executeWithoutContext some)
        (andThen (inContext body.sequence) (executeWithoutContext (repeatIf condition))) := by
  funext s
  rw [Statement.sequence]
  unfold Sequencer.doWhile endDoWhile andThen inContext
  simp only [Option.bind_assoc]

/-- The body of a `ForEach`, with the increment that `EndForEach` makes in its context. -/
def countedBody (counter : Variable σ) (body : Program σ) : Call σ :=
  andThen body.sequence
    (executeWithoutContext (assign counter fun world => counter.get world + 1))

theorem forEach_sequence (counter : Variable σ) (first last : σ → UInt32) (body : Program σ) :
    (Statement.forEach counter first last body).sequence =
      andThen (executeWithoutContext (assign counter first))
        (andThen (executeWithoutContext (skipWhenEqual counter last))
          (andThen (inContext (countedBody counter body))
            (executeWithoutContext executeThirdPreviousStep))) := by
  funext s
  rw [Statement.sequence]
  unfold Sequencer.forEach endForEach countedBody andThen inContext
  simp only [Option.bind_assoc]

/-- A piece of the program from position `p` up to position `stop` skips when what is to be
executed lies elsewhere. -/
def Skips (piece : Call σ) (p stop : Nat) (e : List Nat) : Prop :=
  ∀ (x : List Nat) (r : Bool) (w : σ), Apart x p stop e →
    piece ⟨x, p :: e, r, w⟩ = some ⟨x, stop :: e, r, w⟩

section

variable {first second : Call σ} {middle stop : Nat}

theorem Skips.andThen (front : Skips first p middle e) (back : Skips second middle stop e)
    (low : p ≤ middle) (high : middle ≤ stop) : Skips (andThen first second) p stop e := by
  intro x r w apart
  simp only [Sequencing.andThen, front x r w (apart.mono le_rfl high), Option.bind_some]
  exact back x r w (apart.mono low le_rfl)

theorem skips_executeWithoutContext (action : Call σ) (room : p + 1 < 256) :
    Skips (executeWithoutContext action) p (p + 1) e := by
  intro x r w apart
  exact executeWithoutContext_skips action (apart.ne (Nat.lt_succ_self p)) room

theorem skips_inContext {body : Call σ} (inside : Skips body 0 stop (p :: e))
    (room : p + 1 < 256) (depth : e.length + 1 < maxContexts) :
    Skips (inContext body) p (p + 1) e := by
  intro x r w apart
  have within : Apart x 0 stop (p :: e) := apart.inside (Nat.lt_succ_self p)
  have behind : Apart x stop (stop + 1) (p :: e) := apart.inside (Nat.lt_succ_self p)
  simp only [inContext, pushContext_skips (apart.ne (Nat.lt_succ_self p)) depth,
    Option.bind_some, inside x r w within]
  exact popContext_skips (behind.ne (Nat.lt_succ_self stop)) room

end

theorem Program.Fits.contexts {contexts : Nat} {program : Program σ}
    (fits : program.Fits contexts) : contexts ≤ maxContexts := by
  match program with
  | .done => exact fits
  | .next _ _ => exact Fits.contexts fits.2

theorem Otherwise.size_pos (otherwise : Otherwise σ) : 0 < otherwise.size := by
  cases otherwise with
  | endIf => exact Nat.one_pos
  | elseIf => exact Nat.add_pos_left (by decide) _
  | elseBranch => exact Nat.succ_pos _

section

variable {body : Program σ} (room : p + 1 < 256) (fits : body.Fits (e.length + 1 + 1))
  (inside : Skips body.sequence 0 (0 + body.size) (p :: e))

include room fits inside

theorem skips_entered : Skips (inContext body.sequence) p (p + 1) e :=
  skips_inContext inside room fits.contexts

theorem skips_counted (counter : Variable σ) (narrow : body.size + 1 < 256) :
    Skips (inContext (countedBody counter body)) p (p + 1) e := by
  have counted := skips_executeWithoutContext (e := p :: e)
    (assign counter fun world => counter.get world + 1) (show 0 + body.size + 1 < 256 by omega)
  exact skips_inContext (inside.andThen counted (by omega) (by omega)) room fits.contexts

end

mutual

theorem skips_program (program : Program σ) (p : Nat) (e : List Nat)
    (room : p + program.size < 256) (fits : program.Fits (e.length + 1)) :
    Skips program.sequence p (p + program.size) e := by
  match program with
  | .done =>
    intro x r w _
    rfl
  | .next statement rest =>
    simp only [Program.size] at room
    have front := skips_statement statement p e (by omega) fits.1
    have back := skips_program rest (p + statement.size) e (by omega) fits.2
    simp only [Program.size, ← Nat.add_assoc]
    exact front.andThen back (Nat.le_add_right _ _) (Nat.le_add_right _ _)

theorem skips_statement (statement : Statement σ) (p : Nat) (e : List Nat)
    (room : p + statement.size < 256) (fits : statement.Fits (e.length + 1)) :
    Skips statement.sequence p (p + statement.size) e := by
  match statement with
  | .step action =>
    intro x r w apart
    exact step_skips action (apart.ne (Nat.lt_succ_self p)) room
  | .execute body =>
    intro x r w apart
    exact execute_skips _ (apart p le_rfl (Nat.lt_succ_self p)) room
  | .branch condition body otherwise =>
    simp only [Statement.size] at room ⊢
    have positive := otherwise.size_pos
    rw [branch_sequence, ← Nat.add_assoc]
    have front := skips_executeWithoutContext (e := e) (skipUnless condition)
      (show p + 1 < 256 by omega)
    have middle := skips_entered (by omega) fits.1.2
      (skips_program body 0 ((p + 1) :: e) (by have := fits.1.1; omega) fits.1.2)
    have back := skips_tail otherwise (p + 1 + 1) e (by omega) fits.2
    exact front.andThen (middle.andThen back (by omega) (by omega)) (by omega) (by omega)
  | .whileLoop condition body =>
    simp only [Statement.size] at room ⊢
    rw [whileLoop_sequence]
    have front := skips_executeWithoutContext (e := e) (skipUnless condition)
      (show p + 1 < 256 by omega)
    have middle := skips_entered (by omega) fits.2
      (skips_program body 0 ((p + 1) :: e) (by have := fits.1; omega) fits.2)
    have back := skips_executeWithoutContext (e := e) (σ := σ) executeThirdPreviousStep
      (show p + 1 + 1 + 1 < 256 by omega)
    exact front.andThen (middle.andThen back (by omega) (by omega)) (by omega) (by omega)
  | .doWhile body condition =>
    simp only [Statement.size] at room ⊢
    rw [doWhile_sequence]
    have front := skips_executeWithoutContext (e := e) (σ := σ) some
      (show p + 1 < 256 by omega)
    have middle := skips_entered (by omega) fits.2
      (skips_program body 0 ((p + 1) :: e) (by have := fits.1; omega) fits.2)
    have back := skips_executeWithoutContext (e := e) (repeatIf condition)
      (show p + 1 + 1 + 1 < 256 by omega)
    exact front.andThen (middle.andThen back (by omega) (by omega)) (by omega) (by omega)
  | .forEach counter first last body =>
    simp only [Statement.size] at room ⊢
    rw [forEach_sequence]
    have front := skips_executeWithoutContext (e := e) (assign counter first)
      (show p + 1 < 256 by omega)
    have check := skips_executeWithoutContext (e := e) (skipWhenEqual counter last)
      (show p + 1 + 1 < 256 by omega)
    have middle := skips_counted (by omega) fits.2
      (skips_program body 0 ((p + 1 + 1) :: e) (by have := fits.1; omega) fits.2) counter fits.1
    have back := skips_executeWithoutContext (e := e) (σ := σ) executeThirdPreviousStep
      (show p + 1 + 1 + 1 + 1 < 256 by omega)
    exact front.andThen (check.andThen (middle.andThen back (by omega) (by omega))
      (by omega) (by omega)) (by omega) (by omega)

theorem skips_tail (otherwise : Otherwise σ) (p : Nat) (e : List Nat)
    (room : p + otherwise.size < 256) (fits : otherwise.Fits (e.length + 1)) :
    Skips otherwise.tail p (p + otherwise.size) e := by
  match otherwise with
  | .endIf => exact skips_executeWithoutContext some room
  | .elseIf condition body otherwise =>
    simp only [Otherwise.size] at room ⊢
    have front := skips_executeWithoutContext (e := e) (σ := σ) executeTwoSteps
      (show p + 1 < 256 by omega)
    have check := skips_executeWithoutContext (e := e) (skipUnless condition)
      (show p + 1 + 1 < 256 by omega)
    have middle := skips_entered (by omega) fits.1.2
      (skips_program body 0 ((p + 1 + 1) :: e) (by have := fits.1.1; omega) fits.1.2)
    have back := skips_tail otherwise (p + 1 + 1 + 1) e (by omega) fits.2
    rw [← Nat.add_assoc]
    exact front.andThen (check.andThen (middle.andThen back (by omega) (by omega))
      (by omega) (by omega)) (by omega) (by omega)
  | .elseBranch body =>
    simp only [Otherwise.size] at room ⊢
    have front := skips_executeWithoutContext (e := e) (σ := σ) executeNextStep
      (show p + 1 < 256 by omega)
    have middle := skips_entered (by omega) fits.2
      (skips_program body 0 ((p + 1) :: e) (by have := fits.1; omega) fits.2)
    have back := skips_executeWithoutContext (e := e) (σ := σ) some
      (show p + 1 + 1 + 1 < 256 by omega)
    exact front.andThen (middle.andThen back (by omega) (by omega)) (by omega) (by omega)

end

theorem skips_body (body : Program σ) (p : Nat) (e : List Nat) (room : p + 1 < 256)
    (narrow : body.size < 256) (fits : body.Fits (e.length + 1 + 1)) :
    Skips (inContext body.sequence) p (p + 1) e :=
  skips_entered room fits (skips_program body 0 (p :: e) (by omega) fits)

theorem skips_countedBody (counter : Variable σ) (body : Program σ) (p : Nat) (e : List Nat)
    (room : p + 1 < 256) (narrow : body.size + 1 < 256) (fits : body.Fits (e.length + 1 + 1)) :
    Skips (inContext (countedBody counter body)) p (p + 1) e :=
  skips_counted room fits (skips_program body 0 (p :: e) (by omega) fits) counter narrow

end Sequencing
