import EmbeddedInfra.Sequencing.Sequencer

/-! Structured programs: the calls that they make of a sequencer, and their direct execution. -/

namespace Sequencing

mutual

inductive Program (σ : Type)
  | done
  | next (statement : Statement σ) (rest : Program σ)

inductive Statement (σ : Type)
  | step (action : σ → σ)
  | execute (body : Program σ)
  | branch (condition : Condition σ) (body : Program σ) (otherwise : Otherwise σ)
  | whileLoop (condition : Condition σ) (body : Program σ)
  | doWhile (body : Program σ) (condition : Condition σ)
  | forEach (counter : Variable σ) (first last : σ → UInt32) (body : Program σ)

/-- What follows the first branch of an `If`. -/
inductive Otherwise (σ : Type)
  | endIf
  | elseIf (condition : Condition σ) (body : Program σ) (otherwise : Otherwise σ)
  | elseBranch (body : Program σ)

end

variable {σ : Type}

open Sequencer

mutual

/-- The function given to `Load`. -/
def Program.sequence : Program σ → Call σ
  | .done => some
  | .next statement rest => fun s => (statement.sequence s).bind rest.sequence

def Statement.sequence : Statement σ → Call σ
  | .step action => Sequencer.step action
  | .execute body => execute_ body.sequence
  | .branch condition body otherwise => fun s =>
    ((if_ condition s).bind body.sequence).bind otherwise.sequence
  | .whileLoop condition body => fun s =>
    ((while_ condition s).bind body.sequence).bind endWhile
  | .doWhile body condition => fun s =>
    ((doWhile s).bind body.sequence).bind (endDoWhile condition)
  | .forEach counter first last body => fun s =>
    ((forEach counter first last s).bind body.sequence).bind (endForEach counter)

def Otherwise.sequence : Otherwise σ → Call σ
  | .endIf => endIf
  | .elseIf condition body otherwise => fun s =>
    ((elseIf condition s).bind body.sequence).bind otherwise.sequence
  | .elseBranch body => fun s => ((else_ s).bind body.sequence).bind endIf

end

/-- What is still to be executed; loops that have been entered are frames of their own. -/
inductive Frame (σ : Type)
  | run (program : Program σ)
  | perform (statement : Statement σ)
  | choose (otherwise : Otherwise σ)
  | again (condition : Condition σ) (body : Program σ)
  | upTo (counter : Variable σ) (last : σ → UInt32) (body : Program σ)
  | increment (counter : Variable σ)

abbrev Frames (σ : Type) : Type := List (Frame σ)

def decideBy (condition : Condition σ) (yes no : Frames σ) (world : σ) : Frames σ × σ :=
  let (holds, world) := condition world
  (if holds then yes else no, world)

/-- One piece of direct execution: a condition, an assignment or a jump, but no step. -/
def advance : Frames σ → σ → Option (Frames σ × σ)
  | [], _ => none
  | .run .done :: frames, world => some (frames, world)
  | .run (.next statement rest) :: frames, world =>
    some (.perform statement :: .run rest :: frames, world)
  | .perform (.step _) :: _, _ => none
  | .perform (.execute body) :: frames, world => some (.run body :: frames, world)
  | .perform (.branch condition body otherwise) :: frames, world =>
    some (decideBy condition (.run body :: frames) (.choose otherwise :: frames) world)
  | .choose .endIf :: frames, world => some (frames, world)
  | .choose (.elseIf condition body otherwise) :: frames, world =>
    some (decideBy condition (.run body :: frames) (.choose otherwise :: frames) world)
  | .choose (.elseBranch body) :: frames, world => some (.run body :: frames, world)
  | .perform (.whileLoop condition body) :: frames, world =>
    some (.again condition body :: frames, world)
  | .perform (.doWhile body condition) :: frames, world =>
    some (.run body :: .again condition body :: frames, world)
  | .again condition body :: frames, world =>
    some (decideBy condition (.run body :: .again condition body :: frames) frames world)
  | .perform (.forEach counter first last body) :: frames, world =>
    some (.upTo counter last body :: frames, counter.set (first world) world)
  | .upTo counter last body :: frames, world =>
    some (if counter.get world = last world then frames
      else .run body :: .increment counter :: .upTo counter last body :: frames, world)
  | .increment counter :: frames, world =>
    some (frames, counter.set (counter.get world + 1) world)

/-- Direct execution until one step has been taken, or to the end. -/
def resume : Nat → Frames σ → σ → Option (Frames σ × σ)
  | 0, _, _ => none
  | _ + 1, [], world => some ([], world)
  | _ + 1, .perform (.step action) :: frames, world => some (frames, action world)
  | limit + 1, frame :: frames, world =>
    (advance (frame :: frames) world).bind fun (frames, world) => resume limit frames world

mutual

/-- The positions that a program takes in its context. -/
def Program.size : Program σ → Nat
  | .done => 0
  | .next statement rest => statement.size + rest.size

def Statement.size : Statement σ → Nat
  | .step _ => 1
  | .execute _ => 1
  | .branch _ _ otherwise => 2 + otherwise.size
  | .whileLoop _ _ => 3
  | .doWhile _ _ => 3
  | .forEach _ _ _ _ => 4

def Otherwise.size : Otherwise σ → Nat
  | .endIf => 1
  | .elseIf _ _ otherwise => 3 + otherwise.size
  | .elseBranch _ => 3

end

mutual

/-- The depth and the positions of the contexts in a program, which is itself in one of
`contexts` contexts: at most 8 at a time, each with fewer than 256 positions. `EndForEach` takes
a position in the context of the body. -/
def Program.Fits (contexts : Nat) : Program σ → Prop
  | .done => contexts ≤ maxContexts
  | .next statement rest => statement.Fits contexts ∧ rest.Fits contexts

def Statement.Fits (contexts : Nat) : Statement σ → Prop
  | .step _ => True
  | .execute body => body.size < 256 ∧ body.Fits (contexts + 1)
  | .branch _ body otherwise =>
    (body.size < 256 ∧ body.Fits (contexts + 1)) ∧ otherwise.Fits contexts
  | .whileLoop _ body => body.size < 256 ∧ body.Fits (contexts + 1)
  | .doWhile body _ => body.size < 256 ∧ body.Fits (contexts + 1)
  | .forEach _ _ _ body => body.size + 1 < 256 ∧ body.Fits (contexts + 1)

def Otherwise.Fits (contexts : Nat) : Otherwise σ → Prop
  | .endIf => True
  | .elseIf _ body otherwise =>
    (body.size < 256 ∧ body.Fits (contexts + 1)) ∧ otherwise.Fits contexts
  | .elseBranch body => body.size < 256 ∧ body.Fits (contexts + 1)

end

/-- Nested to a depth of 8 contexts, with fewer than 256 positions in each. -/
def Program.WellSized (program : Program σ) : Prop := program.size < 256 ∧ program.Fits 1

end Sequencing
