/-! `Sequencer`: the whole program is examined in every pass, and two stacks of counters tell
which of its calls is the one to execute. -/

namespace Sequencing

/-- The sequencer, with the world that actions and conditions work on. Of `execute` and `examine`
the innermost context comes first. -/
structure Sequencer (σ : Type) where
  execute : List Nat
  examine : List Nat
  repeats : Bool
  world : σ

/-- A call of the sequencer; without a value when a vector is pushed when full, or popped or
asked for its back when empty. -/
abbrev Call (σ : Type) : Type := Sequencer σ → Option (Sequencer σ)

abbrev Condition (σ : Type) : Type := σ → Bool × σ

structure Variable (σ : Type) where
  get : σ → UInt32
  set : UInt32 → σ → σ

namespace Sequencer

variable {σ : Type}

/-- The maximum size of `execute` and of `examine`. -/
def maxContexts : Nat := 8

def push (contexts : List Nat) : Option (List Nat) :=
  if contexts.length < maxContexts then some (0 :: contexts) else none

def finished (s : Sequencer σ) : Bool := s.execute.isEmpty

def increaseCurrentStep : Call σ := fun s =>
  match s.examine with
  | [] => none
  | back :: outer => some { s with examine := (back + 1) % 256 :: outer }

def executeNextStep : Call σ := fun s =>
  match s.execute with
  | [] => none
  | back :: outer => some { s with execute := (back + 1) % 256 :: outer }

def executePreviousStep : Call σ := fun s =>
  match s.execute with
  | [] => none
  | back :: outer => some { s with execute := (back + 255) % 256 :: outer, repeats := true }

def pushContext : Call σ := fun s =>
  (if s.execute = s.examine then push s.execute else some s.execute).bind fun execute =>
    (push s.examine).map fun examine => { s with execute, examine }

def popContext : Call σ := fun s =>
  let popped : Option (Sequencer σ) :=
    if s.execute = s.examine then
      match s.execute with
      | [] => none
      | _ :: outer =>
        if outer = [] then some { s with execute := outer }
        else executeNextStep { s with execute := outer }
    else some s
  popped.bind fun s =>
    match s.examine with
    | [] => none
    | _ :: outer =>
      if outer = [] then some { s with examine := outer }
      else increaseCurrentStep { s with examine := outer }

def executeWithoutContext (action : Call σ) : Call σ := fun s =>
  (if s.execute = s.examine then (action s).bind executeNextStep else some s).bind
    increaseCurrentStep

def step (action : σ → σ) : Call σ := fun s =>
  increaseCurrentStep
    (if s.execute = s.examine then { s with world := action s.world } else s)

def execute_ (action : Call σ) : Call σ := fun s =>
  let executeCopy := s.execute.drop (s.execute.length - s.examine.length)
  if executeCopy = s.examine then ((pushContext s).bind action).bind popContext
  else increaseCurrentStep s

/-! The functions that calls give to `ExecuteWithoutContext`. -/

def executeTwoSteps : Call σ := fun s => (executeNextStep s).bind executeNextStep

def executeThirdPreviousStep : Call σ := fun s =>
  ((executePreviousStep s).bind executePreviousStep).bind executePreviousStep

variable (condition : Condition σ) (counter : Variable σ) (sequence : Call σ)

/-- Continue with the call after the context when the condition does not hold. -/
def skipUnless : Call σ := fun s =>
  let (holds, world) := condition s.world
  if holds then some { s with world } else executeTwoSteps { s with world }

def repeatIf : Call σ := fun s =>
  let (holds, world) := condition s.world
  if holds then executeThirdPreviousStep { s with world } else some { s with world }

def assign (value : σ → UInt32) : Call σ := fun s =>
  some { s with world := counter.set (value s.world) s.world }

def skipWhenEqual (last : σ → UInt32) : Call σ := fun s =>
  if counter.get s.world = last s.world then executeTwoSteps s else some s

/-! The calls. -/

def if_ : Call σ := fun s =>
  (executeWithoutContext (skipUnless condition) s).bind pushContext

def elseIf : Call σ := fun s =>
  (((popContext s).bind (executeWithoutContext executeTwoSteps)).bind
    (executeWithoutContext (skipUnless condition))).bind pushContext

def endIf : Call σ := fun s => (popContext s).bind (executeWithoutContext some)

def else_ : Call σ := fun s =>
  ((popContext s).bind (executeWithoutContext executeNextStep)).bind pushContext

def while_ : Call σ := if_ condition

def endWhile : Call σ := fun s =>
  (popContext s).bind (executeWithoutContext executeThirdPreviousStep)

def doWhile : Call σ := fun s => (executeWithoutContext some s).bind pushContext

def endDoWhile : Call σ := fun s =>
  (popContext s).bind (executeWithoutContext (repeatIf condition))

def forEach (first last : σ → UInt32) : Call σ := fun s =>
  ((executeWithoutContext (assign counter first) s).bind
    (executeWithoutContext (skipWhenEqual counter last))).bind pushContext

def endForEach : Call σ := fun s =>
  ((executeWithoutContext (assign counter fun world => counter.get world + 1) s).bind
    popContext).bind (executeWithoutContext executeThirdPreviousStep)

/-- One pass of the loop of `Continue`. -/
def pass : Call σ := fun s =>
  ((pushContext { s with repeats := false }).bind sequence).bind popContext

/-- Why `Continue` has not returned. -/
inductive Stop
  | assertion
  | running
  deriving DecidableEq

def passes (sequence : Call σ) : Nat → Sequencer σ → Except Stop (Sequencer σ)
  | 0, _ => .error .running
  | limit + 1, s =>
    match pass sequence s with
    | none => .error .assertion
    | some t => if t.repeats then passes sequence limit t else .ok t

def continue_ (limit : Nat) (s : Sequencer σ) :
    Except Stop (Sequencer σ) := do
  let t ← passes sequence limit { s with examine := [] }
  if t.finished then return t
  else
    match executeNextStep t with
    | none => .error .assertion
    | some t => .ok t

def load (limit : Nat) (s : Sequencer σ) : Except Stop (Sequencer σ) :=
  continue_ sequence limit { s with execute := [] }

end Sequencer

end Sequencing
