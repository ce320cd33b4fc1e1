import EmbeddedInfra.Fsm.TransitionTable
import EmbeddedInfra.Runs

/-! A `TableStateMachine` at work. Guards, actions, entry and exit methods, hooks and
observers are the surroundings: at any moment they may make a completion, invoke one or
dispatch an event, and the machine goes on in between. -/

namespace Fsm

variable {states events rows : Nat}

/-- A function made by `Completion` or `CompletionWith`: the event it carries (none when
a mapper builds it), the epoch it captured and the number of external transitions that
had been executed when it was made. -/
structure Completion (events : Nat) where
  event : Option (Fin events)
  epochAtRequest : UInt32
  madeAt : Nat
  deriving DecidableEq

structure Invocation where
  number : Nat
  madeAt : Nat
  deriving DecidableEq

/-- An event on its way to `DispatchNow`, with the call of a completion it comes from. -/
structure Posted (events : Nat) where
  event : Fin events
  completion : Option Invocation
  deriving DecidableEq

/-- A call of `DispatchNow`: the current state, the external transitions executed
before it, the row that was selected and the result. -/
structure Handling (states events rows : Nat) where
  posted : Posted events
  state : Fin states
  transitions : Nat
  selected : Option (Fin rows)
  result : DispatchResult
  deriving DecidableEq

/-- Where the machine is: `idle` is outside of `Start` and `Dispatch`, every other phase
runs with `dispatching` set. -/
inductive Phase (events rows : Nat)
  | idle
  | starting
  | selecting (posted : Posted events)
  | refusing
  | handling
  | leaving (row : Fin rows)
  | building (row : Fin rows)
  | entering
  deriving DecidableEq

structure Machine (states events rows : Nat) where
  validatedInitial : Option (Fin states)
  currentState : Option (Fin states) := none
  queue : List (Posted events) := []
  epoch : UInt32 := 0
  phase : Phase events rows := .idle
  completions : List (Completion events) := []
  transitions : Nat := 0
  invocations : Nat := 0
  handlings : List (Handling states events rows) := []
  discarded : List (Posted events) := []
  entered : List (Fin states) := []
  executed : List (Fin states × Fin states) := []
  deriving DecidableEq

inductive Action (states events rows : Nat)
  | start (initial : Fin states)
  | completion (event : Option (Fin events))
  | dispatch (event : Fin events)
  | complete (index : Nat) (event : Fin events)
  | select (guards : Fin rows → Bool)
  | exit
  | build
  | drain

namespace Machine

variable (m : Machine states events rows)

def constructed (validatedInitial : Option (Fin states)) : Machine states events rows :=
  { validatedInitial }

/-- `Dispatch` up to the call of `DispatchNow`; a full queue asserts. -/
def Dispatch (capacity : Nat) (posted : Posted events) : Option (Machine states events rows) :=
  if m.currentState = none then none
  else match m.phase with
    | .idle => some { m with phase := .selecting posted }
    | _ =>
      if m.queue.length < capacity then some { m with queue := m.queue ++ [posted] }
      else none

/-- The call that `CompleteWith` is reached by. -/
def invoke (completion : Completion events) (event : Fin events) : Posted events :=
  ⟨event, some ⟨m.invocations, completion.madeAt⟩⟩

def CompleteWith (capacity : Nat) (posted : Posted events) (epochAtRequest : UInt32) :
    Option (Machine states events rows) :=
  if epochAtRequest = m.epoch then
    Dispatch { m with invocations := m.invocations + 1 } capacity posted
  else if m.currentState = none then none
  else some { m with invocations := m.invocations + 1, discarded := m.discarded ++ [posted] }

/-- What `DispatchNow` does with the row that `Select` gave: nothing selected leads to
`Reject`, an internal row runs its action only. -/
def dispatchNow (table : Table states events) (m : Machine states events table.length)
    (posted : Posted events) (state : Fin states)
    (chosen : Option (Fin table.length) × Bool) : Machine states events table.length :=
  { m with
    phase := match chosen.1 with
      | none => .refusing
      | some row => if (table.get row).internal then .handling else .leaving row
    handlings := m.handlings ++
      [⟨posted, state, m.transitions, chosen.1, dispatchResult table chosen⟩] }

/-- One iteration of `DrainQueue`, or the end of `Start` or `Dispatch`. -/
def drainQueue : Machine states events rows :=
  match m.queue with
  | [] => { m with phase := .idle }
  | posted :: queue => { m with phase := .selecting posted, queue }

end Machine

/-- A step of the surroundings or of the machine; `none` is a failed assertion or a step
that is not next. `exit` is `OnExit` up to the advance of the epoch, `build` runs the
action and commits the target. -/
def step (table : Table states events) (capacity : Nat) (m : Machine states events table.length) :
    Action states events table.length → Option (Machine states events table.length)
  | .start initial =>
    if m.currentState = none ∧ m.validatedInitial.all (· = initial) then
      some { m with currentState := some initial, epoch := m.epoch + 1, phase := .starting,
                    entered := m.entered ++ [initial] }
    else none
  | .completion event =>
    some { m with completions := m.completions ++ [⟨event, m.epoch, m.transitions⟩] }
  | .dispatch event => m.Dispatch capacity ⟨event, none⟩
  | .complete index event =>
    match m.completions[index]? with
    | none => none
    | some completion =>
      if completion.event.all (· = event) then
        m.CompleteWith capacity (m.invoke completion event) completion.epochAtRequest
      else none
  | .select guards =>
    match m.phase, m.currentState with
    | .selecting posted, some state =>
      some (m.dispatchNow table posted state (select table guards state posted.event))
    | _, _ => none
  | .exit =>
    match m.phase with
    | .leaving row =>
      some { m with phase := .building row, epoch := m.epoch + 1,
                    transitions := m.transitions + 1 }
    | _ => none
  | .build =>
    match m.phase, m.currentState with
    | .building row, some state =>
      some { m with currentState := some (table.get row).target, phase := .entering
                    entered := m.entered ++ [(table.get row).target]
                    executed := m.executed ++ [(state, (table.get row).target)] }
    | _, _ => none
  | .drain =>
    match m.phase with
    | .starting | .refusing | .handling | .entering => some m.drainQueue
    | _ => none

end Fsm
