import Mathlib.Order.Lattice

/-! `TimerService` and its timers as objects, which actions start, restart, cancel and destroy while
`Progressed` runs. Between two passes of `Progressed` an action runs, a call at a time. -/

namespace Timer.Actions

open Function

inductive Kind
  | singleShot
  | repeating
  deriving DecidableEq

/-- A timer; `action` is empty while it is not armed. -/
structure Timer where
  nextTriggerTime : Int := 0
  triggerPeriod : Int := 0
  action : Option Nat := none
  deriving DecidableEq

/-- The kinds of the timers, `TimePoint::max()`, and `Resolution()`. -/
structure Clock where
  kind : Nat → Kind
  maximum : Int
  resolution : Int

/-- Outside `Progressed`, before a pass of its loop, or in the action of a timer that was due at
`trigger`. -/
inductive Phase
  | idle
  | looping (time : Int)
  | acting (time : Int) (more : Bool) (trigger : Int)
  deriving DecidableEq

/-- An action that was run, the trigger of its timer, and the time that `Progressed` was called
with. -/
structure Run where
  timer : Nat
  trigger : Int
  action : Nat
  time : Int
  deriving DecidableEq

/-- The service, with the actions that were run since `Progressed` was called last, and how often a
timer was started and run. -/
structure TimerService where
  timers : Nat → Timer := fun _ => {}
  scheduledTimers : List Nat := []
  nextTrigger : Int
  holdUpdate : Bool := false
  updateNeeded : Bool := false
  phase : Phase := .idle
  ran : List Run := []
  starts : Nat → Nat := fun _ => 0
  runs : Nat → Nat := fun _ => 0

/-- Calls of a program, each with what it reads from `Now()`. The destructor cancels. -/
inductive Call
  | startAt (timer : Nat) (time : Int) (action : Nat)
  | startAfter (timer : Nat) (duration checked now : Int) (action : Nat)
  | startRepeating (timer : Nat) (duration now : Int) (action : Nat)
  | cancel (timer : Nat)
  deriving DecidableEq

namespace TimerService

variable (clock : Clock) (s : TimerService)

def initial : TimerService where
  nextTrigger := clock.maximum

def trigger (timer : Nat) : Int := (s.timers timer).nextTriggerTime

def armed (timer : Nat) : Bool := (s.timers timer).action.isSome

/-- The loop of `ComputeNextTrigger`. -/
def least (maximum : Int) : Int :=
  s.scheduledTimers.foldl (fun next timer => min next (s.trigger timer)) maximum

def computeNextTrigger (s : TimerService) : TimerService :=
  if s.holdUpdate then { s with updateNeeded := true }
  else { s with updateNeeded := false, nextTrigger := s.least clock.maximum }

def registerTimer (timer : Nat) : TimerService :=
  let s := { s with scheduledTimers := timer :: s.scheduledTimers }
  if s.trigger timer < s.nextTrigger then { s with nextTrigger := s.trigger timer } else s

/-- While an action runs `timerIterator` is at the end of the list. -/
def unregisterTimer (s : TimerService) (timer : Nat) (oldTriggerTime : Int) : TimerService :=
  let s := { s with scheduledTimers := s.scheduledTimers.erase timer }
  if oldTriggerTime = s.nextTrigger then computeNextTrigger clock s else s

def updateTriggerTime (s : TimerService) (timer : Nat) (oldTriggerTime : Int) : TimerService :=
  if s.nextTrigger = oldTriggerTime ∨ s.trigger timer < s.nextTrigger then
    computeNextTrigger clock s
  else s

/-- A time beyond `TimePoint::max()` overflows. -/
def setNextTriggerTime (s : TimerService) (timer : Nat) (time : Int) (action : Nat) :
    Option TimerService :=
  if clock.maximum < time then none
  else
    let old := s.timers timer
    let s := { s with
      timers := update s.timers timer { old with nextTriggerTime := time } }
    let s := match old.action with
      | none => s.registerTimer timer
      | some _ => s.updateTriggerTime clock timer old.nextTriggerTime
    some { s with
      timers := update s.timers timer { s.timers timer with action := some action } }

def cancel (s : TimerService) (timer : Nat) : TimerService :=
  let s := match (s.timers timer).action with
    | none => s
    | some _ => s.unregisterTimer clock timer (s.trigger timer)
  { s with
    timers := update s.timers timer
      { s.timers timer with nextTriggerTime := 0, action := none } }

/-- `Start`, when it sets a trigger. -/
def started (s : TimerService) (timer : Nat) (time : Int) (action : Nat) : Option TimerService :=
  (s.setNextTriggerTime clock timer time action).map fun s =>
    { s with starts := update s.starts timer (s.starts timer + 1) }

end TimerService

def Call.sets (clock : Clock) : Call → Option Int
  | .startAt _ time _ =>
    if time < clock.maximum - clock.resolution then some (time + clock.resolution) else none
  | .startAfter _ duration checked now _ =>
    if checked + clock.resolution < clock.maximum - duration then
      some (now + duration + clock.resolution)
    else none
  | .startRepeating _ duration now _ => some (now + duration + clock.resolution)
  | .cancel _ => none

namespace TimerService

variable (clock : Clock)

/-- A call, unless the timer is not of the kind for it. -/
def perform (s : TimerService) (call : Call) : Option TimerService :=
  match call with
  | .startAt timer _ action =>
    if clock.kind timer ≠ .singleShot then none
    else match call.sets clock with
      | some time => s.started clock timer time action
      | none => some (s.cancel clock timer)
  | .startAfter timer _ _ _ action =>
    if clock.kind timer ≠ .singleShot then none
    else match call.sets clock with
      | some time => s.started clock timer time action
      | none => some s
  | .startRepeating timer duration _ action =>
    if clock.kind timer ≠ .repeating then none
    else
      let s := { s with
        timers := update s.timers timer
          { s.timers timer with triggerPeriod := duration } }
      match call.sets clock with
      | some time => s.started clock timer time action
      | none => some s
  | .cancel timer => some (s.cancel clock timer)

/-- The trigger that a repeating timer computes; a period of zero divides by zero. -/
def nextPeriod (s : TimerService) (timer : Nat) (now : Int) : Option Int :=
  let triggerPeriod := (s.timers timer).triggerPeriod
  let now := max now (s.trigger timer)
  if triggerPeriod = 0 then none
  else
    let diff := (now - s.trigger timer).tmod triggerPeriod
    some (now - diff + triggerPeriod)

def computeNextTriggerTime (s : TimerService) (timer : Nat) (now : Int) (action : Nat) :
    Option TimerService :=
  match clock.kind timer with
  | .singleShot => some (s.cancel clock timer)
  | .repeating =>
    match s.nextPeriod timer now with
    | none => none
    | some time => s.setNextTriggerTime clock timer time action

/-- The loop of `Progressed` over the list. -/
def findEarliest (s : TimerService) (time : Int) :
    List Nat → Option Nat → Bool → Option Nat × Bool
  | [], earliest, more => (earliest, more)
  | current :: rest, earliest, more =>
    if s.trigger current ≤ time then
      match earliest with
      | none => findEarliest s time rest (some current) more
      | some sofar =>
        findEarliest s time rest
          (if s.trigger sofar > s.trigger current then some current else some sofar) true
    else findEarliest s time rest earliest more

def finished (s : TimerService) : TimerService :=
  let s := { s with holdUpdate := false, phase := .idle }
  if s.updateNeeded then computeNextTrigger clock s else s

/-- A pass of `Progressed`, up to the call of the action. -/
def pass (s : TimerService) (time now : Int) : Option TimerService :=
  match s.findEarliest time s.scheduledTimers none false with
  | (none, more) => some (if more then s else s.finished clock)
  | (some timer, more) =>
    match (s.timers timer).action with
    | none => none
    | some action =>
      (s.computeNextTriggerTime clock timer now action).map fun next =>
        { next with
          phase := .acting time more (s.trigger timer)
          ran := next.ran ++ [⟨timer, s.trigger timer, action, time⟩]
          runs := update next.runs timer (next.runs timer + 1) }

def jumpAll (clock : Clock) (origin target : Int) : List Nat → TimerService → Option TimerService
  | [], s => some s
  | timer :: rest, s =>
    match (s.timers timer).action with
    | none => none
    | some action =>
      (s.setNextTriggerTime clock timer (s.trigger timer + (target - origin)) action).bind
        (jumpAll clock origin target rest)

def jumped (s : TimerService) (origin target : Int) : Option TimerService :=
  (jumpAll clock origin target s.scheduledTimers { s with holdUpdate := true }).map
    (finished clock)

end TimerService

/-- A call of the program or of the action that runs; `Progressed` is called, makes a pass, or goes
on when an action returns; `Jumped` is called. -/
inductive Step
  | call (call : Call)
  | progressed (time : Int)
  | pass (now : Int)
  | returned
  | jumped (origin target : Int)
  deriving DecidableEq

namespace TimerService

def step (clock : Clock) (s : TimerService) : Step → Option TimerService
  | .call call =>
    match s.phase with
    | .looping _ => none
    | _ => s.perform clock call
  | .progressed time =>
    match s.phase with
    | .idle => some { s with holdUpdate := true, phase := .looping time, ran := [] }
    | _ => none
  | .pass now =>
    match s.phase with
    | .looping time => s.pass clock time now
    | _ => none
  | .returned =>
    match s.phase with
    | .acting time more _ =>
      some (if more then { s with phase := .looping time } else s.finished clock)
    | _ => none
  | .jumped origin target =>
    match s.phase with
    | .idle => s.jumped clock origin target
    | _ => none

end TimerService

end Timer.Actions
