import EmbeddedInfra.Timer.TimerService

/-! `TickOnInterruptTimerService`: the interrupt is one step, and the main code takes a step for
each of its accesses of the atomics. -/

namespace Timer

/-- Where the main code is in `ProcessTicks`. -/
inductive Position
  | outside
  | exchanged
  /-- The action of a timer runs. -/
  | inAction (more : Bool)
  | progressed
  | calculated
  /-- `ticksProgressed` was compared with `ticksNextNotification`. -/
  | loaded (reschedule : Bool)
  | rescheduling
  deriving DecidableEq

/-- The service with the `ProcessTicks` that are scheduled. `ticks` counts all interrupts, `starts`
names the timers, `fresh` are the timers started after the last interrupt; `due`, `ran` and
`stopped` are the timers that `ProcessTicks` has to run, has run, and that were cancelled or started
again meanwhile. -/
structure TickOnInterrupt where
  service : TimerService := {}
  holdUpdate : Bool := false
  updateNeeded : Bool := false
  systemTime : Int := 0
  resolution : Int
  ticksNextNotification : Nat
  ticksProgressed : Nat := 0
  notificationScheduled : Bool := false
  position : Position := .outside
  pending : Nat := 0
  ticks : Nat := 0
  starts : Nat := 0
  fresh : List Nat := []
  due : List Nat := []
  ran : List Nat := []
  stopped : List Nat := []
  deriving DecidableEq

/-- `std::numeric_limits<uint32_t>::max() / 2` -/
def mostTicks : Nat := (2 ^ 32 - 1) / 2

namespace TickOnInterrupt

variable (s : TickOnInterrupt)

def now : Int := s.systemTime + s.ticksProgressed * s.resolution

/-- The ticks until a duration has passed, cast to `uint32_t` before they are bounded. -/
def ticksFor (resolution duration : Int) : Nat :=
  min (((duration + resolution - 1) / resolution).toNat % 2 ^ 32) mostTicks

def calculateNextTrigger : TickOnInterrupt :=
  { s with
    ticksNextNotification :=
      match s.service.nextTrigger with
      | some nextTrigger =>
        ticksFor s.resolution (if s.systemTime < nextTrigger then nextTrigger - s.systemTime else 0)
      | none => mostTicks }

/-- The service reports whether `NextTriggerChanged` was called. -/
def changed (result : TimerService × Bool) : TickOnInterrupt :=
  let s := { s with service := result.1 }
  if result.2 then s.calculateNextTrigger else s

def computeNextTrigger (s : TickOnInterrupt) : TickOnInterrupt :=
  if s.holdUpdate then { s with updateNeeded := true }
  else { s with updateNeeded := false }.changed s.service.computeNextTrigger

def registerTimer (s : TickOnInterrupt) (timer : ArmedTimer) : TickOnInterrupt :=
  s.changed (s.service.registerTimer timer)

def unregisterTimer (index : Nat) (timer : ArmedTimer) : TickOnInterrupt :=
  let left := { s with
    service := { s.service with scheduledTimers := s.service.scheduledTimers.eraseIdx index } }
  if some timer.nextTriggerTime = s.service.nextTrigger then left.computeNextTrigger else left

def updateTriggerTime (index : Nat) (timer updated : ArmedTimer) : TickOnInterrupt :=
  let next := { s with
    service := { s.service with scheduledTimers := s.service.scheduledTimers.set index updated } }
  if s.service.mustUpdate timer.nextTriggerTime updated.nextTriggerTime then next.computeNextTrigger
  else next

/-- The timer that `Start` arms for a time; the forms with a duration add it to what `Now()` was
before. -/
def started (kind : Kind) (time : Int) : ArmedTimer :=
  { kind, action := s.starts, nextTriggerTime := time + s.resolution }

def systemTickInterrupt : TickOnInterrupt :=
  let s := { s with
    ticksProgressed := (s.ticksProgressed + 1) % 2 ^ 32
    ticks := s.ticks + 1
    fresh := [] }
  if s.ticksNextNotification ≤ s.ticksProgressed ∧ !s.notificationScheduled then
    { s with notificationScheduled := true, pending := s.pending + 1 }
  else s

/-- The loop of `Progressed` has ended. -/
def endLoop : TickOnInterrupt :=
  let s := { s with holdUpdate := false, position := .progressed }
  if s.updateNeeded then s.computeNextTrigger else s

/-- A round of the loop, up to the action that it runs. -/
def round : TickOnInterrupt :=
  match scan s.systemTime s.service.scheduledTimers 0 none false with
  | (none, _) => s.endLoop
  | (some (index, timer), more) =>
    let s := { s with position := .inAction more, ran := timer.action :: s.ran }
    match timer.computeNextTriggerTime s.now with
    | none => s.unregisterTimer index timer
    | some next => s.updateTriggerTime index timer next

/-- The main code goes on with `ProcessTicks`. -/
def processTicks : TickOnInterrupt :=
  match s.position with
  | .outside =>
    { s with
      position := .exchanged
      pending := s.pending - 1
      systemTime := s.systemTime + s.ticksProgressed * s.resolution
      ticksProgressed := 0
      holdUpdate := true
      due := (s.service.scheduledTimers.filter (Due s.now)).map ArmedTimer.action
      ran := []
      stopped := [] }
  | .exchanged => s.round
  | .inAction more => if more then s.round else s.endLoop
  | .progressed => { s.calculateNextTrigger with position := .calculated }
  | .calculated => { s with position := .loaded (s.ticksNextNotification ≤ s.ticksProgressed) }
  | .loaded reschedule =>
    { s with
      notificationScheduled := reschedule
      position := if reschedule then .rescheduling else .outside }
  | .rescheduling => { s with position := .outside, pending := s.pending + 1 }

inductive Event
  | tick
  | mainGoesOn
  | start (kind : Kind) (time : Int)
  | restart (index : Nat) (kind : Kind) (time : Int)
  | cancel (index : Nat)
  deriving DecidableEq

/-- The application runs outside `ProcessTicks`, and in the actions. -/
def applicationRuns : Bool :=
  match s.position with
  | .outside => true
  | .inAction _ => true
  | _ => false

def step : Event → Option TickOnInterrupt
  | .tick => some s.systemTickInterrupt
  | .mainGoesOn => if s.position = .outside ∧ s.pending = 0 then none else some s.processTicks
  | .start kind time =>
    if s.applicationRuns then
      some ({ s with starts := s.starts + 1, fresh := s.starts :: s.fresh }.registerTimer
        (s.started kind time))
    else none
  | .restart index kind time =>
    match s.service.scheduledTimers[index]? with
    | none => none
    | some timer =>
      if s.applicationRuns then
        some ({ s with
          starts := s.starts + 1
          fresh := s.starts :: s.fresh
          stopped := timer.action :: s.stopped }.updateTriggerTime index timer
            (s.started kind time))
      else none
  | .cancel index =>
    match s.service.scheduledTimers[index]? with
    | none => none
    | some timer =>
      if s.applicationRuns then
        some ({ s with stopped := timer.action :: s.stopped }.unregisterTimer index timer)
      else none

def initial (resolution : Int) : TickOnInterrupt :=
  { resolution, ticksNextNotification := mostTicks }

end TickOnInterrupt

end Timer
