import EmbeddedInfra.Runs
import EmbeddedInfra.Timer.TimerService

/-! A `DerivedTimerService`: a clock that runs a fixed shift away from its base clock and
keeps one timer there for its own earliest trigger. -/

namespace Timer

open TimerService

/-- The call that starts a timer. -/
inductive Timing
  | singleShotAt (time : Int)
  | singleShotAfter (duration : Int)
  | repeating (duration : Int) (positive : 0 < duration)
  | alarm (durationFromMidnight : Int) (nonnegative : 0 ≤ durationFromMidnight)

/-- The timer that `Start` arms on a clock. -/
def Timing.timer (now resolution : Int) (action : Nat) : Timing → ArmedTimer
  | singleShotAt time => ⟨.singleShot, action, time + resolution⟩
  | singleShotAfter duration => ⟨.singleShot, action, now + duration + resolution⟩
  | repeating duration positive => ⟨.repeating duration positive, action, now + duration + resolution⟩
  | alarm durationFromMidnight nonnegative =>
    ⟨.alarm durationFromMidnight nonnegative, action, ArmedTimer.alarmTrigger now durationFromMidnight⟩

def Timing.isFor : Timing → Kind → Bool
  | singleShotAt _, .singleShot | singleShotAfter _, .singleShot => true
  | repeating _ _, .repeating _ _ => true
  | alarm _ _, .alarm _ _ => true
  | _, _ => false

/-- An action that ran: the trigger of its timer, the time of the clock, and the trigger
and the time of the timer on the base clock. -/
structure Fired where
  action : Nat
  trigger : Int
  now : Int
  baseTrigger : Int
  baseNow : Int
  deriving DecidableEq

/-- `baseNow` and `resolution` are those of the base clock, `timer` is the trigger of the
timer there and `service` the `TimerService` part. -/
structure DerivedTimerService where
  resolution : Nat
  baseNow : Int
  service : TimerService := {}
  timer : Option Int := none
  nextTrigger : Option Int := none
  shift : Int := 0
  fired : List Fired := []
  deriving DecidableEq

namespace DerivedTimerService

variable (clock : DerivedTimerService)

def Now : Int := clock.baseNow + clock.shift

/-- `timer.Start` on the base clock adds the resolution. -/
def NextTriggerChanged : DerivedTimerService :=
  match clock.service.nextTrigger with
  | some trigger =>
    { clock with nextTrigger := some (trigger - clock.shift)
                 timer := some (trigger - clock.shift + clock.resolution) }
  | none => { clock with nextTrigger := none, timer := none }

/-- The clock after an operation of the `TimerService` part. -/
def after (result : TimerService × Bool) : DerivedTimerService :=
  if result.2 then NextTriggerChanged { clock with service := result.1 }
  else { clock with service := result.1 }

/-- The base clock runs the action of the timer: `Progressed(nextTrigger + shift)`. -/
def fire (baseTrigger : Int) : DerivedTimerService :=
  match clock.nextTrigger with
  | none => { clock with timer := none }
  | some nextTrigger =>
    let (result, ran) := clock.service.progressed clock.Now (nextTrigger + clock.shift)
    let fired := clock.fired ++ ran.map fun timer =>
      ⟨timer.action, timer.nextTriggerTime, clock.Now, baseTrigger, clock.baseNow⟩
    after { clock with timer := none, fired } result

/-- The base clock has moved on and runs the timer if it is due. -/
def baseProgressed : DerivedTimerService :=
  match clock.timer with
  | some trigger => if trigger ≤ clock.baseNow then clock.fire trigger else clock
  | none => clock

def Shift (shift : Int) : DerivedTimerService :=
  let oldTime := clock.Now
  let shifted := { clock with shift }
  shifted.after (shifted.service.jumped oldTime shifted.Now)

def constructed (resolution : Nat) (baseNow : Int) : DerivedTimerService :=
  { resolution, baseNow }

inductive Action
  | start (timing : Timing) (action : Nat)
  | restart (index : Nat) (timing : Timing)
  | cancel (index : Nat)
  | progress (amount : Nat)
  | shift (shift : Int)

def step (clock : DerivedTimerService) : Action → Option DerivedTimerService
  | .start timing action =>
    some (clock.after (clock.service.registerTimer (timing.timer clock.Now clock.resolution action)))
  | .restart index timing =>
    match clock.service.scheduledTimers[index]? with
    | some timer =>
      if timing.isFor timer.kind then
        some (clock.after (clock.service.updateTriggerTime index timer
          (timing.timer clock.Now clock.resolution timer.action)))
      else none
    | none => none
  | .cancel index =>
    match clock.service.scheduledTimers[index]? with
    | some timer => some (clock.after (clock.service.unregisterTimer index timer))
    | none => none
  | .progress amount => some (baseProgressed { clock with baseNow := clock.baseNow + amount })
  | .shift shift => some (clock.Shift shift)

/-- While a timer is armed the timer on the base clock is armed for the earliest trigger,
less the shift; while that is not due no trigger lies a resolution back; and every action
ran at its trigger and the resolution, or as much later as the base clock was late. -/
structure AlarmsKept : Prop where
  armed : clock.service.scheduledTimers ≠ [] →
    ∃ trigger, clock.service.nextTrigger = some trigger ∧
      earliest clock.service.scheduledTimers = some trigger ∧
      clock.timer = some (trigger - clock.shift + clock.resolution)
  pending : (∀ trigger ∈ clock.timer, clock.baseNow < trigger) →
    ∀ timer ∈ clock.service.scheduledTimers, clock.Now < timer.nextTriggerTime + clock.resolution
  fired : ∀ fired ∈ clock.fired,
    fired.now = fired.trigger + clock.resolution + (fired.baseNow - fired.baseTrigger) ∧
      fired.baseTrigger ≤ fired.baseNow

/-- The shift stays the same, or the earliest trigger does not stay where it is. -/
def ShiftMoves (shift : Int) : Prop :=
  clock.service.scheduledTimers = [] ∨ shift = clock.shift ∨
    earliest (clock.service.scheduledTimers.map
      (ArmedTimer.jumped · clock.Now (clock.baseNow + shift))) ≠ clock.service.nextTrigger

/-- Every call of `Shift` moves the earliest trigger. -/
def ShiftsMove : Action → Prop
  | .shift shift => clock.ShiftMoves shift
  | _ => True

/-- The timer on the base clock is the one for `nextTrigger`. -/
structure InStep : Prop where
  consistent : clock.service.Consistent
  timer : clock.timer = clock.service.nextTrigger.map fun trigger =>
    trigger - clock.shift + clock.resolution
  nextTrigger : clock.nextTrigger = clock.service.nextTrigger.map (· - clock.shift)
  fired : ∀ fired ∈ clock.fired,
    fired.now = fired.trigger + clock.resolution + (fired.baseNow - fired.baseTrigger) ∧
      fired.baseTrigger ≤ fired.baseNow

variable {clock}

theorem NextTriggerChanged_spec (clock : DerivedTimerService) :
    clock.NextTriggerChanged.timer = (clock.service.nextTrigger.map fun trigger =>
        trigger - clock.shift + clock.resolution) ∧
      clock.NextTriggerChanged.nextTrigger = clock.service.nextTrigger.map (· - clock.shift) ∧
      clock.NextTriggerChanged.service = clock.service ∧
      clock.NextTriggerChanged.shift = clock.shift ∧
      clock.NextTriggerChanged.resolution = clock.resolution ∧
      clock.NextTriggerChanged.fired = clock.fired := by
  simp only [NextTriggerChanged]
  cases clock.service.nextTrigger <;> simp

theorem Shift_eq (clock : DerivedTimerService) (shift : Int) :
    clock.Shift shift =
      after { clock with shift } (clock.service.jumped clock.Now (clock.baseNow + shift)) := rfl

theorem jumped_timers (service : TimerService) (origin target : Int) :
    (service.jumped origin target).1.scheduledTimers =
      service.scheduledTimers.map (ArmedTimer.jumped · origin target) := by
  simp only [jumped]
  split <;> rfl

/-- After an operation the two timers go together, if they do without a call of
`NextTriggerChanged`. -/
theorem inStep_after (clock : DerivedTimerService) {result : TimerService × Bool}
    (consistent : result.1.Consistent)
    (silent : result.2 = false →
      clock.timer = (result.1.nextTrigger.map fun trigger => trigger -
      clock.shift + clock.resolution) ∧
      clock.nextTrigger = result.1.nextTrigger.map (· - clock.shift))
    (fired : ∀ fired ∈ clock.fired, fired.now =
      fired.trigger + clock.resolution + (fired.baseNow - fired.baseTrigger) ∧
      fired.baseTrigger ≤ fired.baseNow) : (clock.after result).InStep := by
  obtain ⟨service, _ | _⟩ := result
  · exact ⟨consistent, (silent rfl).1, (silent rfl).2, fired⟩
  · obtain ⟨timer, nextTrigger, same, shift, resolution, log⟩ :=
      NextTriggerChanged_spec { clock with service }
    simp only [DerivedTimerService.after, if_pos]
    refine ⟨?_, ?_, ?_, ?_⟩
    · rw [same]
      exact consistent
    · rw [same, shift, resolution, timer]
    · rw [same, shift, nextTrigger]
    · rw [log, resolution]
      exact fired

theorem InStep.after (inStep : clock.InStep) {result : TimerService × Bool}
    (reports : clock.service.Reports result) : (clock.after result).InStep := by
  refine inStep_after clock reports.consistent (fun silent => ?_) inStep.fired
  rw [reports.silent silent]
  exact ⟨inStep.timer, inStep.nextTrigger⟩

theorem InStep.fire (inStep : clock.InStep) {baseTrigger : Int} (armed : clock.timer = some baseTrigger)
    (due : baseTrigger ≤ clock.baseNow) : (clock.fire baseTrigger).InStep := by
  obtain ⟨trigger, first, base⟩ := Option.map_eq_some_iff.mp (inStep.timer.symm.trans armed)
  have member : clock.nextTrigger = some (trigger - clock.shift) := by
    rw [inStep.nextTrigger, first]
    rfl
  have past : trigger - clock.shift + clock.shift ≤ clock.Now := by
    simp only [Now]
    omega
  have changes := progressed_changes inStep.consistent first (by omega) past
  simp only [DerivedTimerService.fire, member]
  refine inStep_after _ (reports_progressed inStep.consistent past).consistent ?_ ?_
  · rw [changes]
    intro silent
    cases silent
  · intro fired logged
    rcases List.mem_append.mp logged with logged | logged
    · exact inStep.fired fired logged
    · obtain ⟨timer, ran, rfl⟩ := List.mem_map.mp logged
      obtain ⟨scheduled, early⟩ := progressed_ran past timer ran
      have least := (earliest_eq_some.mp (inStep.consistent.symm.trans first)).2 timer scheduled
      refine ⟨?_, due⟩
      simp only [Now]
      omega

theorem InStep.shift (inStep : clock.InStep) {shift : Int} (moves : clock.ShiftMoves shift) :
    (clock.Shift shift).InStep := by
  have reports := reports_jumped inStep.consistent clock.Now (clock.baseNow + shift)
  rw [Shift_eq]
  refine inStep_after { clock with shift } reports.consistent (fun silent => ?_) inStep.fired
  have same := reports.silent silent
  have unmoved : clock.service.nextTrigger = none ∨ shift = clock.shift := by
    rcases moves with empty | unshifted | moved
    · refine .inl ?_
      rw [inStep.consistent, empty]
      rfl
    · exact .inr unshifted
    · refine absurd ?_ moved
      rw [← jumped_timers, ← reports.consistent, same]
  rw [same]
  rcases unmoved with none | unshifted
  · simp only [inStep.timer, inStep.nextTrigger, none, Option.map_none, and_self]
  · simp only [inStep.timer, inStep.nextTrigger, unshifted, and_self]

theorem InStep.step {next : DerivedTimerService} {action : Action} (inStep : clock.InStep)
    (moves : clock.ShiftsMove action) (stepped : clock.step action = some next) : next.InStep := by
  cases action with
  | start timing action =>
    obtain rfl := Option.some.inj stepped
    exact inStep.after (reports_register inStep.consistent _)
  | restart index timing =>
    simp only [DerivedTimerService.step] at stepped
    split at stepped
    next timer position =>
      split at stepped
      · obtain rfl := Option.some.inj stepped
        exact inStep.after (reports_update inStep.consistent position _)
      · cases stepped
    · cases stepped
  | cancel index =>
    simp only [DerivedTimerService.step] at stepped
    split at stepped
    next timer position =>
      obtain rfl := Option.some.inj stepped
      exact inStep.after (reports_unregister inStep.consistent position)
    · cases stepped
  | progress amount =>
    obtain rfl := Option.some.inj stepped
    have moved : InStep { clock with baseNow := clock.baseNow + amount } :=
      ⟨inStep.consistent, inStep.timer, inStep.nextTrigger, inStep.fired⟩
    simp only [baseProgressed]
    split
    next trigger armed =>
      split
      next due => exact moved.fire armed due
      · exact moved
    · exact moved
  | shift shift =>
    obtain rfl := Option.some.inj stepped
    exact inStep.shift moves

theorem InStep.alarmsKept (inStep : clock.InStep) : clock.AlarmsKept where
  armed armed := by
    obtain ⟨trigger, first⟩ := Option.ne_none_iff_exists'.mp (mt earliest_eq_none.mp armed)
    have next := inStep.consistent.trans first
    refine ⟨trigger, next, first, ?_⟩
    rw [inStep.timer, next]
    rfl
  pending waits timer member := by
    cases first : clock.service.nextTrigger with
    | none => simp [earliest_eq_none.mp (inStep.consistent.symm.trans first)] at member
    | some trigger =>
      have least := (earliest_eq_some.mp (inStep.consistent.symm.trans first)).2 timer member
      have waiting := waits (trigger - clock.shift + clock.resolution) (by simp [inStep.timer, first])
      simp only [Now]
      omega
  fired := inStep.fired

/-- A shift that leaves the earliest trigger where it was leaves the timer on the base
clock where it was too. -/
theorem moves_of_alarmsKept (inStep : clock.InStep) {shift : Int}
    (kept : (clock.Shift shift).AlarmsKept) : clock.ShiftMoves shift := by
  by_contra stays
  simp only [ShiftMoves, not_or, not_not] at stays
  obtain ⟨armed, shifted, unmoved⟩ := stays
  have silent : (clock.service.jumped clock.Now (clock.baseNow + shift)).2 = false := by
    simp only [jumped]
    split
    · simpa [computeNextTrigger] using unmoved
    · rfl
  obtain ⟨trigger, next, -, timer⟩ := kept.armed (by
    rw [Shift_eq, DerivedTimerService.after, silent, if_neg Bool.false_ne_true, jumped_timers]
    simpa using armed)
  have same := (reports_jumped inStep.consistent clock.Now
    (clock.baseNow + shift)).silent silent
  rw [Shift_eq, DerivedTimerService.after, silent, if_neg Bool.false_ne_true] at next timer
  have first : clock.service.nextTrigger = some trigger := same.symm.trans next
  have before : clock.timer = some (trigger - clock.shift + clock.resolution) := by
    rw [inStep.timer, first]
    rfl
  have both : trigger - clock.shift + clock.resolution = trigger - shift + clock.resolution :=
    Option.some.inj (before.symm.trans timer)
  omega

instance (clock : DerivedTimerService) : DecidablePred clock.ShiftsMove
  | .shift shift => inferInstanceAs (Decidable (clock.service.scheduledTimers = [] ∨
      shift = clock.shift ∨ earliest (clock.service.scheduledTimers.map
        (ArmedTimer.jumped · clock.Now (clock.baseNow + shift))) ≠ clock.service.nextTrigger))
  | .start _ _ | .restart _ _ | .cancel _ | .progress _ => .isTrue trivial

/-- Ten seconds after midnight, in nanoseconds. -/
def tenSeconds : Int := 10 * second

end DerivedTimerService

end Timer
