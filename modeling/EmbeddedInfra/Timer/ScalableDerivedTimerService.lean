import EmbeddedInfra.Timer.DerivedTimerService

/-! A `ScalableDerivedTimerService`: a clock that runs a whole number of times as fast as
its base clock, counted from the point where that factor was set. -/

namespace Timer

structure ScalableDerivedTimerService where
  resolution : Nat
  baseNow : Int
  service : TimerService := {}
  timer : Option Int := none
  nextTrigger : Option Int := none
  shift : Int := 0
  factor : Nat := 1
  startPointForFactor : Int := 0
  fired : List Fired := []
  positive : 0 < factor := by decide

namespace ScalableDerivedTimerService

variable (clock : ScalableDerivedTimerService)

def ScaleTime (time : Int) : Int :=
  clock.startPointForFactor + (time - clock.startPointForFactor + clock.shift) * clock.factor

def UnscaleTime (time : Int) : Int :=
  (time - clock.startPointForFactor).tdiv clock.factor - clock.shift + clock.startPointForFactor

def Now : Int := clock.ScaleTime clock.baseNow

def Resolution : Int := clock.resolution * clock.factor

def NextTriggerChanged : ScalableDerivedTimerService :=
  match clock.service.nextTrigger with
  | some trigger =>
    { clock with nextTrigger := some (clock.UnscaleTime trigger)
                 timer := some (clock.UnscaleTime trigger + clock.resolution) }
  | none => { clock with nextTrigger := none, timer := none }

def after (result : TimerService × Bool) : ScalableDerivedTimerService :=
  if result.2 then NextTriggerChanged { clock with service := result.1 }
  else { clock with service := result.1 }

/-- The base clock runs the action of the timer: `Progressed(ScaleTime(nextTrigger))`. -/
def fire (baseTrigger : Int) : ScalableDerivedTimerService :=
  match clock.nextTrigger with
  | none => { clock with timer := none }
  | some nextTrigger =>
    let (result, ran) := clock.service.progressed clock.Now (clock.ScaleTime nextTrigger)
    let fired := clock.fired ++ ran.map fun timer =>
      ⟨timer.action, timer.nextTriggerTime, clock.Now, baseTrigger, clock.baseNow⟩
    after { clock with timer := none, fired } result

def baseProgressed : ScalableDerivedTimerService :=
  match clock.timer with
  | some trigger => if trigger ≤ clock.baseNow then clock.fire trigger else clock
  | none => clock

def Progress (amount : Nat) : ScalableDerivedTimerService :=
  baseProgressed { clock with baseNow := clock.baseNow + amount }

def Shift (shift : Int) : ScalableDerivedTimerService :=
  NextTriggerChanged { clock with shift }

def Scale (factor : Nat) (positive : 0 < factor) : ScalableDerivedTimerService :=
  let startPointForFactor := clock.Now
  let scaled := { clock with startPointForFactor, factor, positive }
  NextTriggerChanged { scaled with shift := scaled.shift + (startPointForFactor - scaled.Now) }

def constructed (resolution : Nat) (baseNow : Int) : ScalableDerivedTimerService :=
  { resolution, baseNow, positive := Nat.one_pos }

inductive Action
  | start (timing : Timing) (action : Nat)
  | restart (index : Nat) (timing : Timing)
  | cancel (index : Nat)
  | progress (amount : Nat)
  | shift (shift : Int)
  | scale (factor : Nat) (positive : 0 < factor)

def step (clock : ScalableDerivedTimerService) : Action → Option ScalableDerivedTimerService
  | .start timing action =>
    some (clock.after (clock.service.registerTimer (timing.timer clock.Now clock.Resolution action)))
  | .restart index timing =>
    match clock.service.scheduledTimers[index]? with
    | some timer =>
      if timing.isFor timer.kind then
        some (clock.after (clock.service.updateTriggerTime index timer
          (timing.timer clock.Now clock.Resolution timer.action)))
      else none
    | none => none
  | .cancel index =>
    match clock.service.scheduledTimers[index]? with
    | some timer => some (clock.after (clock.service.unregisterTimer index timer))
    | none => none
  | .progress amount => some (clock.Progress amount)
  | .shift shift => some (clock.Shift shift)
  | .scale factor positive => some (clock.Scale factor positive)

/-- While a timer is armed, one is armed on the base clock for the earliest trigger;
while that is not due no trigger lies a resolution back; and no action ran early. -/
structure TimersKept : Prop where
  armed : clock.service.scheduledTimers ≠ [] →
    ∃ trigger, clock.service.nextTrigger = some trigger ∧
      earliest clock.service.scheduledTimers = some trigger ∧
      clock.timer = some (clock.UnscaleTime trigger + clock.resolution)
  pending : (∀ trigger ∈ clock.timer, clock.baseNow < trigger) →
    ∀ timer ∈ clock.service.scheduledTimers, clock.Now < timer.nextTriggerTime + clock.Resolution
  fired : ∀ fired ∈ clock.fired, fired.trigger ≤ fired.now

/-- One of the factors is one, or the base clock and the shift have come to the point
that the factor counts from. -/
def FactorChanges (factor : Nat) : Prop :=
  clock.factor = 1 ∨ factor = 1 ∨ clock.baseNow + clock.shift = clock.startPointForFactor

/-- If the timer on the base clock is due, the earliest trigger lies a whole number of
factors after the point that they count from, or not after it. -/
def TriggerDivides (amount : Nat) : Prop :=
  (∃ trigger ∈ clock.timer, trigger ≤ clock.baseNow + amount) →
    ∀ trigger ∈ clock.service.nextTrigger, trigger ≤ clock.startPointForFactor ∨
      (clock.factor : Int) ∣ trigger - clock.startPointForFactor

def KeepsTimers : Action → Prop
  | .progress amount => clock.TriggerDivides amount
  | .scale factor _ => clock.FactorChanges factor
  | _ => True

/-- The timer on the base clock is the one for `nextTrigger`. -/
structure InStep : Prop where
  consistent : clock.service.Consistent
  timer : clock.timer =
    clock.service.nextTrigger.map fun trigger => clock.UnscaleTime trigger + clock.resolution
  nextTrigger : clock.nextTrigger = clock.service.nextTrigger.map clock.UnscaleTime
  fired : ∀ fired ∈ clock.fired, fired.trigger ≤ fired.now

/-! Scaling forth and back. -/

variable {clock}

theorem scale_unscale (clock : ScalableDerivedTimerService) (time : Int) :
    clock.ScaleTime (clock.UnscaleTime time) = clock.startPointForFactor +
      (time - clock.startPointForFactor).tdiv clock.factor * clock.factor := by
  simp only [ScaleTime, UnscaleTime]
  congr 2
  ring

theorem scale_unscale_lt (clock : ScalableDerivedTimerService) (time : Int) :
    clock.ScaleTime (clock.UnscaleTime time) < time + clock.factor := by
  have positive : (0 : Int) < clock.factor := Int.natCast_pos.mpr clock.positive
  have rounded := Int.mul_tdiv_add_tmod (time - clock.startPointForFactor) clock.factor
  have low := Int.lt_tmod_of_pos (time - clock.startPointForFactor) positive
  rw [scale_unscale, mul_comm]
  omega

/-- Scaling back and forth does not lose a trigger that is a whole number of factors
away. -/
theorem le_scale_unscale_iff (clock : ScalableDerivedTimerService) (time : Int) :
    time ≤ clock.ScaleTime (clock.UnscaleTime time) ↔ time ≤ clock.startPointForFactor ∨
      (clock.factor : Int) ∣ time - clock.startPointForFactor := by
  have rounded := Int.mul_tdiv_add_tmod (time - clock.startPointForFactor) clock.factor
  have lost : time ≤ clock.ScaleTime (clock.UnscaleTime time) ↔
      (time - clock.startPointForFactor).tmod clock.factor ≤ 0 := by
    rw [scale_unscale, mul_comm]
    constructor <;> intro <;> omega
  rw [lost, Int.dvd_iff_tmod_eq_zero]
  rcases le_or_gt time clock.startPointForFactor with before | after
  · have mirrored := Int.tmod_nonneg (a := clock.startPointForFactor - time) clock.factor (by omega)
    have negated := Int.neg_tmod (clock.startPointForFactor - time) clock.factor
    rw [neg_sub] at negated
    constructor <;> intro <;> omega
  · have nonnegative :=
      Int.tmod_nonneg (a := time - clock.startPointForFactor) clock.factor (by omega)
    constructor <;> intro <;> omega

theorem scaleTime_mono (clock : ScalableDerivedTimerService) {early late : Int} (order : early ≤ late) :
    clock.ScaleTime early ≤ clock.ScaleTime late := by
  have nonnegative : (0 : Int) ≤ clock.factor := Int.natCast_nonneg _
  have scaled : (early - clock.startPointForFactor + clock.shift) * clock.factor ≤
      (late - clock.startPointForFactor + clock.shift) * clock.factor :=
    Int.mul_le_mul_of_nonneg_right (by omega) nonnegative
  simp only [ScaleTime]
  omega

theorem NextTriggerChanged_spec (clock : ScalableDerivedTimerService) :
    clock.NextTriggerChanged.timer = (clock.service.nextTrigger.map fun trigger =>
        clock.UnscaleTime trigger + clock.resolution) ∧
      clock.NextTriggerChanged.nextTrigger = clock.service.nextTrigger.map clock.UnscaleTime ∧
      clock.NextTriggerChanged.service = clock.service ∧
      clock.NextTriggerChanged.ScaleTime = clock.ScaleTime ∧
      clock.NextTriggerChanged.UnscaleTime = clock.UnscaleTime ∧
      clock.NextTriggerChanged.baseNow = clock.baseNow ∧
      clock.NextTriggerChanged.resolution = clock.resolution ∧
      clock.NextTriggerChanged.fired = clock.fired := by
  simp only [NextTriggerChanged]
  cases clock.service.nextTrigger <;> exact ⟨rfl, rfl, rfl, rfl, rfl, rfl, rfl, rfl⟩

theorem NextTriggerChanged_now (clock : ScalableDerivedTimerService) :
    clock.NextTriggerChanged.Now = clock.Now := by
  obtain ⟨-, -, -, scale, -, baseNow, -, -⟩ := NextTriggerChanged_spec clock
  rw [Now, Now, scale, baseNow]

/-- `Scale` keeps the time of the clock exactly when the factor changes in one of these
ways. -/
theorem scale_keeps_now_iff (clock : ScalableDerivedTimerService) (factor : Nat)
    (positive : 0 < factor) :
    (clock.Scale factor positive).Now = clock.Now ↔ clock.FactorChanges factor := by
  have scaled : (clock.Scale factor positive).Now =
      clock.Now + (clock.baseNow - clock.Now + (clock.shift + (clock.Now -
        (clock.Now + (clock.baseNow - clock.Now + clock.shift) * factor)))) * factor :=
    NextTriggerChanged_now _
  have jump : (clock.Scale factor positive).Now - clock.Now =
      (clock.baseNow + clock.shift - clock.startPointForFactor) * (1 - clock.factor) *
        (1 - factor) * factor := by
    rw [scaled]
    simp only [Now, ScaleTime]
    ring
  have nonzero : (factor : Int) ≠ 0 := Int.natCast_ne_zero.mpr positive.ne'
  rw [← sub_eq_zero, jump, mul_eq_zero, or_iff_left nonzero, mul_eq_zero, mul_eq_zero, FactorChanges]
  constructor
  · rintro ((start | factorOne) | newOne)
    · exact .inr (.inr (by omega))
    · exact .inl (by omega)
    · exact .inr (.inl (by omega))
  · rintro (factorOne | newOne | start)
    · exact .inl (.inr (by omega))
    · exact .inr (by omega)
    · exact .inl (.inl (by omega))

/-! The invariant, step by step. -/

theorem inStep_changed (clock : ScalableDerivedTimerService) (consistent : clock.service.Consistent)
    (fired : ∀ fired ∈ clock.fired, fired.trigger ≤ fired.now) : clock.NextTriggerChanged.InStep := by
  obtain ⟨timer, nextTrigger, service, -, unscale, -, resolution, log⟩ := NextTriggerChanged_spec clock
  refine ⟨?_, ?_, ?_, ?_⟩
  · rw [service]
    exact consistent
  · rw [service, unscale, resolution, timer]
  · rw [service, unscale, nextTrigger]
  · rw [log]
    exact fired

variable {result : TimerService × Bool} {amount : Nat}

theorem inStep_after (clock : ScalableDerivedTimerService) (consistent : result.1.Consistent)
    (silent : result.2 = false →
      clock.timer = (result.1.nextTrigger.map fun trigger => clock.UnscaleTime
      trigger + clock.resolution) ∧ clock.nextTrigger = result.1.nextTrigger.map clock.UnscaleTime)
    (fired : ∀ fired ∈ clock.fired, fired.trigger ≤ fired.now) : (clock.after result).InStep := by
  obtain ⟨service, _ | _⟩ := result
  · exact ⟨consistent, (silent rfl).1, (silent rfl).2, fired⟩
  · exact inStep_changed { clock with service } consistent fired

theorem InStep.after (inStep : clock.InStep) (reports : clock.service.Reports result) :
    (clock.after result).InStep := by
  refine inStep_after clock reports.consistent (fun silent => ?_) inStep.fired
  rw [reports.silent silent]
  exact ⟨inStep.timer, inStep.nextTrigger⟩

theorem InStep.due (inStep : clock.InStep) {baseTrigger : Int} (armed : clock.timer = some baseTrigger)
    (due : baseTrigger ≤ clock.baseNow) :
    ∃ trigger, clock.service.nextTrigger = some trigger ∧
      clock.nextTrigger = some (clock.UnscaleTime trigger) ∧
      clock.ScaleTime (clock.UnscaleTime trigger) ≤ clock.Now := by
  obtain ⟨trigger, first, base⟩ := Option.map_eq_some_iff.mp (inStep.timer.symm.trans armed)
  refine ⟨trigger, first, by rw [inStep.nextTrigger, first]; rfl, scaleTime_mono clock (by omega)⟩

theorem InStep.fire (inStep : clock.InStep) {baseTrigger : Int}
    (armed : clock.timer = some baseTrigger) (due : baseTrigger ≤ clock.baseNow)
    (divides : ∀ trigger ∈ clock.service.nextTrigger, trigger ≤ clock.startPointForFactor ∨
      (clock.factor : Int) ∣ trigger - clock.startPointForFactor) :
    (clock.fire baseTrigger).InStep := by
  obtain ⟨trigger, first, member, past⟩ := inStep.due armed due
  have reached := (le_scale_unscale_iff clock trigger).mpr (divides trigger first)
  have changes := TimerService.progressed_changes inStep.consistent first reached past
  simp only [ScalableDerivedTimerService.fire, member]
  refine inStep_after _ (TimerService.reports_progressed inStep.consistent past).consistent ?_ ?_
  · rw [changes]
    intro silent
    cases silent
  · intro fired logged
    rcases List.mem_append.mp logged with logged | logged
    · exact inStep.fired fired logged
    · obtain ⟨timer, ran, rfl⟩ := List.mem_map.mp logged
      exact (TimerService.progressed_ran past timer ran).2.trans past

theorem InStep.progress (inStep : clock.InStep) (divides : clock.TriggerDivides amount) :
    (clock.Progress amount).InStep := by
  have moved : InStep { clock with baseNow := clock.baseNow + amount } :=
    ⟨inStep.consistent, inStep.timer, inStep.nextTrigger, inStep.fired⟩
  simp only [Progress, baseProgressed]
  split
  next trigger armed =>
    split
    next due => exact moved.fire armed due (divides ⟨trigger, armed, due⟩)
    · exact moved
  · exact moved

theorem InStep.step {next : ScalableDerivedTimerService} {action : Action} (inStep : clock.InStep)
    (keeps : clock.KeepsTimers action) (stepped : clock.step action = some next) : next.InStep := by
  cases action with
  | start timing action =>
    obtain rfl := Option.some.inj stepped
    exact inStep.after (TimerService.reports_register inStep.consistent _)
  | restart index timing =>
    simp only [ScalableDerivedTimerService.step] at stepped
    split at stepped
    next timer position =>
      split at stepped
      · obtain rfl := Option.some.inj stepped
        exact inStep.after (TimerService.reports_update inStep.consistent position _)
      · cases stepped
    · cases stepped
  | cancel index =>
    simp only [ScalableDerivedTimerService.step] at stepped
    split at stepped
    next timer position =>
      obtain rfl := Option.some.inj stepped
      exact inStep.after (TimerService.reports_unregister inStep.consistent position)
    · cases stepped
  | progress amount =>
    obtain rfl := Option.some.inj stepped
    exact inStep.progress keeps
  | shift shift | scale factor positive =>
    obtain rfl := Option.some.inj stepped
    exact inStep_changed _ inStep.consistent inStep.fired

theorem InStep.timersKept (inStep : clock.InStep) : clock.TimersKept where
  armed armed := by
    obtain ⟨trigger, first⟩ := Option.ne_none_iff_exists'.mp (mt earliest_eq_none.mp armed)
    have next := inStep.consistent.trans first
    refine ⟨trigger, next, first, ?_⟩
    rw [inStep.timer, next]
    rfl
  pending waits timer member := by
    cases first : clock.service.nextTrigger with
    | none => simp [earliest_eq_none.mp (inStep.consistent.symm.trans first)] at member
    | some trigger =>
      have least := (earliest_eq_some.mp (inStep.consistent.symm.trans first)).2 timer member
      have waiting := waits (clock.UnscaleTime trigger + clock.resolution)
        (by simp [inStep.timer, first])
      -- one tick of the base clock before the timer is due
      have early : clock.Now ≤ clock.ScaleTime (clock.UnscaleTime trigger + clock.resolution - 1) :=
        scaleTime_mono clock (by omega)
      have close := scale_unscale_lt clock trigger
      have split : clock.ScaleTime (clock.UnscaleTime trigger + clock.resolution - 1) =
          clock.ScaleTime (clock.UnscaleTime trigger) + clock.Resolution - clock.factor := by
        simp only [ScaleTime, Resolution]
        ring
      omega
  fired := inStep.fired

theorem fire_idle (clock : ScalableDerivedTimerService) {nextTrigger : Int}
    (member : clock.nextTrigger = some nextTrigger)
    (idle : clock.service.progressed clock.Now (clock.ScaleTime nextTrigger) =
      ((clock.service, false), [])) (baseTrigger : Int) :
    clock.fire baseTrigger = { clock with timer := none, fired := clock.fired ++ [] } := by
  simp only [fire, member, idle]
  rfl

theorem divides_of_timersKept (inStep : clock.InStep) (kept : (clock.Progress amount).TimersKept) :
    clock.TriggerDivides amount := by
  rintro ⟨baseTrigger, armed, due⟩ trigger first
  by_contra rounded
  have late : clock.ScaleTime (clock.UnscaleTime trigger) < trigger :=
    not_le.mp (mt (le_scale_unscale_iff clock trigger).mp rounded)
  have member : clock.nextTrigger = some (clock.UnscaleTime trigger) := by
    rw [inStep.nextTrigger, first]
    rfl
  obtain ⟨⟨timer, scheduled, -⟩, least⟩ := earliest_eq_some.mp (inStep.consistent.symm.trans first)
  let moved := { clock with baseNow := clock.baseNow + amount }
  have idle : moved.service.progressed moved.Now (moved.ScaleTime (clock.UnscaleTime trigger)) =
      ((moved.service, false), []) :=
    TimerService.progressed_idle fun timer inside => late.trans_le (least timer inside)
  have stopped : clock.Progress amount = { moved with timer := none, fired := clock.fired ++ [] } := by
    calc
      clock.Progress amount = moved.fire baseTrigger := by
        simp [Progress, baseProgressed, Option.mem_def.mp armed, due, moved]
      _ = { moved with timer := none, fired := clock.fired ++ [] } := fire_idle moved member idle baseTrigger
  rw [stopped] at kept
  obtain ⟨_, -, -, running⟩ := kept.armed (List.ne_nil_of_mem scheduled)
  cases running

instance (clock : ScalableDerivedTimerService) (factor : Nat) :
    Decidable (clock.FactorChanges factor) :=
  inferInstanceAs (Decidable (_ ∨ _ ∨ _))

instance (clock : ScalableDerivedTimerService) (amount : Nat) :
    Decidable (clock.TriggerDivides amount) :=
  inferInstanceAs (Decidable ((∃ trigger, trigger ∈ clock.timer ∧ _) → ∀ trigger, trigger ∈ _ → _))

instance (clock : ScalableDerivedTimerService) : DecidablePred clock.KeepsTimers
  | .progress amount => inferInstanceAs (Decidable (clock.TriggerDivides amount))
  | .scale factor _ => inferInstanceAs (Decidable (clock.FactorChanges factor))
  | .start _ _ | .restart _ _ | .cancel _ | .shift _ => .isTrue trivial

end ScalableDerivedTimerService

end Timer
