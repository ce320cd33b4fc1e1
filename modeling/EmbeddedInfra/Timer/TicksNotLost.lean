import EmbeddedInfra.Runs
import EmbeddedInfra.Timer.TickOnInterruptTimerService
import Mathlib.Tactic.Linarith

/-! Interrupt ticks are not lost, and the timers that have been reached are woken. -/

namespace Timer.TickOnInterrupt

open Runs List

/-! ### The invariant -/

/-- `ticksNextNotification` belongs to the next trigger. -/
def Calculated (s : TickOnInterrupt) : Prop :=
  s.ticksNextNotification = s.calculateNextTrigger.ticksNextNotification

def UpToDate (s : TickOnInterrupt) : Prop := s.updateNeeded = true ∨ s.service.Consistent

def AllRan (s : TickOnInterrupt) : Prop := ∀ timer ∈ s.due, timer ∈ s.ran ∨ timer ∈ s.stopped

def ToRun (s : TickOnInterrupt) : Prop :=
  ∀ name ∈ s.due, name ∈ s.ran ∨ name ∈ s.stopped ∨
    ∃ timer ∈ s.service.scheduledTimers, timer.action = name ∧ timer.nextTriggerTime ≤ s.systemTime

inductive Phase (s : TickOnInterrupt) : Prop
  | outside (position : s.position = .outside) (free : s.holdUpdate = false)
      (consistent : s.service.Consistent) (calculated : s.Calculated)
      (single : s.pending = if s.notificationScheduled then 1 else 0)
      (woken : s.notificationScheduled = false → ∀ timer ∈ s.service.scheduledTimers,
        timer.action ∉ s.fresh → s.now - s.resolution < timer.nextTriggerTime)
      (ran : s.AllRan)
  | inLoop (position : s.position = .exchanged ∨ s.position = .inAction true)
      (held : s.holdUpdate = true) (upToDate : s.UpToDate) (scheduled : s.notificationScheduled = true)
      (taken : s.pending = 0) (toRun : s.ToRun)
  | lastAction (position : s.position = .inAction false) (held : s.holdUpdate = true)
      (upToDate : s.UpToDate) (scheduled : s.notificationScheduled = true) (taken : s.pending = 0)
      (ran : s.AllRan)
  | behind (position : s.position = .progressed ∨ s.position = .calculated ∧ s.Calculated ∨
        (∃ reschedule, s.position = .loaded reschedule ∧ s.Calculated ∧
          (reschedule = false → 0 < s.ticksNextNotification)) ∨
        s.position = .rescheduling ∧ s.Calculated)
      (free : s.holdUpdate = false) (consistent : s.service.Consistent)
      (scheduled : s.notificationScheduled = true) (taken : s.pending = 0) (ran : s.AllRan)

structure Invariant (s : TickOnInterrupt) : Prop where
  positive : 0 < s.resolution
  counted : s.now = s.ticks * s.resolution
  phase : s.Phase

/-! ### The next trigger -/

variable {resolution : Int} {k : Nat} {other : ArmedTimer} {kind : Kind} {time : Int}

theorem ticksFor_le {duration : Int} (positive : 0 < resolution)
    (before : k < ticksFor resolution duration) : k * resolution < duration := by
  have quotient : k < ((duration + resolution - 1) / resolution).toNat :=
    before.trans_le ((min_le_left _ _).trans (Nat.mod_le _ _))
  have bound : (k : Int) + 1 ≤ (duration + resolution - 1) / resolution := by omega
  have product := (Int.le_ediv_iff_mul_le positive).mp bound
  linarith [add_mul (k : Int) 1 resolution]

variable {s : TickOnInterrupt} {timer : ArmedTimer} {timers : List ArmedTimer} {index : Nat}
  {t : TickOnInterrupt}

theorem early (positive : 0 < s.resolution) (consistent : s.service.Consistent)
    (calculated : s.Calculated) (member : timer ∈ s.service.scheduledTimers)
    (before : k < s.ticksNextNotification) :
    s.systemTime + k * s.resolution < timer.nextTriggerTime := by
  obtain ⟨next, first⟩ : ∃ next, earliest s.service.scheduledTimers = some next :=
    Option.ne_none_iff_exists'.mp fun none => by
      rw [earliest_eq_none.mp none] at member
      cases member
  have least := (earliest_eq_some.mp first).2 timer member
  rw [calculated, calculateNextTrigger, consistent, first] at before
  have reached := ticksFor_le positive before
  split at reached
  · linarith
  · have nonnegative : 0 ≤ (k : Int) * s.resolution := by positivity
    linarith

/-- What an operation on the timers does to the service: the timers that it leaves are a list. -/
structure Serves (s t : TickOnInterrupt) (timers : List ArmedTimer) : Prop where
  frame : t = { s with
    service := t.service
    updateNeeded := t.updateNeeded
    ticksNextNotification := t.ticksNextNotification }
  timers : t.service.scheduledTimers = timers
  free : s.holdUpdate = false → s.service.Consistent → s.Calculated →
    t.service.Consistent ∧ t.Calculated
  held : s.holdUpdate = true → s.UpToDate → t.UpToDate

theorem changed_calculated (calculated : s.Calculated) {result : TimerService × Bool}
    (reports : s.service.Reports result) :
    (s.changed result).service.Consistent ∧ (s.changed result).Calculated := by
  rcases result with ⟨service, called⟩
  cases called with
  | true => exact ⟨reports.consistent, rfl⟩
  | false =>
    have same := reports.silent rfl
    refine ⟨reports.consistent, ?_⟩
    simp only [changed, Bool.false_eq_true, if_false, Calculated, calculateNextTrigger] at same ⊢
    rw [same]
    exact calculated

theorem changed_frame (s : TickOnInterrupt) (result : TimerService × Bool) :
    s.changed result = { s with
      service := result.1
      ticksNextNotification := (s.changed result).ticksNextNotification } := by
  rcases result with ⟨service, called⟩
  cases called <;> rfl

theorem serves_register (s : TickOnInterrupt) (timer : ArmedTimer) :
    s.Serves (s.registerTimer timer) (timer :: s.service.scheduledTimers) where
  frame := by
    have frame := changed_frame s (s.service.registerTimer timer)
    rw [registerTimer, frame]
  timers := by
    rw [registerTimer, changed_frame]
    simp only [TimerService.registerTimer]
    split <;> rfl
  free := fun _ consistent calculated =>
    changed_calculated calculated (TimerService.reports_register consistent timer)
  held := by
    intro _ upToDate
    rw [registerTimer, changed_frame]
    rcases upToDate with needed | consistent
    · exact .inl needed
    · exact .inr (TimerService.reports_register consistent timer).consistent

theorem serves_compute (s : TickOnInterrupt) (timers : List ArmedTimer) :
    s.Serves { s with service := { s.service with scheduledTimers := timers } }.computeNextTrigger
      timers := by
  by_cases held : s.holdUpdate = true
  · have told : { s with service := { s.service with scheduledTimers := timers }
        }.computeNextTrigger = { s with
          service := { s.service with scheduledTimers := timers }
          updateNeeded := true } := if_pos held
    rw [told]
    refine ⟨rfl, rfl, fun free => ?_, fun _ _ => .inl rfl⟩
    exact absurd (held.symm.trans free) (by decide)
  · have told : { s with service := { s.service with scheduledTimers := timers }
        }.computeNextTrigger = { s with
          service := { s.service with scheduledTimers := timers }
          updateNeeded := false }.changed
            ({ s.service with scheduledTimers := timers } : TimerService).computeNextTrigger :=
      if_neg held
    rw [told]
    refine ⟨?_, ?_, fun _ _ calculated => ?_, fun holds => absurd holds held⟩
    · rw [changed_frame]
    · rw [changed_frame]
      rfl
    · refine changed_calculated ?_ (TimerService.reports_compute rfl)
      exact calculated

theorem serves_silent
    (kept : s.service.Consistent →
      ({ s.service with scheduledTimers := timers } : TimerService).Consistent) :
    s.Serves { s with service := { s.service with scheduledTimers := timers } } timers where
  frame := rfl
  timers := rfl
  free := fun _ consistent calculated => ⟨kept consistent, calculated⟩
  held := fun _ upToDate => upToDate.imp id kept

theorem serves_unregister (position : s.service.scheduledTimers[index]? = some timer) :
    s.Serves (s.unregisterTimer index timer) (s.service.scheduledTimers.eraseIdx index) := by
  rw [unregisterTimer]
  split
  next => exact serves_compute s _
  next other =>
    refine serves_silent fun consistent => ?_
    have reports := (TimerService.reports_unregister consistent position).consistent
    rw [TimerService.unregisterTimer, if_neg other] at reports
    exact reports

theorem serves_update (position : s.service.scheduledTimers[index]? = some timer)
    (updated : ArmedTimer) :
    s.Serves (s.updateTriggerTime index timer updated)
      (s.service.scheduledTimers.set index updated) := by
  rw [updateTriggerTime]
  split
  next => exact serves_compute s _
  next other =>
    refine serves_silent fun consistent => ?_
    have reports := (TimerService.reports_update consistent position updated).consistent
    rw [TimerService.updateTriggerTime, if_neg other] at reports
    exact reports

/-! ### The application -/

theorem AllRan.mono (ran : s.AllRan) (due : t.due = s.due) (sameRan : t.ran = s.ran)
    (stopped : ∀ name ∈ s.stopped, name ∈ t.stopped) : t.AllRan := by
  intro name member
  rw [due] at member
  rw [sameRan]
  exact (ran name member).imp id (stopped name)

/-- Timers are started after the last interrupt, and the timers that leave the list are stopped. -/
theorem invariant_operation {starts : Nat} {fresh stopped : List Nat} (keeps : s.Invariant)
    (runs : s.applicationRuns = true)
    (serves : ({ s with starts, fresh, stopped } : TickOnInterrupt).Serves t timers)
    (freshKept : ∀ name ∈ s.fresh, name ∈ fresh) (stoppedKept : ∀ name ∈ s.stopped, name ∈ stopped)
    (new : ∀ timer ∈ timers, timer ∈ s.service.scheduledTimers ∨ timer.action ∈ fresh)
    (kept : ∀ timer ∈ s.service.scheduledTimers, timer ∈ timers ∨ timer.action ∈ stopped) :
    t.Invariant := by
  have frame := serves.frame
  have position : t.position = s.position := congrArg (·.position) frame
  have hold : t.holdUpdate = s.holdUpdate := congrArg (·.holdUpdate) frame
  have flag : t.notificationScheduled = s.notificationScheduled :=
    congrArg (·.notificationScheduled) frame
  have pending : t.pending = s.pending := congrArg (·.pending) frame
  have time : t.systemTime = s.systemTime := congrArg (·.systemTime) frame
  have resolution : t.resolution = s.resolution := congrArg (·.resolution) frame
  have progressed : t.ticksProgressed = s.ticksProgressed := congrArg (·.ticksProgressed) frame
  have freshNow : t.fresh = fresh := congrArg (·.fresh) frame
  have due : t.due = s.due := congrArg (·.due) frame
  have ran : t.ran = s.ran := congrArg (·.ran) frame
  have stoppedNow : t.stopped = stopped := congrArg (·.stopped) frame
  have now : t.now = s.now := by rw [now, now, time, resolution, progressed]
  refine ⟨resolution ▸ keeps.positive, ?_, ?_⟩
  · rw [now, resolution, keeps.counted]
    exact congrArg (fun ticks : Nat => (ticks : Int) * s.resolution)
      (congrArg (·.ticks) frame).symm
  cases keeps.phase with
  | outside at_ free consistent calculated single woken allRan =>
    have settled := serves.free free consistent calculated
    refine .outside (position.trans at_) (hold.trans free) settled.1 settled.2 ?_ ?_ ?_
    · rw [pending, flag]
      exact single
    · intro quiet timer member old
      rw [now, resolution]
      rw [flag] at quiet
      rw [serves.timers] at member
      rw [freshNow] at old
      rcases new timer member with armed | started
      · exact woken quiet timer armed fun before => old (freshKept _ before)
      · exact absurd started old
    · exact allRan.mono due ran (stoppedNow ▸ stoppedKept)
  | inLoop at_ held upToDate scheduled taken toRun =>
    refine .inLoop ?_ (hold.trans held) (serves.held held upToDate) (flag.trans scheduled)
      (pending.trans taken) ?_
    · rw [position]
      exact at_
    · intro name member
      rw [due] at member
      rw [ran, stoppedNow, serves.timers, time]
      rcases toRun name member with done | stop | ⟨timer, armed, named, reached⟩
      · exact .inl done
      · exact .inr (.inl (stoppedKept _ stop))
      · rcases kept timer armed with still | stop
        · exact .inr (.inr ⟨timer, still, named, reached⟩)
        · exact .inr (.inl (named ▸ stop))
  | lastAction at_ held upToDate scheduled taken allRan =>
    exact .lastAction (position.trans at_) (hold.trans held) (serves.held held upToDate)
      (flag.trans scheduled) (pending.trans taken)
      (allRan.mono due ran (stoppedNow ▸ stoppedKept))
  | behind at_ _ _ _ _ _ =>
    exfalso
    rw [applicationRuns] at runs
    rcases at_ with at_ | ⟨at_, _⟩ | ⟨_, at_, _⟩ | ⟨at_, _⟩ <;> simp [at_] at runs

theorem mem_erased (position : timers[index]? = some timer) (member : other ∈ timers) :
    other ∈ timers.eraseIdx index ∨ other = timer := by
  obtain ⟨place, found⟩ := mem_iff_getElem?.mp member
  by_cases same : place = index
  · rw [same, position] at found
    exact .inr (Option.some.inj found).symm
  · exact .inl (mem_eraseIdx_iff_getElem?.mpr ⟨place, same, found⟩)

theorem mem_replaced (position : timers[index]? = some timer) (updated : ArmedTimer)
    (member : other ∈ timers) :
    other ∈ timers.set index updated ∨ other = timer := by
  obtain ⟨place, found⟩ := mem_iff_getElem?.mp member
  by_cases same : place = index
  · rw [same, position] at found
    exact .inr (Option.some.inj found).symm
  · refine .inl (mem_of_getElem? (i := place) ?_)
    rw [getElem?_set_ne (Ne.symm same), found]

theorem start_invariant (keeps : s.Invariant) (steps : s.step (.start kind time) = some t) :
    t.Invariant := by
  simp only [step] at steps
  split at steps
  next runs =>
    cases steps
    refine invariant_operation keeps runs (serves_register _ _)
      (fun _ member => mem_cons_of_mem _ member) (fun _ member => member) ?_
      (fun _ member => .inl (mem_cons_of_mem _ member))
    intro timer member
    rcases mem_cons.mp member with rfl | armed
    · exact .inr mem_cons_self
    · exact .inl armed
  next => cases steps

theorem restart_invariant (keeps : s.Invariant) (steps : s.step (.restart index kind time) = some t) :
    t.Invariant := by
  simp only [step] at steps
  split at steps
  · cases steps
  next timer position =>
    split at steps
    next runs =>
      cases steps
      refine invariant_operation keeps runs (serves_update (s := { s with
          starts := s.starts + 1
          fresh := s.starts :: s.fresh
          stopped := timer.action :: s.stopped }) position _)
        (fun _ member => mem_cons_of_mem _ member)
        (fun _ member => mem_cons_of_mem _ member) ?_ ?_
      · intro other member
        rcases mem_or_eq_of_mem_set member with armed | rfl
        · exact .inl armed
        · exact .inr mem_cons_self
      · intro other member
        rcases mem_replaced position _ member with still | rfl
        · exact .inl still
        · exact .inr mem_cons_self
    next => cases steps

theorem cancel_invariant (keeps : s.Invariant) (steps : s.step (.cancel index) = some t) :
    t.Invariant := by
  simp only [step] at steps
  split at steps
  · cases steps
  next timer position =>
    split at steps
    next runs =>
      cases steps
      refine invariant_operation keeps runs
        (serves_unregister (s := { s with stopped := timer.action :: s.stopped }) position)
        (fun _ member => member) (fun _ member => mem_cons_of_mem _ member) ?_ ?_
      · intro other member
        exact .inl (mem_of_mem_eraseIdx member)
      · intro other member
        rcases mem_erased position member with still | rfl
        · exact .inl still
        · exact .inr mem_cons_self
    next => cases steps

/-! ### The interrupt -/

theorem tick_invariant (keeps : s.Invariant) (few : s.ticksProgressed + 1 < 2 ^ 31) :
    s.systemTickInterrupt.Invariant := by
  have wrap : (s.ticksProgressed + 1) % 2 ^ 32 = s.ticksProgressed + 1 := Nat.mod_eq_of_lt (by omega)
  have later : s.systemTime + (s.ticksProgressed + 1 : Nat) * s.resolution =
      (s.ticks + 1 : Nat) * s.resolution := by
    have counted := keeps.counted
    rw [now] at counted
    push_cast
    linarith [add_mul (s.ticksProgressed : Int) 1 s.resolution, add_mul (s.ticks : Int) 1 s.resolution]
  simp only [systemTickInterrupt, wrap]
  split
  next notifies =>
    obtain ⟨_, quiet⟩ := notifies
    have quiet : s.notificationScheduled = false := by simpa using quiet
    refine ⟨keeps.positive, later, ?_⟩
    cases keeps.phase with
    | outside position free consistent calculated single _ ran =>
      refine .outside position free consistent calculated ?_ (fun idle => by cases idle) ran
      rw [quiet] at single
      exact congrArg (· + 1) single
    | inLoop _ _ _ scheduled _ _ | lastAction _ _ _ scheduled _ _ | behind _ _ _ scheduled _ _ =>
      exact absurd (scheduled.symm.trans quiet) (by decide)
  next silent =>
    refine ⟨keeps.positive, later, ?_⟩
    cases keeps.phase with
    | outside position free consistent calculated single _ ran =>
      refine .outside position free consistent calculated single ?_ ran
      intro quiet timer member _
      have before : s.ticksProgressed < s.ticksNextNotification := by
        have quiet : s.notificationScheduled = false := quiet
        simp only [quiet, Bool.not_false, and_true] at silent
        omega
      have reached := early keeps.positive consistent calculated member before
      show s.systemTime + (s.ticksProgressed + 1 : Nat) * s.resolution - s.resolution < _
      push_cast
      linarith [add_mul (s.ticksProgressed : Int) 1 s.resolution]
    | inLoop position held upToDate scheduled taken toRun =>
      exact .inLoop position held upToDate scheduled taken toRun
    | lastAction position held upToDate scheduled taken ran =>
      exact .lastAction position held upToDate scheduled taken ran
    | behind position free consistent scheduled taken ran =>
      exact .behind position free consistent scheduled taken ran

/-! ### `ProcessTicks` -/

section

variable (positive : 0 < s.resolution) (counted : s.now = s.ticks * s.resolution)

include positive counted

theorem endLoop_invariant (upToDate : s.UpToDate) (scheduled : s.notificationScheduled = true)
    (taken : s.pending = 0) (ran : s.AllRan) :
    s.endLoop.Invariant := by
  simp only [endLoop]
  split
  next needed =>
    have serves := serves_compute
      { s with holdUpdate := false, position := .progressed } s.service.scheduledTimers
    have compute : ({ s with holdUpdate := false, position := .progressed } : TickOnInterrupt
        ).computeNextTrigger.service.Consistent := by
      simp only [computeNextTrigger, Bool.false_eq_true, if_false]
      rw [changed_frame]
      exact rfl
    have frame := serves.frame
    generalize ({ s with holdUpdate := false, position := .progressed } : TickOnInterrupt
      ).computeNextTrigger = t at compute frame
    rw [frame]
    exact ⟨positive, counted, .behind (.inl rfl) rfl compute scheduled taken ran⟩
  next unneeded =>
    have consistent := upToDate.resolve_left unneeded
    exact ⟨positive, counted, .behind (.inl rfl) rfl consistent scheduled taken ran⟩

theorem ran_invariant {more : Bool} {front back : List ArmedTimer} (held : s.holdUpdate = true)
    (upToDate : s.UpToDate) (scheduled : s.notificationScheduled = true) (taken : s.pending = 0)
    (toRun : s.ToRun) (split : s.service.scheduledTimers = front ++ timer :: back)
    (several : more = true ↔ 1 < s.service.scheduledTimers.countP (Due s.systemTime))
    (due : Due s.systemTime timer = true)
    (serves : ({ s with position := .inAction more, ran := timer.action :: s.ran } :
      TickOnInterrupt).Serves t timers) (kept : ∀ other ∈ front ++ back, other ∈ timers) :
    t.Invariant := by
  have frame := serves.frame
  have upToDate := serves.held held upToDate
  have list := serves.timers
  have left : ∀ name ∈ s.due, name ∈ timer.action :: s.ran ∨ name ∈ s.stopped ∨
      ∃ other ∈ front ++ back, other.action = name ∧ other.nextTriggerTime ≤ s.systemTime := by
    intro name member
    rcases toRun name member with ran | stop | ⟨other, armed, named, reached⟩
    · exact .inl (mem_cons_of_mem _ ran)
    · exact .inr (.inl stop)
    · rw [split, mem_append, mem_cons] at armed
      rcases armed with inFront | rfl | inBack
      · exact .inr (.inr ⟨other, mem_append_left _ inFront, named, reached⟩)
      · exact .inl (named ▸ mem_cons_self)
      · exact .inr (.inr ⟨other, mem_append_right _ inBack, named, reached⟩)
  generalize t.service = service at *
  generalize t.updateNeeded = updateNeeded at *
  generalize t.ticksNextNotification = ticksNextNotification at *
  subst frame
  refine ⟨positive, counted, ?_⟩
  cases more with
  | true =>
    refine .inLoop (.inr rfl) held upToDate scheduled taken ?_
    intro name member
    rcases left name member with ran | stop | ⟨other, armed, named, reached⟩
    · exact .inl ran
    · exact .inr (.inl stop)
    · exact .inr (.inr ⟨other, list ▸ kept other armed, named, reached⟩)
  | false =>
    refine .lastAction rfl held upToDate scheduled taken ?_
    intro name member
    rcases left name member with ran | stop | ⟨other, armed, _, reached⟩
    · exact .inl ran
    · exact .inr stop
    · have isDue : Due s.systemTime other = true := decide_eq_true reached
      have positive : 0 < (front ++ back).countP (Due s.systemTime) :=
        countP_pos_iff.mpr ⟨other, armed, isDue⟩
      have many : 1 < s.service.scheduledTimers.countP (Due s.systemTime) := by
        rw [split]
        simp only [countP_append, countP_cons, due, if_true] at positive ⊢
        omega
      exact absurd (several.mpr many) Bool.false_ne_true

theorem round_invariant (held : s.holdUpdate = true) (upToDate : s.UpToDate)
    (scheduled : s.notificationScheduled = true) (taken : s.pending = 0) (toRun : s.ToRun) :
    s.round.Invariant := by
  rw [round]
  split
  next more scanned =>
    refine endLoop_invariant positive counted upToDate scheduled taken ?_
    intro name member
    have none_due := countP_eq_zero.mp (scan_none scanned)
    rcases toRun name member with ran | stop | ⟨timer, armed, _, reached⟩
    · exact .inl ran
    · exact .inr stop
    · exact absurd (decide_eq_true reached) (none_due timer armed)
  next index timer more scanned =>
    obtain ⟨due, several, front, back, split, position⟩ := scan_some scanned
    have found : s.service.scheduledTimers[index]? = some timer := by
      rw [split, ← position]
      simp
    simp only []
    split
    next stops =>
      refine ran_invariant positive counted held upToDate scheduled taken toRun split several due
        (serves_unregister (s := { s with
          position := .inAction more
          ran := timer.action :: s.ran }) found) ?_
      intro other member
      show other ∈ s.service.scheduledTimers.eraseIdx index
      rw [split, ← position, eraseIdx_append_of_length_le le_rfl, Nat.sub_self,
        eraseIdx_cons_zero]
      exact member
    next next _ =>
      refine ran_invariant positive counted held upToDate scheduled taken toRun split several due
        (serves_update (s := { s with
          position := .inAction more
          ran := timer.action :: s.ran }) found next) ?_
      intro other member
      show other ∈ s.service.scheduledTimers.set index next
      rw [split, ← position, set_append_right _ _ le_rfl, Nat.sub_self, set_cons_zero]
      simp only [mem_append, mem_cons] at member ⊢
      exact member.imp id .inr

end

/-- Between the load of `ticksProgressed` and the store of `notificationScheduled`, the ticks do not
go beyond those of the next notification if they had not come to them. -/
def Undisturbed (s : TickOnInterrupt) : Event → Prop
  | .tick => s.ticksProgressed + 1 < 2 ^ 31
  | .mainGoesOn => s.position = .loaded false → s.ticksProgressed ≤ s.ticksNextNotification
  | _ => True

instance (s : TickOnInterrupt) : DecidablePred (Undisturbed s) := fun event => by
  cases event <;> unfold Undisturbed <;> infer_instance

theorem exchange_invariant (keeps : s.Invariant) (position : s.position = .outside)
    (scheduled : s.pending ≠ 0) :
    s.processTicks.Invariant := by
  cases keeps.phase with
  | outside _ _ consistent _ single _ _ =>
    have flag : s.notificationScheduled = true := by
      by_contra quiet
      exact scheduled (single.trans (if_neg quiet))
    have one : s.pending - 1 = 0 := by
      rw [single, flag]
      rfl
    simp only [processTicks, position]
    refine ⟨keeps.positive, ?_, .inLoop (.inl rfl) rfl (.inr consistent) flag one ?_⟩
    · have counted := keeps.counted
      simp only [now] at counted ⊢
      simpa using counted
    · intro name member
      obtain ⟨timer, found, named⟩ := mem_map.mp member
      obtain ⟨armed, due⟩ := mem_filter.mp found
      exact .inr (.inr ⟨timer, armed, named, of_decide_eq_true due⟩)
  | inLoop other _ _ _ _ _ => rcases other with other | other <;> simp [position] at other
  | lastAction other _ _ _ _ _ | behind other _ _ _ _ _ => simp [position] at other

theorem woken_outside (positive : 0 < s.resolution) (consistent : s.service.Consistent)
    (calculated : s.Calculated) (some_left : 0 < s.ticksNextNotification)
    (undisturbed : s.ticksProgressed ≤ s.ticksNextNotification) :
    ∀ timer ∈ s.service.scheduledTimers, s.now - s.resolution < timer.nextTriggerTime := by
  intro timer member
  have before : s.ticksProgressed - 1 < s.ticksNextNotification := by omega
  have reached := early positive consistent calculated member before
  rw [now]
  rcases Nat.eq_zero_or_pos s.ticksProgressed with zero | some_ticks
  · rw [zero] at reached ⊢
    push_cast at reached ⊢
    linarith
  · rw [Nat.cast_sub some_ticks] at reached
    push_cast at reached
    linarith [sub_mul (s.ticksProgressed : Int) 1 s.resolution]

theorem processTicks_invariant (keeps : s.Invariant)
    (enabled : ¬(s.position = .outside ∧ s.pending = 0))
    (undisturbed : s.position = .loaded false → s.ticksProgressed ≤ s.ticksNextNotification) :
    s.processTicks.Invariant := by
  have ⟨positive, counted, phase⟩ := keeps
  cases phase with
  | outside position =>
    exact exchange_invariant keeps position fun none => enabled ⟨position, none⟩
  | inLoop position held upToDate scheduled taken toRun =>
    have round := round_invariant positive counted held upToDate scheduled taken toRun
    rcases position with position | position
    · simp only [processTicks, position]
      exact round
    · simp only [processTicks, position, if_true]
      exact round
  | lastAction position held upToDate scheduled taken ran =>
    simp only [processTicks, position, Bool.false_eq_true, if_false]
    exact endLoop_invariant positive counted upToDate scheduled taken ran
  | behind position free consistent scheduled taken ran =>
    rcases position with position | ⟨position, calculated⟩ |
      ⟨reschedule, position, calculated, some_left⟩ | ⟨position, calculated⟩
    · simp only [processTicks, position]
      refine ⟨positive, counted, ?_⟩
      exact .behind (.inr (.inl ⟨rfl, rfl⟩)) free consistent scheduled taken ran
    · simp only [processTicks, position]
      refine ⟨positive, counted, .behind (.inr (.inr (.inl ⟨_, rfl, calculated, ?_⟩))) free
        consistent scheduled taken ran⟩
      intro later
      exact Nat.zero_lt_of_lt (Nat.lt_of_not_le (of_decide_eq_false later))
    · simp only [processTicks, position]
      refine ⟨positive, counted, ?_⟩
      cases reschedule with
      | true =>
        exact .behind (.inr (.inr (.inr ⟨rfl, calculated⟩))) free consistent rfl taken ran
      | false =>
        refine .outside rfl free consistent calculated taken ?_ ran
        intro _ timer member _
        exact woken_outside positive consistent calculated (some_left rfl)
          (undisturbed position) timer member
    · simp only [processTicks, position]
      refine ⟨positive, counted, .outside rfl free consistent calculated ?_ ?_ ran⟩
      · simp only [taken, scheduled]
        rfl
      · intro quiet
        exact absurd (scheduled.symm.trans quiet) (by decide)

theorem step_invariant (s : TickOnInterrupt) (event : Event) (t : TickOnInterrupt)
    (keeps : s.Invariant) (undisturbed : Undisturbed s event) (steps : s.step event = some t) :
    t.Invariant := by
  cases event with
  | tick =>
    cases steps
    exact tick_invariant keeps undisturbed
  | mainGoesOn =>
    simp only [step] at steps
    split at steps
    next => cases steps
    next enabled =>
      cases steps
      exact processTicks_invariant keeps enabled undisturbed
  | start kind time => exact start_invariant keeps steps
  | restart index kind time => exact restart_invariant keeps steps
  | cancel index => exact cancel_invariant keeps steps

theorem initial_invariant (positive : 0 < resolution) :
    (initial resolution).Invariant where
  positive := positive
  counted := by simp [now, initial]
  phase := .outside rfl rfl rfl rfl rfl (fun _ _ member => absurd member not_mem_nil)
    (fun _ member => absurd member not_mem_nil)

/-- What holds between two steps, whatever the interrupt did in between. -/
structure Proper (s : TickOnInterrupt) : Prop where
  /-- No tick is lost. -/
  counted : s.now = s.ticks * s.resolution
  single : s.pending ≤ 1
  /-- A timer that was armed and reached before the last tick is about to be run. -/
  woken : s.position = .outside → ∀ timer ∈ s.service.scheduledTimers, timer.action ∉ s.fresh →
    timer.nextTriggerTime ≤ s.now - s.resolution → s.pending = 1
  /-- When the loop has ended, every timer that was due when `ProcessTicks` began has run, unless it
  was stopped by an action. -/
  ran : s.position ≠ .exchanged → (∀ more, s.position ≠ .inAction more) → s.AllRan

theorem Invariant.proper (keeps : s.Invariant) : s.Proper := by
  obtain ⟨_, counted, phase⟩ := keeps
  cases phase with
  | outside position free consistent calculated single woken ran =>
    refine ⟨counted, ?_, fun _ timer member old reached => ?_, fun _ _ => ran⟩
    · rw [single]
      split <;> decide
    · by_contra none
      have quiet : s.notificationScheduled = false := by
        by_contra flag
        exact none (single.trans (if_pos (by simpa using flag)))
      exact absurd (woken quiet timer member old) (not_lt.mpr reached)
  | inLoop position _ _ _ taken _ =>
    refine ⟨counted, taken.le.trans (Nat.zero_le 1), ?_, ?_⟩
    · intro outside
      rcases position with position | position <;> simp [position] at outside
    · intro entered acting
      rcases position with position | position
      · exact absurd position entered
      · exact absurd position (acting true)
  | lastAction position _ _ _ taken _ =>
    refine ⟨counted, taken.le.trans (Nat.zero_le 1), ?_, ?_⟩
    · intro outside
      simp [position] at outside
    · intro _ acting
      exact absurd position (acting false)
  | behind position _ _ _ taken ran =>
    refine ⟨counted, taken.le.trans (Nat.zero_le 1), ?_, fun _ _ => ran⟩
    intro outside
    rcases position with position | ⟨position, _⟩ | ⟨_, position, _⟩ | ⟨position, _⟩ <;>
      simp [position] at outside

/-- A repeating timer whose action starts another timer; `ProcessTicks` is about to store whether it
is to be scheduled again. -/
def upToStore : List Event :=
  [.start (.repeating 10 (by decide)) 0, .tick, .mainGoesOn, .mainGoesOn, .start .singleShot 19,
    .mainGoesOn, .mainGoesOn, .mainGoesOn]

/-- The repeating timer was reached one tick ago. -/
def reachedBefore (pending : Nat) (s : TickOnInterrupt) : Bool :=
  s.position = .outside ∧ s.pending = pending ∧ s.now = 30 ∧ s.fresh = [] ∧ s.ran = [0] ∧
    s.resolution = 10 ∧ s.service.scheduledTimers.map ArmedTimer.nextTriggerTime = [29, 20]

end Timer.TickOnInterrupt
