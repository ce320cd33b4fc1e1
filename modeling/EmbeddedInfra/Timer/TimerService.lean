import Mathlib.Data.List.Basic
import EmbeddedInfra.Timer.PartitionedTime

/-! The part of `TimerService` that every clock shares: the armed timers and the earliest
of their triggers. Times stay below `TimePoint::max()`, which a trigger of `none` stands
for. Every operation reports whether it called `NextTriggerChanged`. -/

namespace Timer

open List

/-- What kind of timer this is; periods are positive and an alarm is set for a time
after midnight. -/
inductive Kind
  | singleShot
  | repeating (triggerPeriod : Int) (positive : 0 < triggerPeriod)
  | alarm (durationFromMidnight : Int) (nonnegative : 0 ≤ durationFromMidnight)
  deriving DecidableEq

/-- An armed timer; `action` names its action. -/
structure ArmedTimer where
  kind : Kind
  action : Nat
  nextTriggerTime : Int
  deriving DecidableEq

namespace ArmedTimer

variable (timer : ArmedTimer)

/-- The trigger that `TimerAlarm::ComputeNextTriggerTime` sets. -/
def alarmTrigger (now durationFromMidnight : Int) : Int :=
  let triggerToday := StartOfDay now + durationFromMidnight
  if triggerToday > now then triggerToday else triggerToday + day

/-- `ComputeNextTriggerTime` of a timer that runs its action; none is `Cancel`. -/
def computeNextTriggerTime (now : Int) : Option ArmedTimer :=
  match timer.kind with
  | .singleShot => none
  | .repeating triggerPeriod _ =>
    let now := max now timer.nextTriggerTime
    let diff := (now - timer.nextTriggerTime) % triggerPeriod
    some { timer with nextTriggerTime := now - diff + triggerPeriod }
  | .alarm durationFromMidnight _ =>
    some { timer with nextTriggerTime := alarmTrigger now durationFromMidnight }

/-- `Jumped`: an alarm looks for its time of the day again, every other timer pretends
that no time passed. -/
def jumped (origin target : Int) : ArmedTimer :=
  match timer.kind with
  | .alarm durationFromMidnight _ =>
    let triggerToday := StartOfDay target + durationFromMidnight
    { timer with
      nextTriggerTime := if triggerToday ≥ target then triggerToday else triggerToday + day }
  | _ => { timer with nextTriggerTime := timer.nextTriggerTime + (target - origin) }

end ArmedTimer

structure TimerService where
  scheduledTimers : List ArmedTimer := []
  nextTrigger : Option Int := none
  deriving DecidableEq

/-- The minimum that the loop of `ComputeNextTrigger` takes. -/
def earliest (timers : List ArmedTimer) : Option Int :=
  timers.foldr (fun timer next => some (next.elim timer.nextTriggerTime (min timer.nextTriggerTime)))
    none

/-- `trigger < nextTrigger` -/
def sooner (trigger : Int) (nextTrigger : Option Int) : Bool :=
  nextTrigger.all (trigger < ·)

namespace TimerService

variable (service : TimerService)

def computeNextTrigger : TimerService × Bool :=
  ({ service with nextTrigger := earliest service.scheduledTimers },
    earliest service.scheduledTimers != service.nextTrigger)

def registerTimer (timer : ArmedTimer) : TimerService × Bool :=
  let scheduledTimers := timer :: service.scheduledTimers
  if sooner timer.nextTriggerTime service.nextTrigger then
    ({ scheduledTimers, nextTrigger := some timer.nextTriggerTime }, true)
  else ({ service with scheduledTimers }, false)

/-- `Cancel` of an armed timer. -/
def unregisterTimer (index : Nat) (timer : ArmedTimer) : TimerService × Bool :=
  let left := { service with scheduledTimers := service.scheduledTimers.eraseIdx index }
  if some timer.nextTriggerTime = service.nextTrigger then left.computeNextTrigger
  else (left, false)

/-- The condition under which `UpdateTriggerTime` computes the next trigger. -/
def mustUpdate (oldTriggerTime newTriggerTime : Int) : Bool :=
  service.nextTrigger == some oldTriggerTime || sooner newTriggerTime service.nextTrigger

/-- `SetNextTriggerTime` of an armed timer. -/
def updateTriggerTime (index : Nat) (timer updated : ArmedTimer) : TimerService × Bool :=
  let next := { service with scheduledTimers := service.scheduledTimers.set index updated }
  if service.mustUpdate timer.nextTriggerTime updated.nextTriggerTime then next.computeNextTrigger
  else (next, false)

end TimerService

/-- The scan of `Progressed` over the timers that are left, from this index on: the
earliest timer that is due, and whether there is more than one. -/
def scan (time : Int) :
    List ArmedTimer → Nat → Option (Nat × ArmedTimer) → Bool → Option (Nat × ArmedTimer) × Bool
  | [], _, found, more => (found, more)
  | timer :: timers, index, found, more =>
    if timer.nextTriggerTime ≤ time then
      match found with
      | none => scan time timers (index + 1) (some (index, timer)) more
      | some (at_, sofar) =>
        scan time timers (index + 1)
          (if sofar.nextTriggerTime > timer.nextTriggerTime then some (index, timer)
            else some (at_, sofar))
          true
    else scan time timers (index + 1) found more

def takeNext (index : Nat) (timers : List ArmedTimer) : Option ArmedTimer → List ArmedTimer
  | none => timers.eraseIdx index
  | some next => timers.set index next

/-- The loop of `Progressed` while `holdUpdate` is set: the timers it leaves, the timers
whose actions it runs and `updateNeeded`. -/
def progressedLoop (service : TimerService) (now time : Int) :
    Nat → List ArmedTimer → List ArmedTimer × List ArmedTimer × Bool
  | 0, timers => (timers, [], false)
  | fuel + 1, timers =>
    match scan time timers 0 none false with
    | (none, _) => (timers, [], false)
    | (some (index, timer), more) =>
      let next := timer.computeNextTriggerTime now
      let updated := some timer.nextTriggerTime == service.nextTrigger ||
        next.any fun next => service.mustUpdate timer.nextTriggerTime next.nextTriggerTime
      let left := takeNext index timers next
      if more then
        let (rest, ran, updateNeeded) := progressedLoop service now time fuel left
        (rest, timer :: ran, updated || updateNeeded)
      else (left, [timer], updated)

namespace TimerService

variable (service : TimerService)

/-- `Progressed`: the timers whose actions run, besides. No timer becomes due by running
its action (`computeNextTriggerTime_later`), so there is a pass for every timer at most. -/
def progressed (now time : Int) : (TimerService × Bool) × List ArmedTimer :=
  let (timers, ran, updateNeeded) :=
    progressedLoop service now time service.scheduledTimers.length service.scheduledTimers
  let next := { service with scheduledTimers := timers }
  (if updateNeeded then next.computeNextTrigger else (next, false), ran)

/-- `Jumped`: while `holdUpdate` is set every timer takes its new trigger. -/
def jumped (origin target : Int) : TimerService × Bool :=
  let next := { service with
    scheduledTimers := service.scheduledTimers.map (ArmedTimer.jumped · origin target) }
  if service.scheduledTimers.any fun timer =>
      service.mustUpdate timer.nextTriggerTime (timer.jumped origin target).nextTriggerTime then
    next.computeNextTrigger
  else (next, false)

end TimerService

/-! A timer that runs its action is due again only after the present. -/

theorem lt_alarmTrigger (now : Int) {durationFromMidnight : Int}
    (nonnegative : 0 ≤ durationFromMidnight) :
    now < ArmedTimer.alarmTrigger now durationFromMidnight := by
  have ends := lt_startOfDay now
  simp only [ArmedTimer.alarmTrigger]
  split <;> omega

variable {timer : ArmedTimer} {now : Int} {timers : List ArmedTimer} {time : Int} {more : Bool}

theorem computeNextTriggerTime_later {next : ArmedTimer}
    (computed : timer.computeNextTriggerTime now = some next) : now < next.nextTriggerTime := by
  simp only [ArmedTimer.computeNextTriggerTime] at computed
  split at computed
  · cases computed
  next triggerPeriod positive _ =>
    obtain rfl := Option.some.inj computed
    have short := Int.emod_lt_of_pos (max now timer.nextTriggerTime - timer.nextTriggerTime) positive
    have later := le_max_left now timer.nextTriggerTime
    dsimp only
    omega
  next nonnegative _ =>
    obtain rfl := Option.some.inj computed
    exact lt_alarmTrigger now nonnegative

/-! The earliest trigger. -/

theorem earliest_cons (timer : ArmedTimer) (timers : List ArmedTimer) :
    earliest (timer :: timers) =
      some ((earliest timers).elim timer.nextTriggerTime (min timer.nextTriggerTime)) := rfl

theorem earliest_eq_none : earliest timers = none ↔ timers = [] := by
  cases timers <;> simp [earliest]

theorem earliest_eq_some {trigger : Int} :
    earliest timers = some trigger ↔
      (∃ timer ∈ timers, timer.nextTriggerTime = trigger) ∧
        ∀ timer ∈ timers, trigger ≤ timer.nextTriggerTime := by
  induction timers generalizing trigger with
  | nil => simp [earliest]
  | cons timer timers ih =>
    rw [earliest_cons, Option.some.injEq, forall_mem_cons]
    simp only [mem_cons, exists_eq_or_imp]
    cases rest : earliest timers with
    | none =>
      obtain rfl := earliest_eq_none.mp rest
      simp only [Option.elim, not_mem_nil, false_and, exists_false, or_false,
        false_imp_iff, implies_true, and_true]
      constructor
      · intro same
        exact ⟨same, same.ge⟩
      · exact And.left
    | some sofar =>
      obtain ⟨⟨first, member, same⟩, least⟩ := ih.mp rest
      simp only [Option.elim]
      constructor
      · rintro rfl
        refine ⟨?_, min_le_left _ _, fun other inside => (min_le_right _ _).trans (least other inside)⟩
        rcases min_choice timer.nextTriggerTime sofar with here | there
        · exact .inl here.symm
        · exact .inr ⟨first, member, same.trans there.symm⟩
      · rintro ⟨attained, here, below⟩
        apply le_antisymm
        · rcases attained with rfl | ⟨other, inside, rfl⟩
          · exact min_le_left _ _
          · exact (min_le_right _ _).trans (least other inside)
        · exact le_min here (same ▸ below first member)

/-! One pass of `Progressed`, and all of them. -/

def Due (time : Int) (timer : ArmedTimer) : Bool := timer.nextTriggerTime ≤ time

/-- What a scan has found after these timers. -/
private def Found (time : Int) (seen : List ArmedTimer) (found : Option (Nat × ArmedTimer))
    (more : Bool) : Prop :=
  (∀ entry ∈ found, seen[entry.1]? = some entry.2 ∧ Due time entry.2 = true) ∧
    (found = none ↔ seen.countP (Due time) = 0) ∧ (more = true ↔ 1 < seen.countP (Due time))

private theorem scan_found {seen : List ArmedTimer} (left : List ArmedTimer)
    {found : Option (Nat × ArmedTimer)} (before : Found time seen found more) :
    Found time (seen ++ left) (scan time left seen.length found more).1
      (scan time left seen.length found more).2 := by
  induction left generalizing seen found more with
  | nil => simpa [scan] using before
  | cons timer left ih =>
    obtain ⟨inside, unfound, several⟩ := before
    have grown : seen ++ timer :: left = (seen ++ [timer]) ++ left := by simp
    have position : seen.length + 1 = (seen ++ [timer]).length := by simp
    have kept (entry : Nat × ArmedTimer) (earlier : seen[entry.1]? = some entry.2) :
        (seen ++ [timer])[entry.1]? = some entry.2 := by
      rw [getElem?_append_left (List.getElem?_eq_some_iff.mp earlier).1, earlier]
    have last : (seen ++ [timer])[seen.length]? = some timer := by simp
    have count : (seen ++ [timer]).countP (Due time) =
        seen.countP (Due time) + if Due time timer then 1 else 0 := by
      simp [countP_append, countP_singleton]
    rw [grown]
    simp only [scan, position]
    split
    next due =>
      have isDue : Due time timer = true := by simpa [Due] using due
      rw [isDue, if_pos rfl] at count
      cases found with
      | none =>
        have none := unfound.mp rfl
        have first : Found time (seen ++ [timer]) (some (seen.length, timer)) more := by
          refine ⟨?_, by simp [count], ?_⟩
          · intro chosen isChosen
            obtain rfl := Option.some.inj isChosen
            exact ⟨last, isDue⟩
          · rw [count, several, none]
            simp
        exact ih first
      | some entry =>
        have positive : seen.countP (Due time) ≠ 0 := fun empty => nomatch unfound.mpr empty
        have next : Found time (seen ++ [timer])
            (if entry.2.nextTriggerTime > timer.nextTriggerTime then some (seen.length, timer)
              else some (entry.1, entry.2)) true := by
          refine ⟨?_, ?_, ?_⟩
          · intro chosen isChosen
            split at isChosen
            · obtain rfl := Option.some.inj isChosen
              exact ⟨last, isDue⟩
            · obtain rfl := Option.some.inj isChosen
              exact ⟨kept _ (inside _ rfl).1, (inside _ rfl).2⟩
          · rw [count]
            split <;> simp
          · simp only [count, true_iff]
            omega
        exact ih next
    next notDue =>
      have isNot : Due time timer = false := by simpa [Due] using notDue
      rw [isNot, if_neg Bool.false_ne_true, add_zero] at count
      exact ih ⟨fun entry isEntry => ⟨kept entry (inside entry isEntry).1, (inside entry isEntry).2⟩,
        by rw [count, unfound], by rw [count, several]⟩

private theorem found_nothing (time : Int) : Found time [] none false :=
  ⟨by simp, by simp, by simp⟩

theorem scan_none (scanned : scan time timers 0 none false = (none, more)) :
    timers.countP (Due time) = 0 := by
  have found := scan_found timers (found_nothing time)
  rw [length_nil, scanned] at found
  exact found.2.1.mp rfl

theorem scan_some {index : Nat}
    (scanned : scan time timers 0 none false = (some (index, timer), more)) :
    Due time timer = true ∧ (more = true ↔ 1 < timers.countP (Due time)) ∧
      ∃ front back, timers = front ++ timer :: back ∧ front.length = index := by
  have found := scan_found timers (found_nothing time)
  rw [length_nil, scanned] at found
  obtain ⟨inside, -, several⟩ := found
  obtain ⟨position, due⟩ := inside _ rfl
  rw [nil_append] at position
  obtain ⟨bound, same⟩ : ∃ bound : index < timers.length, timers[index] = timer :=
    List.getElem?_eq_some_iff.mp position
  refine ⟨due, several, timers.take index, timers.drop (index + 1), ?_,
    length_take_of_le bound.le⟩
  rw [← same, ← drop_eq_getElem_cons bound, take_append_drop]

def advance (now time : Int) (timer : ArmedTimer) : Option ArmedTimer :=
  if Due time timer then timer.computeNextTriggerTime now else some timer

/-- Running the action of a due timer asks for a new next trigger. -/
def Asks (service : TimerService) (now : Int) (timer : ArmedTimer) : Prop :=
  some timer.nextTriggerTime = service.nextTrigger ∨
    ∃ next ∈ timer.computeNextTriggerTime now,
      service.mustUpdate timer.nextTriggerTime next.nextTriggerTime = true

private theorem takeNext_split (past : time ≤ now) (front back : List ArmedTimer)
    (due : Due time timer = true) :
    let left := takeNext front.length (front ++ timer :: back) (timer.computeNextTriggerTime now)
    left.filterMap (advance now time) = (front ++ timer :: back).filterMap (advance now time) ∧
      left.filter (Due time) = (front ++ back).filter (Due time) := by
  intro left
  cases next : timer.computeNextTriggerTime now with
  | none =>
    have removed : left = front ++ back := by
      simp only [left, next, takeNext]
      rw [eraseIdx_append_of_length_le le_rfl, Nat.sub_self, eraseIdx_cons_zero]
    simp [removed, filterMap_append, advance, due, next]
  | some later =>
    have notDue : Due time later = false := by
      have after := computeNextTriggerTime_later next
      simp only [Due, decide_eq_false_iff_not]
      omega
    have replaced : left = front ++ later :: back := by
      simp only [left, next, takeNext]
      rw [set_append_right _ _ le_rfl, Nat.sub_self, set_cons_zero]
    simp [replaced, filterMap_append, advance, due, notDue, next]

private theorem none_due (now : Int) (empty : timers.countP (Due time) = 0) :
    timers.filterMap (advance now time) = timers ∧ timers.filter (Due time) = [] ∧
      ∀ timer ∈ timers, Due time timer = false := by
  have notDue : ∀ timer ∈ timers, Due time timer = false := by
    simpa [countP_eq_zero] using empty
  refine ⟨?_, by simpa [filter_eq_nil_iff] using notDue, notDue⟩
  calc
    timers.filterMap (advance now time) = timers.filterMap some :=
      filterMap_congr fun timer inside => by simp [advance, notDue timer inside]
    _ = timers := filterMap_some

theorem progressedLoop_spec (service : TimerService) (past : time ≤ now) (fuel : Nat)
    (timers : List ArmedTimer) (enough : timers.countP (Due time) ≤ fuel) :
    let result := progressedLoop service now time fuel timers
    result.1 = timers.filterMap (advance now time) ∧
      result.2.1.Perm (timers.filter (Due time)) ∧
      (result.2.2 = true ↔ ∃ timer ∈ timers, Due time timer = true ∧ Asks service now timer) := by
  have nothing (timers : List ArmedTimer) (empty : timers.countP (Due time) = 0) :
      timers = timers.filterMap (advance now time) ∧ [].Perm (timers.filter (Due time)) ∧
        (false = true ↔ ∃ timer ∈ timers, Due time timer = true ∧ Asks service now timer) := by
    obtain ⟨same, none, notDue⟩ := none_due now empty
    refine ⟨same.symm, by rw [none], by simp, ?_⟩
    rintro ⟨timer, inside, due, -⟩
    simp [notDue timer inside] at due
  induction fuel generalizing timers with
  | zero => exact nothing timers (Nat.le_zero.mp enough)
  | succ fuel ih =>
    simp only [progressedLoop]
    split
    next more scanned => exact nothing timers (scan_none scanned)
    next index timer more scanned =>
      obtain ⟨due, several, front, back, rfl, rfl⟩ := scan_some scanned
      obtain ⟨same, dueLeft⟩ := takeNext_split past front back due
      generalize takeNext front.length (front ++ timer :: back)
        (timer.computeNextTriggerTime now) = left at same dueLeft
      have asks : (some timer.nextTriggerTime == service.nextTrigger ||
          (timer.computeNextTriggerTime now).any fun next =>
            service.mustUpdate timer.nextTriggerTime next.nextTriggerTime) = true ↔
          Asks service now timer := by
        simp [Asks, Option.any_eq_true]
      have dueAll : ((front ++ timer :: back).filter (Due time)).Perm
          (timer :: left.filter (Due time)) := by
        rw [dueLeft]
        simp [due]
      have count : (front ++ timer :: back).countP (Due time) = left.countP (Due time) + 1 := by
        simpa [countP_eq_length_filter] using dueAll.length_eq
      have asked : (∃ other ∈ front ++ timer :: back, Due time other = true ∧ Asks service now other) ↔
          Asks service now timer ∨ ∃ other ∈ left, Due time other = true ∧ Asks service now other := by
        have members (list : List ArmedTimer) :
            (∃ other ∈ list, Due time other = true ∧ Asks service now other) ↔
              ∃ other ∈ list.filter (Due time), Asks service now other := by
          simp only [mem_filter, and_assoc]
        rw [members, members]
        simp only [dueAll.mem_iff, mem_cons, exists_eq_or_imp]
      split
      next isMore =>
        obtain ⟨left', ran, updated⟩ := ih left (by omega)
        refine ⟨left'.trans same, (ran.cons timer).trans dueAll.symm, ?_⟩
        rw [Bool.or_eq_true, asks, updated, asked]
      next single =>
        have only : left.countP (Due time) = 0 := by
          have few : ¬ 1 < (front ++ timer :: back).countP (Due time) :=
            fun many => single (several.mpr many)
          omega
        obtain ⟨kept, none, notDue⟩ := none_due now only
        refine ⟨kept.symm.trans same, ?_, ?_⟩
        · rw [none] at dueAll
          exact dueAll.symm
        · rw [asks, asked, or_iff_left]
          rintro ⟨other, inside, otherDue, -⟩
          simp [notDue other inside] at otherDue

/-! Every operation leaves the earliest trigger as `nextTrigger` and reports its changes. -/

namespace TimerService

variable {service : TimerService}

/-- `nextTrigger` is the earliest trigger. -/
def Consistent (service : TimerService) : Prop :=
  service.nextTrigger = earliest service.scheduledTimers

/-- An operation that keeps `nextTrigger` the earliest trigger and calls
`NextTriggerChanged` if it changed. -/
structure Reports (service : TimerService) (result : TimerService × Bool) : Prop where
  consistent : result.1.Consistent
  silent : result.2 = false → result.1.nextTrigger = service.nextTrigger

theorem mustUpdate_self (service : TimerService) (timer : ArmedTimer) (newTriggerTime : Int)
    (first : service.nextTrigger = some timer.nextTriggerTime) :
    service.mustUpdate timer.nextTriggerTime newTriggerTime = true := by
  simp [mustUpdate, first]

theorem reports_compute {next : TimerService} (same : next.nextTrigger = service.nextTrigger) :
    service.Reports next.computeNextTrigger := by
  refine ⟨rfl, fun unchanged => ?_⟩
  rw [← same]
  simpa [computeNextTrigger] using unchanged

theorem reports_silent {next : TimerService} (same : next.nextTrigger = service.nextTrigger)
    (consistent : next.Consistent) : service.Reports (next, false) :=
  ⟨consistent, fun _ => same⟩

theorem reports_register (consistent : service.Consistent) (timer : ArmedTimer) :
    service.Reports (service.registerTimer timer) := by
  simp only [registerTimer]
  split
  next first =>
    refine ⟨?_, by simp⟩
    rw [sooner, consistent] at first
    rw [Consistent, earliest_cons]
    cases rest : earliest service.scheduledTimers with
    | none => rfl
    | some trigger =>
      have before : timer.nextTriggerTime < trigger := by simpa [rest] using first
      simp [min_eq_left before.le]
  next later =>
    refine reports_silent rfl ?_
    rw [sooner, consistent] at later
    rw [Consistent, earliest_cons]
    dsimp only
    rw [consistent]
    cases rest : earliest service.scheduledTimers with
    | none => simp [rest] at later
    | some trigger =>
      have after : trigger ≤ timer.nextTriggerTime := by simpa [rest] using later
      simp [min_eq_right after]

variable {index : Nat} {timer : ArmedTimer} {now time : Int}

private theorem earliest_of_others {timers left : List ArmedTimer} {trigger : Int}
    (position : timers[index]? = some timer) (first : earliest timers = some trigger)
    (other : timer.nextTriggerTime ≠ trigger)
    (kept : ∀ (place : Nat) (one : ArmedTimer), place ≠ index → timers[place]? = some one → one ∈ left)
    (bound : ∀ one ∈ left, trigger ≤ one.nextTriggerTime) : earliest left = some trigger := by
  obtain ⟨⟨one, member, same⟩, -⟩ := earliest_eq_some.mp first
  obtain ⟨place, found⟩ := mem_iff_getElem?.mp member
  have elsewhere : place ≠ index := by
    rintro rfl
    have equal : one = timer := by simpa [position] using found.symm
    exact other (equal ▸ same)
  exact earliest_eq_some.mpr ⟨⟨one, kept place one elsewhere found, same⟩, bound⟩

section

variable (consistent : service.Consistent)

include consistent

theorem reports_unregister (position : service.scheduledTimers[index]? = some timer) :
    service.Reports (service.unregisterTimer index timer) := by
  simp only [unregisterTimer]
  split
  · exact reports_compute rfl
  next other =>
    refine reports_silent rfl ?_
    have member := mem_of_getElem? position
    cases first : earliest service.scheduledTimers with
    | none => simp [earliest_eq_none.mp first] at member
    | some trigger =>
      have least := (earliest_eq_some.mp first).2
      rw [Consistent, consistent, first]
      rw [consistent, first] at other
      refine (earliest_of_others position first (fun same => other (congrArg some same)) ?_ ?_).symm
      · intro place one elsewhere found
        exact mem_eraseIdx_iff_getElem?.mpr ⟨place, elsewhere, found⟩
      · intro one inside
        exact least one (mem_of_mem_eraseIdx inside)

theorem reports_update (position : service.scheduledTimers[index]? = some timer)
    (updated : ArmedTimer) :
    service.Reports (service.updateTriggerTime index timer updated) := by
  simp only [updateTriggerTime]
  split
  · exact reports_compute rfl
  next unaffected =>
    refine reports_silent rfl ?_
    have member := mem_of_getElem? position
    cases first : earliest service.scheduledTimers with
    | none => simp [earliest_eq_none.mp first] at member
    | some trigger =>
      have least := (earliest_eq_some.mp first).2
      rw [mustUpdate, consistent, first] at unaffected
      have apart : trigger ≠ timer.nextTriggerTime ∧ trigger ≤ updated.nextTriggerTime := by
        simpa [sooner] using unaffected
      rw [Consistent, consistent, first]
      refine (earliest_of_others position first apart.1.symm ?_ ?_).symm
      · intro place one elsewhere found
        exact mem_of_getElem? (by rw [getElem?_set_ne (Ne.symm elsewhere), found])
      · intro one inside
        rcases mem_or_eq_of_mem_set inside with inside | same
        · exact least one inside
        · exact same ▸ apart.2

theorem reports_jumped (origin target : Int) : service.Reports (service.jumped origin target) := by
  simp only [jumped]
  split
  · exact reports_compute rfl
  next unaffected =>
    refine reports_silent rfl ?_
    have empty : service.scheduledTimers = [] := by
      by_contra armed
      obtain ⟨trigger, first⟩ := Option.ne_none_iff_exists'.mp (mt earliest_eq_none.mp armed)
      obtain ⟨⟨timer, member, same⟩, -⟩ := earliest_eq_some.mp first
      refine unaffected (any_eq_true.mpr ⟨timer, member, mustUpdate_self service timer _ ?_⟩)
      rw [consistent, first, same]
    rw [Consistent, consistent, empty]
    rfl

theorem reports_progressed (past : time ≤ now) :
    service.Reports (service.progressed now time).1 := by
  obtain ⟨timers, -, asked⟩ := progressedLoop_spec service past service.scheduledTimers.length
    service.scheduledTimers countP_le_length
  simp only [progressed]
  split
  · exact reports_compute rfl
  next quiet =>
    refine reports_silent rfl ?_
    have notDue : ∀ timer ∈ service.scheduledTimers, Due time timer = false := by
      intro timer member
      by_contra due
      have due : timer.nextTriggerTime ≤ time := by simpa [Due] using due
      cases first : earliest service.scheduledTimers with
      | none => simp [earliest_eq_none.mp first] at member
      | some trigger =>
        obtain ⟨⟨one, inside, same⟩, least⟩ := earliest_eq_some.mp first
        refine quiet (asked.mpr ⟨one, inside, ?_, .inl ?_⟩)
        · simp only [Due, decide_eq_true_eq, same]
          exact (least timer member).trans due
        · rw [consistent, first, same]
    have unchanged : service.scheduledTimers.filterMap (advance now time) = service.scheduledTimers :=
      (none_due now (countP_eq_zero.mpr fun timer member => by simp [notDue timer member])).1
    rw [Consistent, timers, unchanged]
    exact consistent

theorem progressed_changes {trigger : Int} (first : service.nextTrigger = some trigger)
    (reached : trigger ≤ time) (past : time ≤ now) :
    (service.progressed now time).1.2 = true := by
  obtain ⟨timers, -, asked⟩ := progressedLoop_spec service past service.scheduledTimers.length
    service.scheduledTimers countP_le_length
  obtain ⟨⟨one, inside, same⟩, -⟩ := earliest_eq_some.mp (consistent.symm.trans first)
  have updateNeeded := asked.mpr ⟨one, inside, by simpa [Due, same] using reached,
    .inl (by rw [first, same])⟩
  simp only [progressed, updateNeeded, if_pos, computeNextTrigger, bne_iff_ne, timers]
  intro unchanged
  rw [first, earliest_eq_some] at unchanged
  obtain ⟨⟨later, member, attained⟩, -⟩ := unchanged
  obtain ⟨timer, _, advanced⟩ := mem_filterMap.mp member
  simp only [advance] at advanced
  split at advanced
  · have after := computeNextTriggerTime_later advanced
    omega
  next notDue =>
    obtain rfl := Option.some.inj advanced
    simp only [Due, decide_eq_true_eq] at notDue
    omega

end

theorem progressed_idle (early : ∀ timer ∈ service.scheduledTimers, time < timer.nextTriggerTime) :
    service.progressed now time = ((service, false), []) := by
  have loop (fuel : Nat) : progressedLoop service now time fuel service.scheduledTimers =
      (service.scheduledTimers, [], false) := by
    cases fuel with
    | zero => rfl
    | succ fuel =>
      simp only [progressedLoop]
      split
      · rfl
      next index timer more scanned =>
        obtain ⟨due, -, front, back, split, -⟩ := scan_some scanned
        have later := early timer (by rw [split]; simp)
        simp only [Due, decide_eq_true_eq] at due
        omega
  simp only [progressed, loop]
  rfl

theorem progressed_ran (past : time ≤ now) :
    ∀ timer ∈ (service.progressed now time).2,
      timer ∈ service.scheduledTimers ∧ timer.nextTriggerTime ≤ time := by
  intro timer member
  obtain ⟨-, ran, -⟩ := progressedLoop_spec service past service.scheduledTimers.length
    service.scheduledTimers countP_le_length
  have inside := mem_filter.mp (ran.mem_iff.mp member)
  exact ⟨inside.1, by simpa [Due] using inside.2⟩

end TimerService

end Timer
