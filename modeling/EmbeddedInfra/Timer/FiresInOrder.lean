import EmbeddedInfra.Timer.TimerActions
import EmbeddedInfra.Runs
import Mathlib.Order.MinMax

/-! Timers are run in the order of their triggers, never early, and none that is due is left, as long
as the actions start no timer that is due too soon. -/

namespace Timer.Actions

open List
open Function (update_of_ne update_self)

/-- The minimum of the triggers of the timers in the list, or the maximum. -/
structure Lowest (clock : Clock) (s : TimerService) (value : Int) : Prop where
  bounded : value ≤ clock.maximum
  below : ∀ timer ∈ s.scheduledTimers, value ≤ s.trigger timer
  attained : value = clock.maximum ∨ ∃ timer ∈ s.scheduledTimers, s.trigger timer = value

/-- The list holds the armed timers, and `nextTrigger` is the lowest trigger unless an update is
needed. -/
structure Sound (clock : Clock) (s : TimerService) : Prop where
  listed : ∀ timer, timer ∈ s.scheduledTimers ↔ s.armed timer = true
  distinct : s.scheduledTimers.Nodup
  bounded : ∀ timer ∈ s.scheduledTimers, s.trigger timer ≤ clock.maximum
  next : s.updateNeeded = false → Lowest clock s s.nextTrigger
  settled : s.holdUpdate = false → s.updateNeeded = false

/-- Only this timer has changed: it is armed with this trigger, or not armed. -/
structure Changed (timer : Nat) (trigger : Option Int) (s t : TimerService) : Prop where
  others : ∀ other ≠ timer, t.trigger other = s.trigger other
  listed : ∀ other ≠ timer, (other ∈ t.scheduledTimers ↔ other ∈ s.scheduledTimers)
  here : timer ∈ t.scheduledTimers ↔ trigger.isSome
  trigger : ∀ time ∈ trigger, t.trigger timer = time
  held : t.holdUpdate = s.holdUpdate
  phase : t.phase = s.phase
  ran : t.ran = s.ran
  runs : t.runs = s.runs
  starts : t.starts = s.starts

theorem lowest_least (clock : Clock) (s : TimerService) : Lowest clock s (s.least clock.maximum) := by
  have loop : ∀ (timers : List Nat) (next : Int),
      let result := timers.foldl (fun next timer => min next (s.trigger timer)) next
      result ≤ next ∧ (∀ timer ∈ timers, result ≤ s.trigger timer) ∧
        (result = next ∨ ∃ timer ∈ timers, s.trigger timer = result) := by
    intro timers
    induction timers with
    | nil => simp
    | cons timer rest ih =>
      intro next
      have ⟨start, below, attained⟩ := ih (min next (s.trigger timer))
      refine ⟨start.trans (min_le_left _ _), ?_, ?_⟩
      · intro other member
        cases member with
        | head => exact start.trans (min_le_right _ _)
        | tail _ later => exact below other later
      · rcases attained with same | ⟨other, later, same⟩
        · rcases min_choice next (s.trigger timer) with isNext | isTrigger
          · exact .inl (same.trans isNext)
          · exact .inr ⟨timer, mem_cons_self, (same.trans isTrigger).symm⟩
        · exact .inr ⟨other, mem_cons_of_mem _ later, same⟩
  have ⟨bounded, below, attained⟩ := loop s.scheduledTimers clock.maximum
  exact ⟨bounded, below, attained⟩

variable {clock : Clock} {s t : TimerService} {timer : Nat}

theorem Lowest.congr {value : Int} (lowest : Lowest clock s value)
    (scheduled : t.scheduledTimers = s.scheduledTimers) (triggers : t.trigger = s.trigger) :
    Lowest clock t value where
  bounded := lowest.bounded
  below := by rw [scheduled, triggers]; exact lowest.below
  attained := by rw [scheduled, triggers]; exact lowest.attained

theorem computeNextTrigger_sound (listed : ∀ timer, timer ∈ s.scheduledTimers ↔ s.armed timer = true)
    (distinct : s.scheduledTimers.Nodup)
    (bounded : ∀ timer ∈ s.scheduledTimers, s.trigger timer ≤ clock.maximum) :
    Sound clock (s.computeNextTrigger clock) := by
  rw [TimerService.computeNextTrigger]
  split
  case isTrue held =>
    exact ⟨listed, distinct, bounded, nofun, fun free => absurd (held.symm.trans free) nofun⟩
  case isFalse =>
    exact ⟨listed, distinct, bounded, fun _ => (lowest_least clock s).congr rfl rfl, fun _ => rfl⟩

/-- The list and the timers, and everything else but the next trigger. -/
structure SameTimers (s t : TimerService) : Prop where
  timers : t.timers = s.timers
  scheduled : t.scheduledTimers = s.scheduledTimers
  held : t.holdUpdate = s.holdUpdate
  phase : t.phase = s.phase
  ran : t.ran = s.ran
  runs : t.runs = s.runs
  starts : t.starts = s.starts

theorem computeNextTrigger_same (clock : Clock) (s : TimerService) :
    SameTimers s (s.computeNextTrigger clock) := by
  rw [TimerService.computeNextTrigger]
  split <;> exact ⟨rfl, rfl, rfl, rfl, rfl, rfl, rfl⟩

theorem updateTriggerTime_same (clock : Clock) (s : TimerService) (timer : Nat) (old : Int) :
    SameTimers s (s.updateTriggerTime clock timer old) := by
  rw [TimerService.updateTriggerTime]
  split
  · exact computeNextTrigger_same clock s
  · exact ⟨rfl, rfl, rfl, rfl, rfl, rfl, rfl⟩

theorem Sound.withAction (sound : Sound clock s) (known : s.armed timer = true) (action : Nat) :
    Sound clock { s with
      timers := Function.update s.timers timer { s.timers timer with action := some action } } := by
  have triggers : TimerService.trigger { s with
      timers := Function.update s.timers timer { s.timers timer with action := some action } } =
        s.trigger := by
    funext other
    by_cases here : other = timer
    · simp [TimerService.trigger, here]
    · simp [TimerService.trigger, here]
  have armed : TimerService.armed { s with
      timers := Function.update s.timers timer { s.timers timer with action := some action } } =
        s.armed := by
    funext other
    by_cases here : other = timer
    · rw [here, known]
      simp [TimerService.armed]
    · simp [TimerService.armed, here]
  constructor
  · rw [armed]
    exact sound.listed
  · exact sound.distinct
  · rw [triggers]
    exact sound.bounded
  · intro updated
    exact (sound.next updated).congr rfl triggers
  · exact sound.settled

theorem Sound.update (sound : Sound clock s) (known : s.armed timer = true) {time : Int}
    (bounded : time ≤ clock.maximum) :
    Sound clock (TimerService.updateTriggerTime clock { s with
      timers := Function.update s.timers timer { s.timers timer with nextTriggerTime := time } }
      timer (s.trigger timer)) := by
  have here : timer ∈ s.scheduledTimers := (sound.listed timer).mpr known
  generalize changed : { s with
    timers := Function.update s.timers timer { s.timers timer with nextTriggerTime := time } } = t
  have timers : t.timers =
      Function.update s.timers timer { s.timers timer with nextTriggerTime := time } := by
    rw [← changed]
  have scheduled : t.scheduledTimers = s.scheduledTimers := by rw [← changed]
  have own : t.trigger timer = time := by simp [TimerService.trigger, timers]
  have others : ∀ other ≠ timer, t.trigger other = s.trigger other := by
    intro other differs
    simp [TimerService.trigger, timers, differs]
  have armed : t.armed = s.armed := by
    funext other
    by_cases same : other = timer
    · simp [TimerService.armed, timers, same]
    · simp [TimerService.armed, timers, same]
  have listed : ∀ timer, timer ∈ t.scheduledTimers ↔ t.armed timer = true := by
    rw [scheduled, armed]
    exact sound.listed
  have distinct : t.scheduledTimers.Nodup := scheduled ▸ sound.distinct
  have allBounded : ∀ timer ∈ t.scheduledTimers, t.trigger timer ≤ clock.maximum := by
    intro other member
    by_cases same : other = timer
    · rw [same, own]
      exact bounded
    · rw [others other same]
      exact sound.bounded other (scheduled ▸ member)
  rw [TimerService.updateTriggerTime]
  split
  case isTrue => exact computeNextTrigger_sound listed distinct allBounded
  case isFalse kept =>
    have ⟨notOld, notBelow⟩ := not_or.mp kept
    have next : t.nextTrigger = s.nextTrigger := by rw [← changed]
    refine ⟨listed, distinct, allBounded, ?_, by rw [← changed]; exact sound.settled⟩
    intro updated
    have lowest := sound.next (by rw [← changed] at updated; exact updated)
    rw [next, own] at notBelow
    rw [next] at notOld ⊢
    refine ⟨lowest.bounded, ?_, ?_⟩
    · intro other member
      by_cases same : other = timer
      · rw [same, own]
        exact Int.not_lt.mp notBelow
      · rw [others other same]
        exact lowest.below other (scheduled ▸ member)
    · rcases lowest.attained with top | ⟨other, member, attains⟩
      · exact .inl top
      · have differs : other ≠ timer := fun same => notOld (same ▸ attains.symm)
        exact .inr ⟨other, scheduled ▸ member, (others other differs).trans attains⟩

theorem Sound.register (sound : Sound clock s) (unknown : s.armed timer = false) {time : Int}
    (bounded : time ≤ clock.maximum) (action : Nat) :
    Sound clock { s with
      timers := Function.update s.timers timer
        { s.timers timer with nextTriggerTime := time, action := some action }
      scheduledTimers := timer :: s.scheduledTimers
      nextTrigger := if time < s.nextTrigger then time else s.nextTrigger } := by
  have absent : timer ∉ s.scheduledTimers := fun member =>
    absurd (unknown.symm.trans ((sound.listed timer).mp member)) Bool.false_ne_true
  have others : ∀ other ∈ s.scheduledTimers, other ≠ timer := fun other member same =>
    absent (same ▸ member)
  constructor
  · intro other
    by_cases same : other = timer
    · simp [TimerService.armed, same]
    · simpa [TimerService.armed, same] using sound.listed other
  · exact nodup_cons.mpr ⟨absent, sound.distinct⟩
  · intro other member
    cases member with
    | head => simpa [TimerService.trigger] using bounded
    | tail _ later => simpa [TimerService.trigger, others other later] using sound.bounded other later
  · intro updated
    have lowest := sound.next updated
    refine ⟨?_, ?_, ?_⟩
    · dsimp only
      split
      · exact bounded
      · exact lowest.bounded
    · intro other member
      dsimp only
      cases member with
      | head =>
        simp only [TimerService.trigger, update_self]
        split
        · exact le_rfl
        case isFalse notBelow => exact Int.not_lt.mp notBelow
      | tail _ later =>
        have below := lowest.below other later
        simp only [TimerService.trigger, update_of_ne (others other later)] at below ⊢
        split
        case isTrue less => exact less.le.trans below
        · exact below
    · dsimp only
      split
      · exact .inr ⟨timer, mem_cons_self, by simp [TimerService.trigger]⟩
      · rcases lowest.attained with top | ⟨other, member, attains⟩
        · exact .inl top
        · refine .inr ⟨other, mem_cons_of_mem _ member, ?_⟩
          simpa [TimerService.trigger, others other member] using attains
  · exact sound.settled

theorem Sound.reset {next : TimerService} (sound : Sound clock next) {time : Int}
    (unchanged : SameTimers { s with
      timers := Function.update s.timers timer { s.timers timer with nextTriggerTime := time } } next)
    (listed : timer ∈ s.scheduledTimers) (action : Nat) :
    Sound clock { next with
      timers := Function.update next.timers timer { next.timers timer with action := some action } } ∧
    Changed timer (some time) s { next with
      timers := Function.update next.timers timer
        { next.timers timer with action := some action } } := by
  have still : next.armed timer = true := by
    rw [← sound.listed, unchanged.scheduled]
    exact listed
  refine ⟨sound.withAction still action, ?_⟩
  constructor
  case others => exact fun other differs => by simp [TimerService.trigger, unchanged.timers, differs]
  case listed => exact fun other _ => by rw [unchanged.scheduled]
  case here => simp [unchanged.scheduled, listed]
  case trigger =>
    intro value isTime
    rw [← Option.some.inj isTime]
    simp [TimerService.trigger, unchanged.timers]
  case held => exact unchanged.held
  case phase => exact unchanged.phase
  case ran => exact unchanged.ran
  case runs => exact unchanged.runs
  case starts => exact unchanged.starts

variable {action : Nat} {more : Bool} {trigger now origin target : Int}

theorem setNextTriggerTime_spec (sound : Sound clock s) {time : Int}
    (sets : s.setNextTriggerTime clock timer time action = some t) :
    Sound clock t ∧ Changed timer (some time) s t := by
  rw [TimerService.setNextTriggerTime] at sets
  split at sets
  · exact nomatch sets
  case isFalse notAbove =>
    have bounded : time ≤ clock.maximum := Int.not_lt.mp notAbove
    dsimp only at sets
    split at sets
    case h_1 known =>
      have unknown : s.armed timer = false := by rw [TimerService.armed, known]; rfl
      have registered := sound.register unknown bounded action
      have same : t = { s with
          timers := Function.update s.timers timer
            { s.timers timer with nextTriggerTime := time, action := some action }
          scheduledTimers := timer :: s.scheduledTimers
          nextTrigger := if time < s.nextTrigger then time else s.nextTrigger } := by
        rw [← Option.some.inj sets]
        simp only [TimerService.registerTimer, TimerService.trigger, update_self]
        split <;> simp
      rw [same]
      refine ⟨registered, ?_⟩
      constructor
      case others => exact fun other differs => by simp [TimerService.trigger, differs]
      case listed => exact fun other differs => by simp [differs]
      case here => simp
      case trigger =>
        intro value isTime
        rw [← Option.some.inj isTime]
        simp [TimerService.trigger]
      all_goals rfl
    case h_2 before known =>
      have armed : s.armed timer = true := by rw [TimerService.armed, known]; rfl
      have unchanged := updateTriggerTime_same clock { s with
        timers := Function.update s.timers timer
          { s.timers timer with nextTriggerTime := time } } timer (s.trigger timer)
      rw [← Option.some.inj sets]
      exact (sound.update armed bounded).reset unchanged ((sound.listed timer).mpr armed) action

theorem Sound.leave (sound : Sound clock s) (timer : Nat) (value : Timer)
    (idle : value.action = none) {next : Int} {updateNeeded : Bool}
    (kept : updateNeeded = false →
      (timer ∈ s.scheduledTimers → s.trigger timer ≠ s.nextTrigger) ∧ next = s.nextTrigger ∧
        s.updateNeeded = false ∨
      next = { s with scheduledTimers := s.scheduledTimers.erase timer }.least clock.maximum)
    (settled : s.holdUpdate = false → updateNeeded = false) :
    Sound clock { s with
      timers := Function.update s.timers timer value
      scheduledTimers := s.scheduledTimers.erase timer
      nextTrigger := next
      updateNeeded := updateNeeded } := by
  have others : ∀ other ∈ s.scheduledTimers.erase timer, other ≠ timer := fun other member =>
    ((sound.distinct.mem_erase_iff).mp member).1
  have triggers : ∀ other ∈ s.scheduledTimers.erase timer,
      (Function.update s.timers timer value other).nextTriggerTime = s.trigger other := by
    intro other member
    rw [update_of_ne (others other member)]
    rfl
  constructor
  · intro other
    dsimp only
    rw [sound.distinct.mem_erase_iff]
    by_cases same : other = timer
    · simp [TimerService.armed, same, idle]
    · simpa [TimerService.armed, same] using sound.listed other
  · exact sound.distinct.erase timer
  · intro other member
    exact (triggers other member).le.trans (sound.bounded other (mem_of_mem_erase member))
  · intro updated
    rcases kept updated with ⟨notNext, same, needed⟩ | computed
    · have lowest := sound.next needed
      subst same
      refine ⟨lowest.bounded, ?_, ?_⟩
      · intro other member
        exact (lowest.below other (mem_of_mem_erase member)).trans (triggers other member).ge
      · rcases lowest.attained with top | ⟨other, member, attains⟩
        · exact .inl top
        · have differs : other ≠ timer := fun same => notNext (same ▸ member) (same ▸ attains)
          have stays := (mem_erase_of_ne differs).mpr member
          exact .inr ⟨other, stays, (triggers other stays).trans attains⟩
    · have lowest := lowest_least clock
        { s with scheduledTimers := s.scheduledTimers.erase timer }
      rw [← computed] at lowest
      refine ⟨lowest.bounded, ?_, ?_⟩
      · intro other member
        exact (lowest.below other member).trans (triggers other member).ge
      · rcases lowest.attained with top | ⟨other, member, attains⟩
        · exact .inl top
        · exact .inr ⟨other, member, (triggers other member).trans attains⟩
  · exact settled

theorem changed_leave {value : Timer} (distinct : s.scheduledTimers.Nodup)
    (timers : t.timers = Function.update s.timers timer value)
    (scheduled : t.scheduledTimers = s.scheduledTimers.erase timer)
    (held : t.holdUpdate = s.holdUpdate) (phase : t.phase = s.phase) (ran : t.ran = s.ran)
    (runs : t.runs = s.runs) (starts : t.starts = s.starts) : Changed timer none s t where
  others := fun other differs => by simp [TimerService.trigger, timers, differs]
  listed := fun other differs => by simp [scheduled, mem_erase_of_ne differs]
  here := by simp [scheduled, distinct.mem_erase_iff]
  trigger := nofun
  held := held
  phase := phase
  ran := ran
  runs := runs
  starts := starts

theorem cancel_spec (sound : Sound clock s) (timer : Nat) :
    Sound clock (s.cancel clock timer) ∧ Changed timer none s (s.cancel clock timer) := by
  cases known : (s.timers timer).action with
  | none =>
    have absent : timer ∉ s.scheduledTimers := by
      rw [sound.listed, TimerService.armed, known]
      exact Bool.false_ne_true
    have left := sound.leave timer { s.timers timer with nextTriggerTime := 0, action := none } rfl
      (fun needed => .inl ⟨fun member => absurd member absent, rfl, needed⟩) sound.settled
    rw [erase_of_not_mem absent] at left
    simp only [TimerService.cancel, known]
    refine ⟨left, ?_⟩
    exact changed_leave sound.distinct rfl (erase_of_not_mem absent).symm rfl rfl rfl rfl rfl
  | some action =>
    simp only [TimerService.cancel, known, TimerService.unregisterTimer,
      TimerService.computeNextTrigger]
    split
    case isTrue =>
      split
      case isTrue held =>
        refine ⟨sound.leave timer _ rfl nofun fun free => ?_, ?_⟩
        · exact absurd (held.symm.trans free) nofun
        · exact changed_leave sound.distinct rfl rfl rfl rfl rfl rfl rfl
      case isFalse =>
        refine ⟨sound.leave timer _ rfl (fun _ => .inr rfl) fun _ => rfl, ?_⟩
        exact changed_leave sound.distinct rfl rfl rfl rfl rfl rfl rfl
    case isFalse differs =>
      refine ⟨sound.leave timer _ rfl (fun needed => .inl ⟨fun _ => differs, rfl, needed⟩)
        sound.settled, ?_⟩
      exact changed_leave sound.distinct rfl rfl rfl rfl rfl rfl rfl

/-! ### The pass of `Progressed` -/

def Due (s : TimerService) (time : Int) (timer : Nat) : Prop :=
  timer ∈ s.scheduledTimers ∧ s.trigger timer ≤ time

def Found (s : TimerService) (time : Int) (seen : List Nat) (earliest : Option Nat) (more : Bool) :
    Prop :=
  match earliest with
  | none => more = false ∧ ∀ timer ∈ seen, time < s.trigger timer
  | some first =>
    first ∈ seen ∧ s.trigger first ≤ time ∧
      (∀ timer ∈ seen, s.trigger timer ≤ time → s.trigger first ≤ s.trigger timer) ∧
      (more = false → ∀ timer ∈ seen, s.trigger timer ≤ time → timer = first)

theorem findEarliest_found {time : Int} (rest : List Nat) {seen : List Nat} {earliest : Option Nat}
    (found : Found s time seen earliest more) :
    Found s time (seen ++ rest) (s.findEarliest time rest earliest more).1
      (s.findEarliest time rest earliest more).2 := by
  induction rest generalizing seen earliest more with
  | nil => simpa [TimerService.findEarliest] using found
  | cons current rest ih =>
    have grown : seen ++ current :: rest = (seen ++ [current]) ++ rest := by simp
    rw [grown]
    unfold TimerService.findEarliest
    split
    case isFalse notDue =>
      apply ih
      cases earliest with
      | none =>
        refine ⟨found.1, ?_⟩
        intro timer member
        rcases mem_append.mp member with before | last
        · exact found.2 timer before
        · rw [mem_singleton.mp last]
          exact Int.not_le.mp notDue
      | some first =>
        have ⟨inside, due, lowest, only⟩ := found
        refine ⟨mem_append_left _ inside, due, ?_, ?_⟩
        · intro timer member isDue
          rcases mem_append.mp member with before | last
          · exact lowest timer before isDue
          · exact absurd (mem_singleton.mp last ▸ isDue) notDue
        · intro single timer member isDue
          rcases mem_append.mp member with before | last
          · exact only single timer before isDue
          · exact absurd (mem_singleton.mp last ▸ isDue) notDue
    case isTrue due =>
      cases earliest with
      | none =>
        apply ih
        refine ⟨by simp, due, ?_, ?_⟩
        · intro timer member isDue
          rcases mem_append.mp member with before | last
          · exact absurd isDue (Int.not_le.mpr (found.2 timer before))
          · rw [mem_singleton.mp last]
        · intro _ timer member isDue
          rcases mem_append.mp member with before | last
          · exact absurd isDue (Int.not_le.mpr (found.2 timer before))
          · exact mem_singleton.mp last
      | some first =>
        have ⟨inside, firstDue, lowest, _⟩ := found
        apply ih
        split
        case isTrue earlier =>
          refine ⟨by simp, due, ?_, nofun⟩
          intro timer member isDue
          rcases mem_append.mp member with before | last
          · exact earlier.le.trans (lowest timer before isDue)
          · rw [mem_singleton.mp last]
        case isFalse notEarlier =>
          refine ⟨mem_append_left _ inside, firstDue, ?_, nofun⟩
          intro timer member isDue
          rcases mem_append.mp member with before | last
          · exact lowest timer before isDue
          · rw [mem_singleton.mp last]
            exact Int.not_lt.mp notEarlier

theorem findEarliest_spec (s : TimerService) (time : Int) :
    Found s time s.scheduledTimers (s.findEarliest time s.scheduledTimers none false).1
      (s.findEarliest time s.scheduledTimers none false).2 := by
  have start : Found s time [] none false := ⟨rfl, by simp⟩
  exact findEarliest_found s.scheduledTimers start

/-! ### Runs -/

def inTurn (time : Int) (more : Bool) (trigger : Int) : Option Int → Bool
  | none => true
  | some new => decide (time < new) || more && decide (trigger ≤ new)

/-- What an action starts is due after the time of `Progressed`; or it is in turn. So is the next
trigger that a repeating timer computes. -/
def meets (clock : Clock) (s : TimerService) : Step → Bool
  | .call call =>
    match s.phase with
    | .acting time more trigger => inTurn time more trigger (call.sets clock)
    | _ => true
  | .pass now =>
    match s.phase with
    | .looping time =>
      match s.findEarliest time s.scheduledTimers none false with
      | (some timer, more) =>
        clock.kind timer = .singleShot ||
          inTurn time more (s.trigger timer) (s.nextPeriod timer now)
      | (none, _) => true
    | _ => true
  | _ => true

/-- What a phase of `Progressed` knows. -/
def Ordered (s : TimerService) : Phase → Prop
  | .idle => s.holdUpdate = false
  | .looping time => s.holdUpdate = true ∧
      ∀ run ∈ s.ran, ∀ timer, Due s time timer → run.trigger ≤ s.trigger timer
  | .acting time more trigger => s.holdUpdate = true ∧ (∀ run ∈ s.ran, run.trigger ≤ trigger) ∧
      (∀ timer, Due s time timer → trigger ≤ s.trigger timer) ∧
      (more = false → ∀ timer, ¬Due s time timer)

structure Firing (clock : Clock) (s : TimerService) : Prop extends Sound clock s where
  order : Ordered s s.phase
  ordered : s.ran.Pairwise (·.trigger ≤ ·.trigger)
  early : ∀ run ∈ s.ran, run.trigger ≤ run.time
  counts : ∀ timer, clock.kind timer = .singleShot →
    s.runs timer + (if timer ∈ s.scheduledTimers then 1 else 0) ≤ s.starts timer

theorem Changed.member {new : Option Int} (changed : Changed timer new s t) {other : Nat}
    (member : other ∈ t.scheduledTimers) :
    other ≠ timer ∧ other ∈ s.scheduledTimers ∧ t.trigger other = s.trigger other ∨
      other = timer ∧ new = some (t.trigger other) := by
  by_cases same : other = timer
  · subst same
    have ⟨time, isTime⟩ := Option.isSome_iff_exists.mp (changed.here.mp member)
    exact .inr ⟨rfl, by rw [isTime, changed.trigger time isTime]⟩
  · exact .inl ⟨same, (changed.listed other same).mp member, changed.others other same⟩

structure Performed (sets : Option Int) (s t : TimerService) : Prop where
  held : t.holdUpdate = s.holdUpdate
  phase : t.phase = s.phase
  ran : t.ran = s.ran
  member : ∀ other ∈ t.scheduledTimers,
    other ∈ s.scheduledTimers ∧ t.trigger other = s.trigger other ∨ sets = some (t.trigger other)
  counts : ∀ other, t.runs other + (if other ∈ t.scheduledTimers then 1 else 0) + s.starts other ≤
    s.runs other + (if other ∈ s.scheduledTimers then 1 else 0) + t.starts other

theorem Performed.refl (sets : Option Int) (s : TimerService) : Performed sets s s :=
  ⟨rfl, rfl, rfl, fun _ member => .inl ⟨member, rfl⟩, fun _ => le_rfl⟩

theorem Changed.cancelled (changed : Changed timer none s t) (sets : Option Int) :
    Performed sets s t where
  held := changed.held
  phase := changed.phase
  ran := changed.ran
  member := by
    intro other member
    rcases changed.member member with ⟨_, before, same⟩ | ⟨_, new⟩
    · exact .inl ⟨before, same⟩
    · exact nomatch new
  counts := by
    intro other
    rw [changed.runs, changed.starts]
    by_cases member : other ∈ t.scheduledTimers
    · rcases changed.member member with ⟨_, before, _⟩ | ⟨_, new⟩
      · simp [member, before]
      · exact nomatch new
    · simp only [member, if_false]
      omega

theorem Changed.started {time : Int} (changed : Changed timer (some time) s t) :
    Performed (some time) s
      { t with starts := Function.update t.starts timer (t.starts timer + 1) } where
  held := changed.held
  phase := changed.phase
  ran := changed.ran
  member := by
    intro other member
    rcases changed.member member with ⟨_, before, same⟩ | ⟨_, new⟩
    · exact .inl ⟨before, same⟩
    · exact .inr new
  counts := by
    intro other
    by_cases same : other = timer
    · subst same
      simp only [changed.runs, changed.starts, update_self]
      split <;> split <;> omega
    · simp only [changed.runs, changed.starts, update_of_ne same, changed.listed other same]
      exact le_rfl

theorem started_spec (sound : Sound clock s) {time : Int}
    (starts : s.started clock timer time action = some t) :
    Sound clock t ∧ Performed (some time) s t := by
  have ⟨next, sets, same⟩ := Option.map_eq_some_iff.mp starts
  have ⟨nextSound, changed⟩ := setNextTriggerTime_spec sound sets
  rw [← same]
  refine ⟨⟨nextSound.listed, nextSound.distinct, nextSound.bounded, ?_, nextSound.settled⟩,
    changed.started⟩
  exact fun updated => (nextSound.next updated).congr rfl rfl

theorem withPeriod_spec (sound : Sound clock s) (timer : Nat) (period : Int) :
    Sound clock { s with
      timers := Function.update s.timers timer { s.timers timer with triggerPeriod := period } } ∧
    TimerService.trigger { s with
      timers := Function.update s.timers timer { s.timers timer with triggerPeriod := period } } =
        s.trigger := by
  have triggers : TimerService.trigger { s with
      timers := Function.update s.timers timer { s.timers timer with triggerPeriod := period } } =
        s.trigger := by
    funext other
    by_cases here : other = timer
    · simp [TimerService.trigger, here]
    · simp [TimerService.trigger, here]
  have armed : TimerService.armed { s with
      timers := Function.update s.timers timer { s.timers timer with triggerPeriod := period } } =
        s.armed := by
    funext other
    by_cases here : other = timer
    · simp [TimerService.armed, here]
    · simp [TimerService.armed, here]
  refine ⟨⟨?_, sound.distinct, ?_, ?_, sound.settled⟩, triggers⟩
  · rw [armed]
    exact sound.listed
  · rw [triggers]
    exact sound.bounded
  · intro updated
    exact (sound.next updated).congr rfl triggers

theorem perform_spec (sound : Sound clock s) {call : Call} (performs : s.perform clock call = some t) :
    Sound clock t ∧ Performed (call.sets clock) s t := by
  unfold TimerService.perform at performs
  cases call with
  | startAt timer time action =>
    dsimp only at performs
    split at performs
    · exact nomatch performs
    split at performs
    case h_1 new sets => exact sets ▸ started_spec sound performs
    case h_2 sets =>
      have ⟨next, changed⟩ := cancel_spec sound timer
      rw [← Option.some.inj performs]
      exact ⟨next, changed.cancelled _⟩
  | startAfter timer duration checked now action =>
    dsimp only at performs
    split at performs
    · exact nomatch performs
    split at performs
    case h_1 new sets => exact sets ▸ started_spec sound performs
    case h_2 sets =>
      rw [← Option.some.inj performs]
      exact ⟨sound, .refl _ s⟩
  | startRepeating timer duration now action =>
    dsimp only [Call.sets] at performs ⊢
    split at performs
    · exact nomatch performs
    have ⟨given, triggers⟩ := withPeriod_spec sound timer duration
    have ⟨next, performed⟩ := started_spec given performs
    refine ⟨next, performed.held, performed.phase, performed.ran, ?_, performed.counts⟩
    intro other member
    rw [← triggers]
    exact performed.member other member
  | cancel timer =>
    have ⟨next, changed⟩ := cancel_spec sound timer
    rw [← Option.some.inj performs]
    exact ⟨next, changed.cancelled _⟩

/-! ### Steps -/

theorem inTurn_due {time new : Int} (turn : inTurn time more trigger (some new) = true)
    (due : new ≤ time) :
    more = true ∧ trigger ≤ new := by
  rw [inTurn, decide_eq_false (Int.not_lt.mpr due), Bool.false_or, Bool.and_eq_true,
    decide_eq_true_eq] at turn
  exact turn

theorem Firing.call (firing : Firing clock s) {call : Call}
    (meet : meets clock s (.call call) = true) (steps : s.step clock (.call call) = some t) :
    Firing clock t := by
  have performs : s.perform clock call = some t ∧ ∀ time, s.phase ≠ .looping time := by
    rw [TimerService.step] at steps
    split at steps
    · exact nomatch steps
    case h_2 notLooping => exact ⟨steps, notLooping⟩
  have ⟨sound, performed⟩ := perform_spec firing.toSound performs.1
  constructor
  case toSound => exact sound
  case order =>
    rw [performed.phase]
    have before := firing.order
    cases phase : s.phase with
    | idle =>
      rw [phase] at before
      exact performed.held.trans before
    | looping time => exact absurd phase (performs.2 time)
    | acting time more trigger =>
      rw [phase] at before
      have ⟨held, past, later, alone⟩ := before
      rw [meets, phase] at meet
      dsimp only at meet
      refine ⟨performed.held.trans held, performed.ran ▸ past, ?_, ?_⟩
      · intro other ⟨member, due⟩
        rcases performed.member other member with ⟨listed, same⟩ | new
        · rw [same] at due ⊢
          exact later other ⟨listed, due⟩
        · exact (inTurn_due (new ▸ meet) due).2
      · intro single other ⟨member, due⟩
        rcases performed.member other member with ⟨listed, same⟩ | new
        · exact alone single other ⟨listed, same ▸ due⟩
        · exact Bool.false_ne_true (single.symm.trans (inTurn_due (new ▸ meet) due).1)
  case ordered =>
    rw [performed.ran]
    exact firing.ordered
  case early =>
    rw [performed.ran]
    exact firing.early
  case counts =>
    intro other kind
    have before := firing.counts other kind
    have counted := performed.counts other
    omega

theorem finished_same (clock : Clock) (s : TimerService) :
    (s.finished clock).timers = s.timers ∧ (s.finished clock).scheduledTimers = s.scheduledTimers ∧
      (s.finished clock).holdUpdate = false ∧ (s.finished clock).phase = .idle ∧
      (s.finished clock).ran = s.ran ∧ (s.finished clock).runs = s.runs ∧
      (s.finished clock).starts = s.starts := by
  rw [TimerService.finished]
  dsimp only
  split
  · have same := computeNextTrigger_same clock { s with holdUpdate := false, phase := .idle }
    exact ⟨same.timers, same.scheduled, same.held, same.phase, same.ran, same.runs, same.starts⟩
  · exact ⟨rfl, rfl, rfl, rfl, rfl, rfl, rfl⟩

theorem Sound.finished (sound : Sound clock s) : Sound clock (s.finished clock) := by
  rw [TimerService.finished]
  dsimp only
  split
  case isTrue => exact computeNextTrigger_sound sound.listed sound.distinct sound.bounded
  case isFalse needed =>
    have settled : s.updateNeeded = false := Bool.not_eq_true _ ▸ needed
    exact ⟨sound.listed, sound.distinct, sound.bounded,
      fun updated => (sound.next updated).congr rfl rfl, fun _ => settled⟩

theorem Firing.finished (firing : Firing clock s) : Firing clock (s.finished clock) := by
  have ⟨_, scheduled, held, phase, ran, runs, starts⟩ := finished_same clock s
  constructor
  case toSound => exact firing.toSound.finished
  case order =>
    rw [phase]
    exact held
  case ordered =>
    rw [ran]
    exact firing.ordered
  case early =>
    rw [ran]
    exact firing.early
  case counts =>
    rw [scheduled, runs, starts]
    exact firing.counts

theorem Firing.progressed (firing : Firing clock s) (time : Int) :
    Firing clock { s with holdUpdate := true, phase := .looping time, ran := [] } where
  listed := firing.listed
  distinct := firing.distinct
  bounded := firing.bounded
  next := fun updated => (firing.next updated).congr rfl rfl
  settled := nofun
  order := ⟨rfl, nofun⟩
  ordered := List.Pairwise.nil
  early := nofun
  counts := firing.counts

theorem computeNextTriggerTime_spec (sound : Sound clock s)
    (computes : s.computeNextTriggerTime clock timer now action = some t) :
    Sound clock t ∧ (clock.kind timer = .singleShot ∧ Changed timer none s t ∨
      clock.kind timer = .repeating ∧ ∃ time, s.nextPeriod timer now = some time ∧
        Changed timer (some time) s t) := by
  rw [TimerService.computeNextTriggerTime] at computes
  split at computes
  case h_1 kind =>
    have ⟨next, changed⟩ := cancel_spec sound timer
    rw [← Option.some.inj computes]
    exact ⟨next, .inl ⟨kind, changed⟩⟩
  case h_2 kind =>
    split at computes
    · exact nomatch computes
    case h_2 time computed =>
      have ⟨next, changed⟩ := setNextTriggerTime_spec sound computes
      exact ⟨next, .inr ⟨kind, time, computed, changed⟩⟩

theorem Firing.pass (firing : Firing clock s) {time : Int} (looping : s.phase = .looping time)
    (meet : meets clock s (.pass now) = true) (passes : s.pass clock time now = some t) :
    Firing clock t ∧ (t.phase = .idle → ∀ timer, ¬Due t time timer) := by
  have ⟨held, past⟩ : Ordered s (.looping time) := looping ▸ firing.order
  have found := findEarliest_spec s time
  rw [meets, looping] at meet
  dsimp only at meet
  rw [TimerService.pass] at passes
  generalize s.findEarliest time s.scheduledTimers none false = result at found meet passes
  have ⟨earliest, more⟩ := result
  cases earliest with
  | none =>
    have ⟨(single : more = false), nothing⟩ := found
    simp only [single, Bool.false_eq_true, if_false, Option.some.injEq] at passes
    rw [← passes]
    have ⟨timers, scheduled, _⟩ := finished_same clock s
    refine ⟨firing.finished, ?_⟩
    intro _ timer ⟨member, due⟩
    rw [scheduled] at member
    rw [TimerService.trigger, timers] at due
    exact absurd due (Int.not_le.mpr (nothing timer member))
  | some timer =>
    have ⟨member, due, lowest, only⟩ := found
    dsimp only at passes meet
    split at passes
    · exact nomatch passes
    case h_2 action armed =>
      have ⟨next, computes, same⟩ := Option.map_eq_some_iff.mp passes
      have ⟨sound, kinds⟩ := computeNextTriggerTime_spec firing.toSound computes
      have changes : ∃ new, Changed timer new s next ∧
          inTurn time more (s.trigger timer) new = true ∧
            (clock.kind timer = .singleShot → new = none) := by
        rcases kinds with ⟨kind, changed⟩ | ⟨kind, trigger, computed, changed⟩
        · exact ⟨none, changed, rfl, fun _ => rfl⟩
        · rw [kind, computed] at meet
          refine ⟨some trigger, changed, by simpa using meet, fun single => ?_⟩
          exact nomatch kind.symm.trans single
      have ⟨new, changed, turn, once⟩ := changes
      have later : ∀ other, Due next time other →
          s.trigger timer ≤ next.trigger other ∧ more = true := by
        intro other ⟨listed, isDue⟩
        rcases changed.member listed with ⟨differs, before, unchanged⟩ | ⟨_, isNew⟩
        · rw [unchanged] at isDue ⊢
          refine ⟨lowest other before isDue, ?_⟩
          by_contra single
          exact differs (only (Bool.not_eq_true _ ▸ single) other before isDue)
        · have ⟨several, after⟩ := inTurn_due (isNew ▸ turn) isDue
          exact ⟨after, several⟩
      rw [← same]
      refine ⟨?_, nofun⟩
      constructor
      case toSound =>
        exact ⟨sound.listed, sound.distinct, sound.bounded,
          fun updated => (sound.next updated).congr rfl rfl, sound.settled⟩
      case order =>
        refine ⟨changed.held.trans held, ?_, fun other isDue => (later other isDue).1, ?_⟩
        · intro run ran
          rcases mem_append.mp ran with before | last
          · rw [changed.ran] at before
            exact past run before timer ⟨member, due⟩
          · rw [mem_singleton.mp last]
        · intro single other isDue
          exact Bool.false_ne_true (single.symm.trans (later other isDue).2)
      case ordered =>
        dsimp only
        rw [changed.ran, pairwise_append]
        refine ⟨firing.ordered, pairwise_singleton _ _, ?_⟩
        intro run before last isLast
        rw [mem_singleton.mp isLast]
        exact past run before timer ⟨member, due⟩
      case early =>
        intro run ran
        rcases mem_append.mp ran with before | last
        · rw [changed.ran] at before
          exact firing.early run before
        · rw [mem_singleton.mp last]
          exact due
      case counts =>
        intro other kind
        have before := firing.counts other kind
        dsimp only
        by_cases isTimer : other = timer
        · subst isTimer
          have gone : other ∉ next.scheduledTimers := by
            rw [changed.here, once kind]
            exact Bool.false_ne_true
          rw [if_pos member] at before
          rw [if_neg gone, update_self, changed.runs, changed.starts]
          exact before
        · rw [update_of_ne isTimer, changed.runs, changed.starts]
          simpa only [changed.listed other isTimer] using before

theorem Firing.returned (firing : Firing clock s) {time : Int}
    (acting : s.phase = .acting time more trigger) :
    let t := if more then { s with phase := .looping time } else s.finished clock
    Firing clock t ∧ (t.phase = .idle → ∀ timer, ¬Due t time timer) := by
  have ⟨held, past, later, alone⟩ : Ordered s (.acting time more trigger) := acting ▸ firing.order
  cases more with
  | true =>
    refine ⟨?_, nofun⟩
    constructor
    case toSound =>
      exact ⟨firing.listed, firing.distinct, firing.bounded,
        fun updated => (firing.next updated).congr rfl rfl, firing.settled⟩
    case order => exact ⟨held, fun run ran timer due => (past run ran).trans (later timer due)⟩
    case ordered => exact firing.ordered
    case early => exact firing.early
    case counts => exact firing.counts
  | false =>
    have ⟨timers, scheduled, _⟩ := finished_same clock s
    refine ⟨firing.finished, ?_⟩
    intro _ timer ⟨member, due⟩
    simp only [Bool.false_eq_true, if_false] at member due
    rw [scheduled] at member
    rw [TimerService.trigger, timers] at due
    exact alone rfl timer ⟨member, due⟩

theorem jumpAll_spec (timers : List Nat) (sound : Sound clock s)
    (jumps : s.jumpAll clock origin target timers = some t) :
    Sound clock t ∧ (∀ timer, timer ∈ t.scheduledTimers ↔ timer ∈ s.scheduledTimers) ∧
      t.ran = s.ran ∧ t.runs = s.runs ∧ t.starts = s.starts := by
  induction timers generalizing s with
  | nil =>
    cases Option.some.inj jumps
    exact ⟨sound, fun _ => Iff.rfl, rfl, rfl, rfl⟩
  | cons timer rest ih =>
    rw [TimerService.jumpAll] at jumps
    split at jumps
    · exact nomatch jumps
    case h_2 action known =>
      have ⟨next, sets, remaining⟩ := Option.bind_eq_some_iff.mp jumps
      have ⟨nextSound, changed⟩ := setNextTriggerTime_spec sound sets
      have ⟨last, listed, ran, runs, starts⟩ := ih nextSound remaining
      have here : timer ∈ s.scheduledTimers := by
        rw [sound.listed, TimerService.armed, known]
        rfl
      refine ⟨last, ?_, ran.trans changed.ran, runs.trans changed.runs,
        starts.trans changed.starts⟩
      intro other
      rw [listed]
      by_cases same : other = timer
      · rw [same]
        exact iff_of_true (changed.here.mpr rfl) here
      · exact changed.listed other same

theorem Firing.jumped (firing : Firing clock s) (jumps : s.jumped clock origin target = some t) :
    Firing clock t := by
  have ⟨next, all, same⟩ := Option.map_eq_some_iff.mp jumps
  have start : Sound clock { s with holdUpdate := true } :=
    ⟨firing.listed, firing.distinct, firing.bounded,
      fun updated => (firing.next updated).congr rfl rfl, nofun⟩
  have ⟨sound, listed, ran, runs, starts⟩ := jumpAll_spec s.scheduledTimers start all
  have ⟨_, scheduled, held, phase, ranSame, runsSame, startsSame⟩ := finished_same clock next
  rw [← same]
  constructor
  case toSound => exact sound.finished
  case order =>
    rw [phase]
    exact held
  case ordered =>
    rw [ranSame, ran]
    exact firing.ordered
  case early =>
    rw [ranSame, ran]
    exact firing.early
  case counts =>
    intro timer kind
    rw [scheduled, runsSame, startsSame, runs, starts]
    simpa only [listed timer] using firing.counts timer kind

def Phase.time : Phase → Option Int
  | .idle => none
  | .looping time => some time
  | .acting time _ _ => some time

theorem Firing.step (firing : Firing clock s) {step : Step} (meet : meets clock s step = true)
    (steps : s.step clock step = some t) :
    Firing clock t ∧ ∀ time, s.phase.time = some time → t.phase = .idle →
      ∀ timer, t.armed timer = true → time < t.trigger timer := by
  have leaves : ∀ {time : Int}, Firing clock t → (∀ timer, ¬Due t time timer) →
      ∀ timer, t.armed timer = true → time < t.trigger timer := by
    intro time next nothing timer armed
    by_contra notAfter
    exact nothing timer ⟨(next.listed timer).mpr armed, Int.not_lt.mp notAfter⟩
  cases step with
  | call call =>
    have next := firing.call meet steps
    refine ⟨next, fun time during idle => ?_⟩
    rw [TimerService.step] at steps
    split at steps
    · exact nomatch steps
    · have ⟨_, performed⟩ := perform_spec firing.toSound steps
      rw [← performed.phase, idle] at during
      exact nomatch during
  | progressed time =>
    rw [TimerService.step] at steps
    split at steps
    · rw [← Option.some.inj steps]
      exact ⟨firing.progressed time, fun _ _ idle => nomatch idle⟩
    · exact nomatch steps
  | pass now =>
    rw [TimerService.step] at steps
    split at steps
    case h_1 time looping =>
      have ⟨next, nothing⟩ := firing.pass looping meet steps
      refine ⟨next, fun other same idle => leaves next ?_⟩
      rw [looping] at same
      exact Option.some.inj same ▸ nothing idle
    case h_2 => exact nomatch steps
  | returned =>
    rw [TimerService.step] at steps
    split at steps
    case h_1 time more trigger acting =>
      have ⟨next, nothing⟩ := firing.returned acting
      rw [Option.some.inj steps] at next nothing
      refine ⟨next, fun other same idle => leaves next ?_⟩
      rw [acting] at same
      exact Option.some.inj same ▸ nothing idle
    case h_2 => exact nomatch steps
  | jumped origin target =>
    rw [TimerService.step] at steps
    split at steps
    case h_1 idle =>
      refine ⟨firing.jumped steps, fun time during => ?_⟩
      rw [idle] at during
      exact nomatch during
    case h_2 => exact nomatch steps

/-! ### Every run -/

/-- Outside `Progressed` and `Jumped` the next trigger is the lowest of the armed timers, or the
maximum; what `Progressed` has run is in order and was due, and a single shot timer was run at most
as often as it was started. -/
structure InOrder (clock : Clock) (s : TimerService) : Prop where
  below : s.phase = .idle → ∀ timer, s.armed timer = true → s.nextTrigger ≤ s.trigger timer
  attained : s.phase = .idle →
    (∃ timer, s.armed timer = true ∧ s.trigger timer = s.nextTrigger) ∨
      s.nextTrigger = clock.maximum ∧ ∀ timer, s.armed timer = true → s.trigger timer = clock.maximum
  ordered : s.ran.Pairwise (·.trigger ≤ ·.trigger)
  early : ∀ run ∈ s.ran, run.trigger ≤ run.time
  once : ∀ timer, clock.kind timer = .singleShot → s.runs timer ≤ s.starts timer

theorem Firing.initial (clock : Clock) : Firing clock (.initial clock) where
  listed := by simp [TimerService.initial, TimerService.armed]
  distinct := nodup_nil
  bounded := nofun
  next := fun _ => ⟨le_rfl, nofun, .inl rfl⟩
  settled := fun _ => rfl
  order := rfl
  ordered := List.Pairwise.nil
  early := nofun
  counts := fun _ _ => Nat.le_refl _

theorem Firing.inOrder (firing : Firing clock s) : InOrder clock s := by
  have lowest : s.phase = .idle → Lowest clock s s.nextTrigger := by
    intro idle
    have order := firing.order
    rw [idle] at order
    exact firing.next (firing.settled order)
  constructor
  case below => exact fun idle timer armed => (lowest idle).below timer ((firing.listed timer).mpr armed)
  case attained =>
    intro idle
    rcases (lowest idle).attained with top | ⟨timer, member, attains⟩
    · refine .inr ⟨top, fun timer armed => ?_⟩
      have member := (firing.listed timer).mpr armed
      exact le_antisymm (firing.bounded timer member) (top ▸ (lowest idle).below timer member)
    · exact .inl ⟨timer, (firing.listed timer).mp member, attains⟩
  case ordered => exact firing.ordered
  case early => exact firing.early
  case once => exact fun timer kind => (Nat.le_add_right _ _).trans (firing.counts timer kind)

theorem reachable_firing
    (reached : Runs.Reachable (TimerService.step clock) (fun s a => meets clock s a = true)
      (.initial clock) s) : Firing clock s :=
  reached.invariant (Firing.initial clock) fun _ _ _ firing meet steps => (firing.step meet steps).1

/-- In every run whose steps meet the condition the timers are run in order, never early, and none
that is due is left when `Progressed` returns. -/
theorem fires_in_order (clock : Clock) (s : TimerService)
    (reached : Runs.Reachable (TimerService.step clock) (fun s a => meets clock s a = true)
      (.initial clock) s) :
    InOrder clock s ∧ ∀ step t time, meets clock s step = true → s.step clock step = some t →
      s.phase.time = some time → t.phase = .idle →
        ∀ timer, t.armed timer = true → time < t.trigger timer := by
  have firing := reachable_firing reached
  refine ⟨firing.inOrder, fun step t time meet steps during idle => ?_⟩
  exact (firing.step meet steps).2 time during idle

/-- Timers 0 and 1 are single shot, timer 2 repeats every 10; a tick of 1 is added to a duration. -/
def someClock : Clock where
  kind := fun timer => if timer = 2 then .repeating else .singleShot
  maximum := 1000
  resolution := 1

/-- The action of timer 0 starts timer 1, which is due as well, and cancels timer 2. -/
def someSteps : List Step :=
  [.call (.startAfter 0 4 0 0 7), .call (.startRepeating 2 10 0 8), .progressed 11, .pass 11,
    .call (.startAt 1 5 9), .returned, .pass 11, .call (.cancel 2), .returned, .pass 11]

theorem fires_in_order_started : ∃ s, InOrder someClock s ∧
    s.phase = .idle ∧ s.ran.map (·.timer) = [0, 1] := by
  have ⟨s, reached, shown⟩ := Runs.exists_of_executeIf (fun s a => meets someClock s a = true)
    (TimerService.step someClock) (.initial someClock) someSteps
    (fun s => decide (s.phase = .idle ∧ s.ran.map (·.timer) = [0, 1])) (by decide +kernel)
  have ⟨phase, ran⟩ := of_decide_eq_true shown
  exact ⟨s, (fires_in_order someClock s reached).1, phase, ran⟩

/-- A clock whose resolution is nothing. -/
def exactClock : Clock := { someClock with resolution := 0 }

/-- `Progressed(5)` is about to return and leaves timer 1, which is due. -/
def leavesTimer (s : TimerService) : Bool :=
  decide (s.phase.time = some 5) && (s.step exactClock .returned).any fun t =>
    decide (t.phase = .idle ∧ t.armed 1 = true ∧ t.trigger 1 ≤ 5)

/-- The action of the only timer that is due starts another one for the present: `Progressed`
returns and leaves it. -/
theorem due_left_alone : ∃ s t,
    Runs.Reachable (TimerService.step exactClock) Runs.anyStep (.initial exactClock) s ∧
      s.step exactClock .returned = some t ∧ s.phase.time = some 5 ∧ t.phase = .idle ∧
        t.armed 1 = true ∧ t.trigger 1 ≤ 5 := by
  have ⟨s, reached, shown⟩ := Runs.exists_of_execute (TimerService.step exactClock)
    (.initial exactClock)
    [.call (.startAfter 0 5 0 0 7), .progressed 5, .pass 5, .call (.startAfter 1 0 5 5 8)]
    leavesTimer (by decide +kernel)
  have ⟨time, returned⟩ := Bool.and_eq_true_iff.mp shown
  have ⟨t, returns, left⟩ := (Option.any_eq_true _ _).mp returned
  exact ⟨s, t, reached, returns, of_decide_eq_true time, of_decide_eq_true left⟩

end Timer.Actions
