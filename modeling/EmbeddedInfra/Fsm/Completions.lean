import EmbeddedInfra.Fsm.TableStateMachine
import EmbeddedInfra.Fsm.TransitionTableAnalysis

/-! Completions and later visits. A completion compares epochs when it is invoked; the
event it dispatches may then wait in the queue while a transition is executed. -/

namespace Fsm

open List

variable {states events rows : Nat} {m next : Machine states events rows}

/-- The event comes from no completion, or from one made since the last of these
external transitions. -/
def Posted.UpToDate (posted : Posted events) (transitions : Nat) : Prop :=
  ∀ call ∈ posted.completion, call.madeAt = transitions

def callNumbers (posted : List (Posted events)) : List Nat :=
  posted.filterMap fun posted => posted.completion.map Invocation.number

/-- The event that `DispatchNow` has been called for and has not selected a row for. -/
def Phase.pending : Phase events rows → List (Posted events)
  | .selecting posted => [posted]
  | _ => []

namespace Machine

def waiting (m : Machine states events rows) : List (Posted events) := m.phase.pending ++ m.queue

/-- Every event of a completion that `DispatchNow` handled was handled before any
external transition after the completion was made; the event of every call of a
completion is handled, waiting or reported as discarded, and only one of these. -/
def CompletionsFresh (m : Machine states events rows) : Prop :=
  (∀ handling ∈ m.handlings, handling.posted.UpToDate handling.transitions) ∧
    (callNumbers (m.handlings.map Handling.posted ++ m.waiting ++ m.discarded)).Perm
      (List.range m.invocations)

end Machine

/-- An external transition does not find the event of a completion in the queue, and
the epoch has not come round to the value that an earlier completion captured. -/
def KeepsVisits (m : Machine states events rows) : Action states events rows → Prop
  | .exit => ∀ posted ∈ m.queue, posted.completion = none
  | .complete index _ => ∀ completion ∈ m.completions[index]?,
      completion.epochAtRequest = m.epoch → completion.madeAt = m.transitions
  | _ => True

/-- The invariant of the runs in which every step keeps visits apart. -/
structure Apart (m : Machine states events rows) : Prop where
  fresh : m.CompletionsFresh
  waiting : ∀ posted ∈ m.waiting, posted.UpToDate m.transitions
  unstarted : m.currentState = none → m.phase = .idle

theorem callNumbers_perm {front back : List (Posted events)} (same : front.Perm back) :
    (callNumbers front).Perm (callNumbers back) :=
  same.filterMap _

theorem Apart.of_same (apart : Apart m) (waiting : next.waiting = m.waiting)
    (handlings : next.handlings = m.handlings) (discarded : next.discarded = m.discarded)
    (transitions : next.transitions = m.transitions)
    (invocations : next.invocations = m.invocations)
    (unstarted : next.currentState = none → next.phase = .idle) : Apart next := by
  refine ⟨?_, ?_, unstarted⟩
  · simpa only [Machine.CompletionsFresh, waiting, handlings, discarded, invocations] using apart.fresh
  · simpa only [waiting, transitions] using apart.waiting

variable {capacity : Nat} {posted : Posted events}

theorem dispatch_spec (dispatched : m.Dispatch capacity posted = some next) :
    next.waiting.Perm (posted :: m.waiting) ∧ next.handlings = m.handlings ∧
      next.discarded = m.discarded ∧ next.transitions = m.transitions ∧
      next.invocations = m.invocations ∧ next.currentState ≠ none := by
  simp only [Machine.Dispatch] at dispatched
  split at dispatched
  · cases dispatched
  next started =>
    split at dispatched
    next idle =>
      obtain rfl := Option.some.inj dispatched
      simp [Machine.waiting, Phase.pending, idle, started]
    next busy =>
      split at dispatched
      · obtain rfl := Option.some.inj dispatched
        refine ⟨?_, rfl, rfl, rfl, rfl, started⟩
        simp only [Machine.waiting]
        rw [← append_assoc]
        exact perm_append_singleton _ _
      · cases dispatched

theorem Apart.dispatch
    (fresh : ∀ handling ∈ m.handlings, handling.posted.UpToDate handling.transitions)
    (numbered : (callNumbers
      (posted :: (m.handlings.map Handling.posted ++ m.waiting ++ m.discarded))).Perm
      (List.range m.invocations)) (waiting : ∀ posted ∈ m.waiting, posted.UpToDate m.transitions)
    (upToDate : posted.UpToDate m.transitions)
    (dispatched : m.Dispatch capacity posted = some next) :
    Apart next := by
  obtain ⟨added, handlings, discarded, transitions, invocations, started⟩ :=
    dispatch_spec dispatched
  refine ⟨?_, ?_, fun unstarted => absurd unstarted started⟩
  · refine ⟨by simpa only [handlings] using fresh, ?_⟩
    rw [invocations, handlings, discarded]
    refine (callNumbers_perm ?_).trans numbered
    calc
      _ = m.handlings.map Handling.posted ++ (next.waiting ++ m.discarded) := append_assoc ..
      (_ : List (Posted events)).Perm
          (m.handlings.map Handling.posted ++ (posted :: m.waiting ++ m.discarded)) :=
        (added.append_right _).append_left _
      (_ : List (Posted events)).Perm _ := by simp
  · intro other member
    rw [transitions]
    rcases mem_cons.mp (added.mem_iff.mp member) with same | member
    · exact same ▸ upToDate
    · exact waiting other member

theorem Apart.completeWith {completion : Completion events} {event : Fin events} (apart : Apart m)
    (current : completion.epochAtRequest = m.epoch → completion.madeAt = m.transitions)
    (called : m.CompleteWith capacity (m.invoke completion event) completion.epochAtRequest =
      some next) :
    Apart next := by
  have numbered (posted : List (Posted events))
      (before : (callNumbers posted).Perm (List.range m.invocations)) :
      (callNumbers (m.invoke completion event :: posted)).Perm (List.range (m.invocations + 1)) := by
    rw [range_succ]
    exact (before.cons m.invocations).trans (perm_append_singleton _ _).symm
  simp only [Machine.CompleteWith] at called
  split at called
  next same =>
    refine Apart.dispatch (m := { m with invocations := m.invocations + 1 }) apart.fresh.1
      (numbered _ apart.fresh.2) apart.waiting ?_ called
    intro call made
    obtain rfl := Option.some.inj made
    exact current same
  · split at called
    · cases called
    · obtain rfl := Option.some.inj called
      refine ⟨⟨apart.fresh.1, (callNumbers_perm ?_).trans (numbered _ apart.fresh.2)⟩, apart.waiting,
        apart.unstarted⟩
      rw [← append_assoc]
      exact perm_append_singleton _ _

theorem Apart.drainQueue (apart : Apart m)
    (committed : m.phase.pending = []) (busy : m.phase ≠ .idle) : Apart m.drainQueue := by
  have started : m.currentState ≠ none := fun unstarted => busy (apart.unstarted unstarted)
  have kept : m.drainQueue.handlings = m.handlings ∧ m.drainQueue.discarded = m.discarded ∧
      m.drainQueue.transitions = m.transitions ∧ m.drainQueue.invocations = m.invocations ∧
      m.drainQueue.currentState = m.currentState ∧ m.drainQueue.waiting = m.waiting := by
    rw [Machine.waiting, Machine.waiting, committed]
    cases queue : m.queue <;> simp [Machine.drainQueue, Phase.pending, queue]
  obtain ⟨handlings, discarded, transitions, invocations, current, waiting⟩ := kept
  exact apart.of_same waiting handlings discarded transitions invocations
    fun unstarted => absurd (current ▸ unstarted) started

theorem Apart.dispatchNow {table : Table states events} {m : Machine states events table.length}
    {state : Fin states} {chosen : Option (Fin table.length) × Bool} (apart : Apart m)
    (selecting : m.phase = .selecting posted) :
    Apart (m.dispatchNow table posted state chosen) := by
  have before : m.waiting = posted :: m.queue := by simp [Machine.waiting, Phase.pending, selecting]
  have after : (m.dispatchNow table posted state chosen).waiting = m.queue := by
    simp only [Machine.waiting, Machine.dispatchNow]
    cases chosen.1 with
    | none => rfl
    | some row => dsimp only; split <;> rfl
  have started : m.currentState ≠ none := fun unstarted => by
    simp [apart.unstarted unstarted] at selecting
  refine ⟨?_, ?_, fun unstarted => absurd unstarted started⟩
  · refine ⟨?_, ?_⟩
    · intro handling member
      rcases mem_append.mp member with member | member
      · exact apart.fresh.1 handling member
      · obtain rfl := mem_singleton.mp member
        exact apart.waiting posted (by simp [before])
    · have numbered := apart.fresh.2
      rw [before] at numbered
      rw [after]
      simpa [Machine.dispatchNow] using numbered
  · intro other member
    rw [after] at member
    exact apart.waiting other (by simp [before, member])

theorem Apart.exit {row : Fin rows} (apart : Apart m) (leaving : m.phase = .leaving row)
    (keeps : ∀ posted ∈ m.queue, posted.completion = none) :
    Apart { m with phase := .building row, epoch := m.epoch + 1, transitions := m.transitions + 1 } := by
  have before : m.waiting = m.queue := by simp [Machine.waiting, Phase.pending, leaving]
  have started : m.currentState ≠ none := fun unstarted => by
    simp [apart.unstarted unstarted] at leaving
  refine ⟨?_, ?_, fun unstarted => absurd unstarted started⟩
  · have fresh := apart.fresh
    rwa [Machine.CompletionsFresh, before] at fresh
  · intro posted member call made
    exact absurd (keeps posted member) (by rw [made]; simp)

theorem Apart.step {table : Table states events} {m next : Machine states events table.length}
    {action : Action states events table.length} (apart : Apart m) (keeps : KeepsVisits m action)
    (stepped : Fsm.step table capacity m action = some next) : Apart next := by
  cases action with
  | start initial =>
    simp only [Fsm.step] at stepped
    split at stepped
    next unstarted =>
      obtain rfl := Option.some.inj stepped
      have idle := apart.unstarted unstarted.1
      exact apart.of_same (by simp [Machine.waiting, Phase.pending, idle]) rfl rfl rfl rfl (by simp)
    · cases stepped
  | completion event =>
    obtain rfl := Option.some.inj stepped
    exact apart.of_same rfl rfl rfl rfl rfl apart.unstarted
  | dispatch event =>
    have numbered : (callNumbers (⟨event, none⟩ :: (m.handlings.map Handling.posted ++ m.waiting ++
        m.discarded))).Perm (List.range m.invocations) := apart.fresh.2
    refine Apart.dispatch apart.fresh.1 numbered apart.waiting ?_ stepped
    intro call made
    cases made
  | complete index event =>
    simp only [Fsm.step] at stepped
    split at stepped
    · cases stepped
    next completion found =>
      split at stepped
      · exact apart.completeWith (keeps completion found) stepped
      · cases stepped
  | select guards =>
    simp only [Fsm.step] at stepped
    split at stepped
    next posted state selecting _ =>
      obtain rfl := Option.some.inj stepped
      exact apart.dispatchNow selecting
    · cases stepped
  | exit =>
    simp only [Fsm.step] at stepped
    split at stepped
    next row leaving =>
      obtain rfl := Option.some.inj stepped
      exact apart.exit leaving keeps
    · cases stepped
  | build =>
    simp only [Fsm.step] at stepped
    split at stepped
    next row state building _ =>
      obtain rfl := Option.some.inj stepped
      exact apart.of_same (by simp [Machine.waiting, Phase.pending, building]) rfl rfl rfl rfl (by simp)
    · cases stepped
  | drain =>
    simp only [Fsm.step] at stepped
    split at stepped
    case h_5 => cases stepped
    all_goals
      next committed =>
      obtain rfl := Option.some.inj stepped
      exact apart.drainQueue (by simp [Phase.pending, committed]) (by simp [committed])

theorem apart_constructed (validatedInitial : Option (Fin states)) :
    Apart (.constructed validatedInitial : Machine states events rows) := by
  refine ⟨⟨by simp [Machine.constructed], ?_⟩, by simp [Machine.constructed, Machine.waiting, Phase.pending],
    fun _ => rfl⟩
  exact .refl _

/-- In every run in which no external transition is executed while the event of a
completion waits, and the epoch does not come round, no completion hits a later visit. -/
theorem completions_fresh (table : Table states events) (capacity : Nat)
    (validatedInitial : Option (Fin states)) (m : Machine states events table.length)
    (reached : Runs.Reachable (step table capacity) KeepsVisits (.constructed validatedInitial) m) :
    m.CompletionsFresh :=
  (reached.invariant (apart_constructed validatedInitial)
    fun _ _ _ apart keeps stepped => apart.step keeps stepped).fresh

instance (m : Machine states events rows) : DecidablePred (KeepsVisits m)
  | .exit => inferInstanceAs (Decidable (∀ posted ∈ m.queue, posted.completion = none))
  | .complete index _ => inferInstanceAs (Decidable (∀ completion ∈ m.completions[index]?,
      completion.epochAtRequest = m.epoch → completion.madeAt = m.transitions))
  | .start _ | .completion _ | .dispatch _ | .select _ | .build | .drain => .isTrue trivial

instance (posted : Posted events) (transitions : Nat) : Decidable (posted.UpToDate transitions) :=
  inferInstanceAs (Decidable (∀ call ∈ posted.completion, call.madeAt = transitions))

instance (m : Machine states events rows) : Decidable m.CompletionsFresh :=
  inferInstanceAs (Decidable ((∀ handling ∈ m.handlings,
    handling.posted.UpToDate handling.transitions) ∧ List.Perm _ _))

/-- Two states, each left for the other one by an event of its own. -/
def door : Table 2 2 := [Row first first second false, Row second second first false]

/-- A completion made in the initial state is handled there; called again from the next
state it is discarded. -/
theorem completions_fresh_door : ∃ m : Machine 2 2 door.length,
    m.handlings.length = 1 ∧ m.discarded.length = 1 ∧ m.CompletionsFresh := by
  obtain ⟨m, reached, shown⟩ := Runs.exists_of_executeIf KeepsVisits (step door 4)
    (.constructed (some 0))
    [.start 0, .drain, .completion (some 0), .complete 0 0, .select fun _ => false, .exit, .build,
      .drain, .complete 0 0]
    (fun m => m.handlings.length == 1 && m.discarded.length == 1) (by decide)
  have counts : m.handlings.length = 1 ∧ m.discarded.length = 1 := by simpa using shown
  exact ⟨m, counts.1, counts.2, completions_fresh door 4 (some 0) m reached⟩

/-- A completion made in the first state and invoked by its `OnExit` waits in the queue
and is handled in the second state. -/
theorem completion_hits_next_state :
    door.ForEachFinding 0 {} .warning = [] ∧
      ∃ m, Runs.Reachable (step door 4) Runs.anyStep (.constructed (some 0)) m ∧
        ¬ m.CompletionsFresh := by
  refine ⟨by decide, ?_⟩
  obtain ⟨m, reached, shown⟩ := Runs.exists_of_execute (step door 4) (.constructed (some 0))
    [.start 0, .drain, .completion (some 1), .dispatch 0, .select fun _ => false, .complete 0 1,
      .exit, .build, .drain, .select fun _ => false]
    (fun m => !decide m.CompletionsFresh) (by decide)
  exact ⟨m, reached, by simpa using shown⟩

end Fsm
