import EmbeddedInfra.Fsm.TableStateMachine
import EmbeddedInfra.Fsm.TransitionTableAnalysis

/-! What a run of a machine takes from its table: every external transition is an edge
that the analysis visits, and every result is the one the analysis predicts. -/

namespace Fsm

open List

variable {states events : Nat} {table : Table states events}

def Edge (table : Table states events) (source target : Fin states) : Prop :=
  ∃ row, (row, source, target) ∈ table.ForEachEdge

/-- The states that the edges lead to from the initial one. -/
def Leads (table : Table states events) : Fin states → Fin states → Prop :=
  Relation.ReflTransGen (Edge table)

/-- The result that the static analysis allows for a pair. -/
structure Predicted (handling : Handling states events table.length) : Prop where
  forbidden : handling.result = .forbidden ↔
    table.HasTransition handling.state handling.posted.event = false
  rejected : handling.result = .rejected →
    table.CanReject handling.state handling.posted.event = true

/-- The invariant of every run: where the machine is and has been follows the edges. -/
structure Follows (initial : Fin states) (m : Machine states events table.length) : Prop where
  validated : m.validatedInitial = some initial
  current : ∀ state ∈ m.currentState, state ∈ m.entered
  phase : ∀ row, m.phase = .leaving row ∨ m.phase = .building row → ∀ state ∈ m.currentState,
    (row, state, (table.get row).target) ∈ table.ForEachEdge
  executed : ∀ move ∈ m.executed, Edge table move.1 move.2
  entered : ∀ state ∈ m.entered, Leads table initial state
  handlings : ∀ handling ∈ m.handlings, Predicted handling

variable {state : Fin states} {posted : Posted events}

theorem edge_of_select {guards : Fin table.length → Bool} {event : Fin events}
    {row : Fin table.length} {flag : Bool}
    (chosen : select table guards state event = (some row, flag))
    (external : (table.get row).internal = false) :
    (row, state, (table.get row).target) ∈ table.ForEachEdge := by
  obtain ⟨-, isFor | ⟨isFor, refused⟩⟩ := select_some chosen
  · exact Table.mem_forEachEdge.mpr ⟨external, rfl, .inl isFor.1⟩
  · refine Table.mem_forEachEdge.mpr ⟨external, rfl, .inr ⟨isFor.1, ?_⟩⟩
    apply Bool.eq_false_iff.mpr
    intro unguarded
    obtain ⟨other, otherFor, accepts⟩ := Table.hasUnguardedSpecificRow_iff.mp unguarded
    exact refused other (isFor.2 ▸ otherFor) (.inl accepts)

theorem predicted_select (guards : Fin table.length → Bool) (posted : Posted events)
    (state : Fin states) (transitions : Nat) :
    Predicted (⟨posted, state, transitions,
      (select table guards state posted.event).1,
      dispatchResult table (select table guards state posted.event)⟩ :
      Handling states events table.length) := by
  rcases chosen : select table guards state posted.event with ⟨_ | row, flag⟩
  · obtain ⟨exist, refused⟩ := select_none chosen
    have transition : flag = true ↔ table.HasTransition state posted.event = true :=
      exist.trans Table.hasTransition_iff.symm
    constructor
    · rw [← Bool.not_eq_true, ← transition]
      cases flag <;> simp [dispatchResult]
    · intro rejected
      have flagged : flag = true := by
        cases flag with
        | false => cases rejected
        | true => rfl
      refine Table.canReject_iff.mpr ⟨exist.mp flagged, fun row isFor => ?_⟩
      by_contra unguarded
      exact refused row isFor (.inl (Bool.not_eq_true _ ▸ unguarded))
  · obtain ⟨-, isFor⟩ := select_some chosen
    have transition : table.HasTransition state posted.event = true :=
      Table.hasTransition_iff.mpr ⟨row, isFor.imp id And.left⟩
    constructor
    · simp [dispatchResult, transition]
    · intro rejected
      cases rejected

variable {initial : Fin states} {capacity : Nat} {m next : Machine states events table.length}

section

variable (follows : Follows initial m)

include follows

theorem Follows.of_same (validated : next.validatedInitial = m.validatedInitial)
    (current : next.currentState = m.currentState) (entered : next.entered = m.entered)
    (executed : next.executed = m.executed) (handlings : next.handlings = m.handlings)
    (phase : ∀ row, next.phase = .leaving row ∨ next.phase = .building row →
      m.phase = .leaving row ∨ m.phase = .building row) :
    Follows initial next where
  validated := validated ▸ follows.validated
  current := by simpa only [current, entered] using follows.current
  phase row transition := by simpa only [current] using follows.phase row (phase row transition)
  executed := by simpa only [executed] using follows.executed
  entered := by simpa only [entered] using follows.entered
  handlings := by simpa only [handlings] using follows.handlings

theorem Follows.dispatch (dispatched : m.Dispatch capacity posted = some next) :
    Follows initial next := by
  simp only [Machine.Dispatch] at dispatched
  split at dispatched
  · cases dispatched
  · split at dispatched
    · obtain rfl := Option.some.inj dispatched
      exact follows.of_same rfl rfl rfl rfl rfl (by simp)
    · split at dispatched
      · obtain rfl := Option.some.inj dispatched
        exact follows.of_same rfl rfl rfl rfl rfl fun _ => id
      · cases dispatched

theorem Follows.completeWith {epochAtRequest : UInt32}
    (called : m.CompleteWith capacity posted epochAtRequest = some next) :
    Follows initial next := by
  simp only [Machine.CompleteWith] at called
  split at called
  · have counted : Follows initial { m with invocations := m.invocations + 1 } :=
      follows.of_same rfl rfl rfl rfl rfl fun _ => id
    exact counted.dispatch called
  · split at called
    · cases called
    · obtain rfl := Option.some.inj called
      exact follows.of_same rfl rfl rfl rfl rfl fun _ => id

theorem Follows.dispatchNow (guards : Fin table.length → Bool)
    (current : m.currentState = some state) :
    Follows initial
      (m.dispatchNow table posted state (select table guards state posted.event)) where
  validated := follows.validated
  current := follows.current
  phase row transition found isCurrent := by
    obtain rfl : state = found := by simpa [Machine.dispatchNow, current] using isCurrent
    rcases chosen : select table guards state posted.event with ⟨_ | selected, flag⟩
    · simp [Machine.dispatchNow, chosen] at transition
    · simp only [Machine.dispatchNow, chosen] at transition
      split at transition
      · simp at transition
      next external =>
        obtain rfl : selected = row := by simpa using transition
        exact edge_of_select chosen (by simpa using external)
  executed := follows.executed
  entered := follows.entered
  handlings handling member := by
    rcases mem_append.mp member with member | member
    · exact follows.handlings handling member
    · obtain rfl := mem_singleton.mp member
      exact predicted_select guards posted state m.transitions

theorem Follows.build {row : Fin table.length} (building : m.phase = .building row)
    (current : m.currentState = some state) :
    Follows initial
      { m with currentState := some (table.get row).target, phase := .entering
               entered := m.entered ++ [(table.get row).target]
               executed := m.executed ++ [(state, (table.get row).target)] } := by
  have edge : Edge table state (table.get row).target :=
    ⟨row, follows.phase row (.inr building) state current⟩
  refine ⟨follows.validated, by simp, by simp, ?_, ?_, follows.handlings⟩
  · intro move member
    rcases mem_append.mp member with member | member
    · exact follows.executed move member
    · obtain rfl := mem_singleton.mp member
      exact edge
  · intro entered member
    rcases mem_append.mp member with member | member
    · exact follows.entered entered member
    · obtain rfl := mem_singleton.mp member
      exact (follows.entered state (follows.current state current)).tail edge

theorem Follows.drainQueue : Follows initial m.drainQueue := by
  cases queue : m.queue <;> simp only [Machine.drainQueue, queue] <;>
    exact follows.of_same rfl rfl rfl rfl rfl (by simp)

theorem Follows.step {action : Action states events table.length}
    (stepped : Fsm.step table capacity m action = some next) : Follows initial next := by
  cases action with
  | start state =>
    simp only [Fsm.step] at stepped
    split at stepped
    next unstarted =>
      obtain rfl := Option.some.inj stepped
      obtain rfl : initial = state := by simpa [follows.validated] using unstarted.2
      refine ⟨follows.validated, by simp, by simp, follows.executed, ?_, follows.handlings⟩
      intro entered member
      rcases mem_append.mp member with member | member
      · exact follows.entered entered member
      · exact mem_singleton.mp member ▸ .refl
    · cases stepped
  | completion event =>
    obtain rfl := Option.some.inj stepped
    exact follows.of_same rfl rfl rfl rfl rfl fun _ => id
  | dispatch event => exact follows.dispatch stepped
  | complete index event =>
    simp only [Fsm.step] at stepped
    split at stepped
    · cases stepped
    · split at stepped
      · exact follows.completeWith stepped
      · cases stepped
  | select guards =>
    simp only [Fsm.step] at stepped
    split at stepped
    next current =>
      obtain rfl := Option.some.inj stepped
      exact follows.dispatchNow guards current
    · cases stepped
  | exit =>
    simp only [Fsm.step] at stepped
    split at stepped
    next row leaving =>
      obtain rfl := Option.some.inj stepped
      exact follows.of_same rfl rfl rfl rfl rfl fun other => by simp [leaving]
    · cases stepped
  | build =>
    simp only [Fsm.step] at stepped
    split at stepped
    next building current =>
      obtain rfl := Option.some.inj stepped
      exact follows.build building current
    · cases stepped
  | drain =>
    simp only [Fsm.step] at stepped
    split at stepped
    case h_5 => cases stepped
    all_goals
      obtain rfl := Option.some.inj stepped
      exact follows.drainQueue

end

theorem follows_of_reachable
    (reached : Runs.Reachable (step table capacity) Runs.anyStep (.constructed (some initial)) m) :
    Follows initial m := by
  refine reached.invariant ?_ fun _ _ _ follows _ stepped => follows.step stepped
  constructor <;> simp [Machine.constructed]

theorem reachable_of_leads (leads : Leads table initial state) :
    table.Reachable initial state = true := by
  induction leads with
  | refl => exact Table.reachable_initial initial
  | tail _ edge ih =>
    obtain ⟨row, member⟩ := edge
    obtain ⟨-, rfl, source⟩ := Table.mem_forEachEdge.mp member
    refine Table.reachable_closed initial (table.get row) (get_mem table row) ?_
    rcases source with source | ⟨source, -⟩ <;> rw [source]
    · exact ih
    · rfl

theorem allowed_of_valid {rules : TransitionRules states} {source target : Fin states}
    (valid : table.IsValid initial rules .error = true) (edge : Edge table source target) :
    rules.IsAllowed source target = true ∧ rules.IsForbidden source target = false := by
  obtain ⟨row, member⟩ := edge
  have noError (finding : Finding states events)
      (found : finding ∈ table.ForEachRuleViolation rules) : SeverityOf finding.kind ≠ .error := by
    intro isError
    have low := Table.isValid_iff.mp valid finding
      (by simp [Table.ForEachFinding, Table.ForEachRuleError, found])
    rw [isError] at low
    exact lt_irrefl _ low
  cases forbidden : rules.IsForbidden source target with
  | true =>
    have found : { kind := .forbiddenTransition, row := some row.val, state := some source
                   target := some target } ∈ table.ForEachRuleViolation rules :=
      mem_filterMap.mpr ⟨_, member, by simp [forbidden]⟩
    exact absurd rfl (noError _ found)
  | false =>
    refine ⟨?_, rfl⟩
    by_contra disallowed
    have found : { kind := .disallowedTransition, row := some row.val, state := some source
                   target := some target } ∈ table.ForEachRuleViolation rules :=
      mem_filterMap.mpr ⟨_, member, by simp [forbidden, disallowed]⟩
    exact absurd rfl (noError _ found)

theorem canReject_reported {event : Fin events} {rules : TransitionRules states}
    (canReject : table.CanReject state event = true) :
    { kind := .canReject, state := some state, event := some event } ∈
      table.ForEachFinding initial rules .info := by
  have rows : table.length ≠ 0 := by
    obtain ⟨⟨row, -⟩, -⟩ := Table.canReject_iff.mp canReject
    exact (Nat.zero_lt_of_lt row.isLt).ne'
  have found : ({ kind := .canReject, state := some state, event := some event } :
      Finding states events) ∈ table.ForEachInfo :=
    mem_flatMap.mpr ⟨state, mem_finRange state,
      mem_filterMap.mpr ⟨event, mem_finRange event, by simp [canReject]⟩⟩
  simp [Table.ForEachFinding, rows, found]

theorem not_reported_unreachable {finding : Finding states events}
    (reached : table.Reachable initial state = true)
    (reported : finding ∈ table.ForEachUnreachableState initial) : finding.state ≠ some state := by
  obtain ⟨found, _, given⟩ := mem_filterMap.mp reported
  split at given
  next unreached =>
    obtain rfl := Option.some.inj given
    intro same
    obtain rfl := Option.some.inj same
    simp [reached] at unreached
  · cases given

/-- Every run of a machine with a valid table keeps to the rules and to what the
analysis reports. -/
theorem validated_table_keeps_rules (table : Table states events) (initial : Fin states)
    (rules : TransitionRules states) (capacity : Nat) (m : Machine states events table.length)
    (valid : table.IsValid initial rules .error = true)
    (reached : Runs.Reachable (step table capacity) Runs.anyStep (.constructed (some initial)) m) :
    (∀ move ∈ m.executed, rules.IsAllowed move.1 move.2 = true ∧
        rules.IsForbidden move.1 move.2 = false) ∧
      (∀ state ∈ m.entered, ∀ finding ∈ table.ForEachUnreachableState initial,
        finding.state ≠ some state) ∧
      ∀ handling ∈ m.handlings,
        (handling.result = .forbidden ↔
          table.HasTransition handling.state handling.posted.event = false) ∧
        (handling.result = .rejected →
          { kind := .canReject, state := some handling.state, event := some handling.posted.event } ∈
            table.ForEachFinding initial rules .info) := by
  have follows := follows_of_reachable reached
  refine ⟨fun move member => allowed_of_valid valid (follows.executed move member), ?_, ?_⟩
  · intro state member finding reported
    exact not_reported_unreachable (reachable_of_leads (follows.entered state member)) reported
  · intro handling member
    have predicted := follows.handlings handling member
    exact ⟨predicted.forbidden, fun rejected => canReject_reported (predicted.rejected rejected)⟩

/-- A state entered by a guarded row and left from anywhere. -/
def lock : Table 2 2 := [Row first first second true, RowFromAny second first false]

def lockRules : TransitionRules 2 where
  allowed source target := source = first && target = second
  allowedFromAny target := target = first
  restricted := true

/-- A run with a refused event, a transition and a forbidden event. -/
theorem validated_table_keeps_rules_lock : ∃ m : Machine 2 2 lock.length,
    m.handlings.map Handling.result = [.rejected, .transitioned, .forbidden] ∧
      (∀ move ∈ m.executed, lockRules.IsAllowed move.1 move.2 = true ∧
        lockRules.IsForbidden move.1 move.2 = false) := by
  obtain ⟨m, reached, shown⟩ := Runs.exists_of_execute (step lock 2) (.constructed (some 0))
    [.start 0, .drain, .dispatch 0, .select fun _ => false, .drain, .dispatch 0,
      .select fun _ => true, .exit, .build, .drain, .dispatch 0, .select fun _ => true]
    (fun m => m.handlings.map Handling.result = [.rejected, .transitioned, .forbidden]) (by decide)
  exact ⟨m, by simpa using shown,
    (validated_table_keeps_rules lock 0 lockRules 2 m (by decide) reached).1⟩

end Fsm
