import EmbeddedInfra.Fsm.ValidatedTable

/-! Which parts of a validated table a run can come to. `Reachable` follows a row from
any state out of every state, `ForEachEdge` and `Select` leave out the states with an
unguarded row of their own, so a table without findings may still have dead parts. -/

namespace Fsm

open List

variable {states events : Nat} {table : Table states events} {initial : Fin states}
  {rules : TransitionRules states} {capacity : Nat}

/-- The runs of a machine that was built from the validated table. -/
abbrev RunsTo (table : Table states events) (capacity : Nat) (initial : Fin states)
    (m : Machine states events table.length) : Prop :=
  Runs.Reachable (step table capacity) Runs.anyStep (.constructed (some initial)) m

theorem no_finding_of_clean {kind : FindingKind} {finding : Finding states events}
    (clean : table.IsValid initial rules .warning = true)
    (found : finding ∈ table.ForEachFinding initial rules .info) (isKind : finding.kind = kind) :
    SeverityOf kind = .info := by
  have low := Table.isValid_iff.mp clean finding found
  rw [isKind] at low
  cases severity : SeverityOf kind with
  | info => rfl
  | warning => simp [severity] at low
  | error => simp [severity, Severity.value] at low

theorem rows_of_clean (clean : table.IsValid initial rules .warning = true) : table.length ≠ 0 := by
  intro empty
  have found : { kind := .emptyTable } ∈ table.ForEachFinding initial rules .info := by
    simp [Table.ForEachFinding, Table.ForEachStructuralError, empty]
  cases no_finding_of_clean clean found rfl

theorem guarded_of_earlier (clean : table.IsValid initial rules .warning = true)
    {earlier later : Fin table.length} (before : earlier < later)
    (pair : Table.SamePair (table.get earlier) (table.get later) = true) :
    (table.get earlier).guarded = true := by
  by_contra unguarded
  have listed (finding : Finding states events) (found : finding ∈ table.ForEachRepeatedPair) :
      finding ∈ table.ForEachFinding initial rules .info := by
    simp [Table.ForEachFinding, Table.ForEachStructuralError, rows_of_clean clean, found]
  have found : { kind := if (table.get later).guarded then .shadowedTransition else .duplicateTransition
                 row := some later.val, otherRow := some earlier.val
                 state := (table.get later).source, event := some (table.get later).event } ∈
      table.ForEachRepeatedPair :=
    mem_flatMap.mpr ⟨earlier, mem_finRange earlier,
      mem_filterMap.mpr ⟨later, mem_finRange later, if_pos
        ⟨before, pair, Bool.not_eq_true _ ▸ unguarded⟩⟩⟩
  have low := no_finding_of_clean clean (listed _ found) rfl
  split at low <;> cases low

variable {row : Fin table.length} {state : Fin states}

theorem not_overridden (clean : table.IsValid initial rules .warning = true)
    (any : (table.get row).source = none) :
    ∃ state, table.HasUnguardedSpecificRow state (table.get row).event = false := by
  by_contra overridden
  have everywhere : table.IsOverriddenEverywhere (table.get row) = true := by
    simpa [Table.IsOverriddenEverywhere] using overridden
  have found : { kind := .overriddenAnyRow, row := some row.val, event := some (table.get row).event } ∈
      table.ForEachOverriddenAnyRow :=
    mem_filterMap.mpr ⟨row, mem_finRange row, if_pos ⟨any, everywhere⟩⟩
  have listed : { kind := .overriddenAnyRow, row := some row.val, event := some (table.get row).event } ∈
      table.ForEachFinding initial rules .info := by
    simp only [Table.ForEachFinding, Table.ForEachWarning, rows_of_clean clean, mem_append,
      if_false]
    exact .inr (.inl (by simp [-get_eq_getElem, Severity.value, found]))
  cases no_finding_of_clean clean listed rfl

/-- The guards that accept one row only. -/
def only (row : Fin table.length) : Fin table.length → Bool := fun other => other = row

/-- A row can be selected in its state, and one from any state wherever no unguarded
row is specific. -/
theorem select_only (clean : table.IsValid initial rules .warning = true)
    (applies : (table.get row).source = some state ∨ (table.get row).source = none ∧
      table.HasUnguardedSpecificRow state (table.get row).event = false) :
    select table (only row) state (table.get row).event = (some row, true) := by
  have accepted : Accepts table (only row) row := .inr (by simp [only])
  have refused (source : Option (Fin states)) (isFor : IsFor table source (table.get row).event row)
      (other : Fin table.length) (before : other < row)
      (otherFor : IsFor table source (table.get row).event other) :
      ¬ Accepts table (only row) other := by
    have pair : Table.SamePair (table.get other) (table.get row) = true := by
      simp only [Table.SamePair, isFor.1, otherFor.1, otherFor.2, beq_self_eq_true, Bool.and_self]
    have guarded := guarded_of_earlier clean before pair
    simp only [Accepts, guarded, only, decide_eq_true_eq, Bool.true_eq_false, false_or]
    exact before.ne
  rcases applies with specific | ⟨any, overridden⟩
  · exact select_specific ⟨specific, rfl⟩ accepted (refused _ ⟨specific, rfl⟩)
  · refine select_fromAny ⟨any, rfl⟩ accepted ?_ (refused _ ⟨any, rfl⟩)
    intro other otherFor accepts
    rcases accepts with unguarded | accepts
    · have overrides := Table.hasUnguardedSpecificRow_iff.mpr ⟨other, otherFor, unguarded⟩
      exact absurd (overridden.symm.trans overrides) Bool.false_ne_true
    · obtain rfl : other = row := by simpa [only] using accepts
      cases any.symm.trans otherFor.1

/-- A machine at rest in a state it has entered. -/
structure Rests (m : Machine states events table.length) (state : Fin states) : Prop where
  phase : m.phase = .idle
  current : m.currentState = some state
  queue : m.queue = []
  entered : state ∈ m.entered

theorem selects_row (clean : table.IsValid initial rules .warning = true)
    {m : Machine states events table.length} (reached : RunsTo table capacity initial m)
    (rests : Rests m state)
    (applies : (table.get row).source = some state ∨ (table.get row).source = none ∧
      table.HasUnguardedSpecificRow state (table.get row).event = false) :
    ∃ next, RunsTo table capacity initial next ∧ next.currentState = some state ∧ next.queue = [] ∧
      (∃ handling ∈ next.handlings, handling.selected = some row) ∧
      next.phase = if (table.get row).internal then .handling else .leaving row := by
  have dispatched : step table capacity m (.dispatch (table.get row).event) =
      some { m with phase := .selecting ⟨(table.get row).event, none⟩ } := by
    simp only [step, Machine.Dispatch, rests.current, rests.phase, reduceCtorEq, if_false]
  have selected : step table capacity { m with phase := .selecting ⟨(table.get row).event, none⟩ }
      (.select (only row)) = some (Machine.dispatchNow table
        { m with phase := .selecting ⟨(table.get row).event, none⟩ }
        ⟨(table.get row).event, none⟩ state (some row, true)) := by
    simp only [step, rests.current, select_only clean applies]
  refine ⟨_, (reached.tail _ trivial dispatched).tail _ trivial selected, rests.current, rests.queue,
    ⟨_, mem_append_right _ (mem_singleton_self _), rfl⟩, rfl⟩

theorem takes_edge (clean : table.IsValid initial rules .warning = true)
    {m : Machine states events table.length} {source target : Fin states}
    (reached : RunsTo table capacity initial m) (rests : Rests m source)
    (edge : Edge table source target) :
    ∃ next, RunsTo table capacity initial next ∧ Rests next target := by
  obtain ⟨row, member⟩ := edge
  obtain ⟨external, rfl, applies⟩ := Table.mem_forEachEdge.mp member
  obtain ⟨leaving, ran, current, queue, -, phase⟩ := selects_row clean reached rests applies
  rw [external, if_neg Bool.false_ne_true] at phase
  let building : Machine states events table.length :=
    { leaving with phase := .building row, epoch := leaving.epoch + 1
                   transitions := leaving.transitions + 1 }
  let entering : Machine states events table.length :=
    { building with currentState := some (table.get row).target, phase := .entering
                    entered := building.entered ++ [(table.get row).target]
                    executed := building.executed ++ [(source, (table.get row).target)] }
  have exits : step table capacity leaving .exit = some building := by
    simp only [step, phase, building]
  have builds : step table capacity building .build = some entering := by
    simp only [step, building, entering, current]
  have drains : step table capacity entering .drain = some { entering with phase := .idle } := by
    simp only [step, entering, building, Machine.drainQueue, queue]
  refine ⟨_, ((ran.tail _ trivial exits).tail _ trivial builds).tail _ trivial drains, rfl, rfl,
    queue, ?_⟩
  exact mem_append_right _ (mem_singleton_self _)

theorem rests_of_leads (capacity : Nat) (clean : table.IsValid initial rules .warning = true)
    (leads : Leads table initial state) :
    ∃ m, RunsTo table capacity initial m ∧ Rests m state := by
  induction leads with
  | refl =>
    have starts : step table capacity (.constructed (some initial)) (.start initial) =
        some { Machine.constructed (some initial) with
          currentState := some initial, epoch := 1, phase := .starting, entered := [initial] } := by
      simp [step, Machine.constructed]
    exact ⟨_, (Runs.Reachable.refl.tail _ trivial starts).tail .drain trivial rfl, rfl, rfl, rfl,
      mem_singleton_self _⟩
  | tail _ edge ih =>
    obtain ⟨m, reached, rests⟩ := ih
    exact takes_edge clean reached rests edge

/-- A validated table has no dead parts exactly when the edges that `ForEachEdge` visits
lead from the initial state to every state. -/
theorem no_dead_parts_iff (table : Table states events) (initial : Fin states)
    (rules : TransitionRules states) (capacity : Nat)
    (clean : table.IsValid initial rules .warning = true) :
    ((∀ state, ∃ m, RunsTo table capacity initial m ∧ state ∈ m.entered) ∧
        ∀ row, ∃ m, RunsTo table capacity initial m ∧
          ∃ handling ∈ m.handlings, handling.selected = some row) ↔
      ∀ state, Leads table initial state := by
  constructor
  · rintro ⟨entered, -⟩ state
    obtain ⟨m, reached, member⟩ := entered state
    exact (follows_of_reachable reached).entered state member
  · intro leads
    constructor
    · intro state
      obtain ⟨m, reached, rests⟩ := rests_of_leads capacity clean (leads state)
      exact ⟨m, reached, rests.entered⟩
    · intro row
      have applies : ∃ state, (table.get row).source = some state ∨ (table.get row).source = none ∧
          table.HasUnguardedSpecificRow state (table.get row).event = false := by
        cases source : (table.get row).source with
        | some state => exact ⟨state, .inl rfl⟩
        | none =>
          obtain ⟨state, free⟩ := not_overridden clean source
          exact ⟨state, .inr ⟨rfl, free⟩⟩
      obtain ⟨state, applies⟩ := applies
      obtain ⟨m, reached, rests⟩ := rests_of_leads capacity clean (leads state)
      obtain ⟨next, ran, -, -, selected, -⟩ := selects_row clean reached rests applies
      exact ⟨next, ran, selected⟩

instance (source target : Fin states) : Decidable (Edge table source target) :=
  inferInstanceAs (Decidable (∃ row, (row, source, target) ∈ table.ForEachEdge))

/-- Both states of the lock are entered and both its rows selected. -/
theorem no_dead_parts_lock :
    (∀ state, ∃ m, RunsTo lock 2 0 m ∧ state ∈ m.entered) ∧
      ∀ row, ∃ m, RunsTo lock 2 0 m ∧ ∃ handling ∈ m.handlings, handling.selected = some row := by
  apply (no_dead_parts_iff lock 0 lockRules 2 (by decide)).mpr
  have opens : Edge lock 0 1 := by decide
  exact Fin.forall_fin_two.mpr ⟨.refl, .single opens⟩

/-- The first state stays where it is for the event by which every other one would go to
the second state. -/
def stuck : Table 2 2 := [Row first first first false, RowFromAny first second false,
  Row second second first false]

/-- Nothing is found in this table, and its second state is never entered. -/
theorem dead_state_in_validated_table :
    stuck.IsValid 0 {} .warning = true ∧
      ¬ ((∀ state, ∃ m, RunsTo stuck 2 0 m ∧ state ∈ m.entered) ∧
        ∀ row, ∃ m, RunsTo stuck 2 0 m ∧
          ∃ handling ∈ m.handlings, handling.selected = some row) := by
  refine ⟨by decide, fun alive => ?_⟩
  obtain ⟨m, reached, member⟩ := alive.1 1
  have stays (state : Fin 2) (leads : Leads stuck 0 state) : state = 0 := by
    induction leads with
    | refl => rfl
    | tail _ edge ih =>
      have loop : ∀ target, Edge stuck 0 target → target = 0 := by decide
      exact loop _ (ih ▸ edge)
  have first := stays 1 ((follows_of_reachable reached).entered 1 member)
  cases first

end Fsm
