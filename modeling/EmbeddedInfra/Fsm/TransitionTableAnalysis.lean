import Mathlib.Data.Fintype.Card
import EmbeddedInfra.Fsm.TransitionTable

/-! The rules of a state machine and the static analysis of its table, pass by pass. A
pass gives the list of the findings it hands to its callback. -/

namespace Fsm

open List Function

variable {states events : Nat}

structure TransitionRules (states : Nat) where
  allowed : Fin states → Fin states → Bool := fun _ _ => false
  forbidden : Fin states → Fin states → Bool := fun _ _ => false
  allowedFromAny : Fin states → Bool := fun _ => false
  terminal : Fin states → Bool := fun _ => false
  restricted : Bool := false

namespace TransitionRules

variable (rules : TransitionRules states)

def IsTerminal (state : Fin states) : Bool := rules.terminal state

variable (source : Fin states)

def IsExplicitlyAllowed (target : Fin states) : Bool := rules.allowed source target

def IsAllowedFromAny (target : Fin states) : Bool := rules.allowedFromAny target

def IsForbidden (target : Fin states) : Bool := rules.forbidden source target

def IsAllowed (target : Fin states) : Bool :=
  if rules.forbidden source target then false
  else !rules.restricted || rules.allowed source target || rules.allowedFromAny target

end TransitionRules

inductive FindingKind
  | emptyTable
  | duplicateTransition
  | shadowedTransition
  | unreachableState
  | contradictoryRule
  | forbiddenTransition
  | disallowedTransition
  | unusedEvent
  | deadEndState
  | overriddenAnyRow
  | unusedAllowance
  | canReject
  deriving DecidableEq, Repr

inductive Severity
  | info
  | warning
  | error
  deriving DecidableEq, Repr

def Severity.value : Severity → Nat
  | info => 0
  | warning => 1
  | error => 2

def SeverityOf : FindingKind → Severity
  | .unusedEvent | .deadEndState | .overriddenAnyRow | .unusedAllowance => .warning
  | .canReject => .info
  | _ => .error

structure Finding (states events : Nat) where
  kind : FindingKind
  row : Option Nat := none
  otherRow : Option Nat := none
  state : Option (Fin states) := none
  event : Option (Fin events) := none
  target : Option (Fin states) := none
  deriving DecidableEq

abbrev StateSet (states : Nat) := Fin states → Bool

namespace Table

variable (table : Table states events)

def HasTransition (source : Fin states) (event : Fin events) : Bool :=
  table.any fun row => (row.source.isNone || row.source == some source) && row.event == event

def HasUnguardedSpecificRow (source : Fin states) (event : Fin events) : Bool :=
  table.any fun row => row.source == some source && row.event == event && !row.guarded

def SamePair (a b : Transition states events) : Bool := a.source == b.source && a.event == b.event

def ForEachRepeatedPair : List (Finding states events) :=
  table.rows.flatMap fun earlier => table.rows.filterMap fun later =>
    if earlier < later ∧ SamePair (table.get earlier) (table.get later) ∧
        (table.get earlier).guarded = false then
      some { kind := if (table.get later).guarded then .shadowedTransition else .duplicateTransition
             row := some later, otherRow := some earlier
             state := (table.get later).source, event := some (table.get later).event }
    else none

/-- One pass of `Reachable` over the rows that are left. -/
def spreadRows : List (Transition states events) → StateSet states × Bool → StateSet states × Bool
  | [], reached => reached
  | row :: rows, (reached, changed) =>
    if !reached row.target && (row.source.all reached) then
      spreadRows rows (update reached row.target true, true)
    else spreadRows rows (reached, changed)

/-- The loop of `Reachable`: passes until nothing changes. -/
def spread : Nat → StateSet states → StateSet states
  | 0, reached => reached
  | passes + 1, reached =>
    match spreadRows table (reached, false) with
    | (next, true) => spread passes next
    | (next, false) => next

variable (initial : Fin states) (rules : TransitionRules states)

/-- A pass that changes something reaches a state more, so that one pass for every
state and a last one for the check are enough (`reachable_closed`). -/
def Reachable : StateSet states :=
  spread table (states + 1) (update (fun _ => false) initial true)

def ForEachUnreachableState : List (Finding states events) :=
  (List.finRange states).filterMap fun state =>
    if table.Reachable initial state = false then
      some { kind := .unreachableState, state := some state }
    else none

def ForEachContradictoryRule : List (Finding states events) :=
  (List.finRange states).flatMap fun source => (List.finRange states).filterMap fun target =>
    if rules.IsExplicitlyAllowed source target ∧ rules.IsForbidden source target then
      some { kind := .contradictoryRule, state := some source, target := some target }
    else none

/-- The edges that `ForEachEdge` visits: row, source and target. -/
def ForEachEdge : List (Fin table.length × Fin states × Fin states) :=
  table.rows.flatMap fun index =>
    if (table.get index).internal then []
    else match (table.get index).source with
      | some source => [(index, source, (table.get index).target)]
      | none => (List.finRange states).filterMap fun source =>
        if table.HasUnguardedSpecificRow source (table.get index).event then none
        else some (index, source, (table.get index).target)

def ForEachRuleViolation : List (Finding states events) :=
  table.ForEachEdge.filterMap fun (row, source, target) =>
    if rules.IsForbidden source target then
      some { kind := .forbiddenTransition, row := some row, state := some source, target := some target }
    else if rules.IsAllowed source target then none
    else some { kind := .disallowedTransition, row := some row, state := some source,
                target := some target }

def Handles (event : Fin events) : Bool := table.any fun row => row.event == event

def ForEachUnusedEvent : List (Finding states events) :=
  (List.finRange events).filterMap fun event =>
    if table.Handles event then none else some { kind := .unusedEvent, event := some event }

def Leaves (state : Fin states) : Bool :=
  table.any fun row =>
    !row.internal && (row.source.isNone || row.source == some state) && row.target != state

def ForEachDeadEndState : List (Finding states events) :=
  (List.finRange states).filterMap fun state =>
    if rules.IsTerminal state || table.Leaves state then none
    else some { kind := .deadEndState, state := some state }

def IsOverriddenEverywhere (anyRow : Transition states events) : Bool :=
  (List.finRange states).all fun state => table.HasUnguardedSpecificRow state anyRow.event

def ForEachOverriddenAnyRow : List (Finding states events) :=
  table.rows.filterMap fun index =>
    if (table.get index).source = none ∧ table.IsOverriddenEverywhere (table.get index) then
      some { kind := .overriddenAnyRow, row := some index, event := some (table.get index).event }
    else none

def RealizedEdges (source target : Fin states) : Bool :=
  table.ForEachEdge.any fun edge => edge.2.1 == source && edge.2.2 == target

def Enters (target : Fin states) : Bool :=
  (List.finRange states).any fun source => table.RealizedEdges source target

def ForEachUnusedAllowance : List (Finding states events) :=
  ((List.finRange states).flatMap fun source => (List.finRange states).filterMap fun target =>
    if rules.IsExplicitlyAllowed source target && !table.RealizedEdges source target then
      some { kind := .unusedAllowance, state := some source, target := some target }
    else none) ++
  (List.finRange states).filterMap fun target =>
    if rules.IsAllowedFromAny target && !table.Enters target then
      some { kind := .unusedAllowance, target := some target }
    else none

/-- The loop of `CanReject` over the rows that are left. -/
def canRejectRows (state : Fin states) (event : Fin events) :
    List (Transition states events) → Bool → Bool
  | [], handled => handled
  | row :: rows, handled =>
    if (row.source.isNone || row.source == some state) && row.event == event then
      if !row.guarded then false else canRejectRows state event rows true
    else canRejectRows state event rows handled

def CanReject (state : Fin states) (event : Fin events) : Bool :=
  canRejectRows state event table false

def ForEachStructuralError : List (Finding states events) :=
  if table.length = 0 then [{ kind := .emptyTable }]
  else table.ForEachRepeatedPair ++ table.ForEachUnreachableState initial

def ForEachRuleError : List (Finding states events) :=
  ForEachContradictoryRule rules ++ table.ForEachRuleViolation rules

def ForEachWarning : List (Finding states events) :=
  table.ForEachUnusedEvent ++ table.ForEachDeadEndState rules ++ table.ForEachOverriddenAnyRow ++
    table.ForEachUnusedAllowance rules

def ForEachInfo : List (Finding states events) :=
  (List.finRange states).flatMap fun state => (List.finRange events).filterMap fun event =>
    if table.CanReject state event then
      some { kind := .canReject, state := some state, event := some event }
    else none

def ForEachFinding (rules : TransitionRules states) (minimum : Severity) :
    List (Finding states events) :=
  table.ForEachStructuralError initial ++ table.ForEachRuleError rules ++
    if table.length = 0 then []
    else (if minimum.value ≤ Severity.warning.value then table.ForEachWarning rules else []) ++
      if minimum.value ≤ Severity.info.value then table.ForEachInfo else []

def HighestSeverity (rules : TransitionRules states) : Option Severity :=
  (table.ForEachFinding initial rules .info).foldl
    (fun highest finding => match highest with
      | none => some (SeverityOf finding.kind)
      | some severity =>
        if severity.value < (SeverityOf finding.kind).value then some (SeverityOf finding.kind)
        else some severity)
    none

def IsValid (rules : TransitionRules states) (failAt : Severity) : Bool :=
  (table.HighestSeverity initial rules).all fun highest => highest.value < failAt.value

variable {table} {source current target : Fin states} {event : Fin events}

private theorem any_iff_row {test : Transition states events → Bool} :
    table.any test = true ↔ ∃ row, test (table.get row) = true := by
  rw [any_eq_true]
  constructor
  · rintro ⟨found, member, passed⟩
    obtain ⟨row, rfl⟩ := mem_iff_get.mp member
    exact ⟨row, passed⟩
  · rintro ⟨row, passed⟩
    exact ⟨table.get row, get_mem table row, passed⟩

theorem hasTransition_iff : table.HasTransition current event = true ↔
    ∃ row, IsFor table (some current) event row ∨ IsFor table none event row := by
  simp only [HasTransition, any_iff_row, IsFor, Bool.and_eq_true, Bool.or_eq_true, beq_iff_eq,
    Option.isNone_iff_eq_none]
  refine exists_congr fun row => ?_
  rw [or_and_right, or_comm]

theorem hasUnguardedSpecificRow_iff : table.HasUnguardedSpecificRow current event = true ↔
    ∃ row, IsFor table (some current) event row ∧ (table.get row).guarded = false := by
  simp only [HasUnguardedSpecificRow, any_iff_row, IsFor, Bool.and_eq_true, beq_iff_eq,
    Bool.not_eq_true']

theorem canReject_iff : table.CanReject current event = true ↔
    (∃ row, IsFor table (some current) event row ∨ IsFor table none event row) ∧
      ∀ row, IsFor table (some current) event row ∨ IsFor table none event row →
        (table.get row).guarded = true := by
  have rows (left : List (Transition states events)) (handled : Bool) :
      canRejectRows current event left handled = true ↔
        (handled = true ∨ ∃ row ∈ left, (row.source = none ∨ row.source = some current) ∧
          row.event = event) ∧
        ∀ row ∈ left, (row.source = none ∨ row.source = some current) ∧ row.event = event →
          row.guarded = true := by
    induction left generalizing handled with
    | nil => simp [canRejectRows]
    | cons row left ih =>
      simp only [canRejectRows, Bool.and_eq_true, Bool.or_eq_true, beq_iff_eq,
        Option.isNone_iff_eq_none, mem_cons, forall_eq_or_imp, exists_eq_or_imp]
      by_cases isFor : (row.source = none ∨ row.source = some current) ∧ row.event = event
      · cases row.guarded <;> simp [isFor, ih]
      · simp only [isFor, if_false, ih, false_or, false_imp_iff, true_and]
  simp only [CanReject, rows, IsFor, mem_iff_get, Bool.false_eq_true, false_or]
  constructor
  · rintro ⟨⟨_, ⟨row, rfl⟩, isFor⟩, guarded⟩
    refine ⟨⟨row, ?_⟩, fun row isFor => guarded _ ⟨row, rfl⟩ ?_⟩
    · rwa [← or_and_right, or_comm]
    · rwa [← or_and_right, or_comm] at isFor
  · rintro ⟨⟨row, isFor⟩, guarded⟩
    refine ⟨⟨_, ⟨row, rfl⟩, ?_⟩, ?_⟩
    · rwa [← or_and_right, or_comm] at isFor
    · rintro _ ⟨row, rfl⟩ isFor
      exact guarded row (by rwa [← or_and_right, or_comm])

/-- The edges: those of the external rows for one state, and those of the external
rows from any state for every state that no unguarded row is specific for. -/
theorem mem_forEachEdge {row : Fin table.length} :
    (row, source, target) ∈ table.ForEachEdge ↔
      (table.get row).internal = false ∧ (table.get row).target = target ∧
        ((table.get row).source = some source ∨ (table.get row).source = none ∧
          table.HasUnguardedSpecificRow source (table.get row).event = false) := by
  simp only [ForEachEdge, mem_flatMap, mem_finRange, true_and]
  constructor
  · rintro ⟨index, member⟩
    split at member
    · cases member
    next external =>
      have internal : (table.get index).internal = false := by simpa using external
      split at member
      next found specific =>
        obtain ⟨rfl, rfl, rfl⟩ : row = index ∧ source = found ∧ target = (table.get index).target := by
          simpa using member
        exact ⟨internal, rfl, .inl specific⟩
      next any =>
        obtain ⟨found, _, kept⟩ := mem_filterMap.mp member
        split at kept
        · cases kept
        next overridden =>
          obtain ⟨rfl, rfl, rfl⟩ : index = row ∧ found = source ∧ (table.get index).target = target := by
            simpa using kept
          exact ⟨internal, rfl, .inr ⟨any, by simpa using overridden⟩⟩
  · rintro ⟨internal, rfl, specific | ⟨any, overridden⟩⟩
    · exact ⟨row, by simp [-get_eq_getElem, internal, specific]⟩
    · refine ⟨row, ?_⟩
      simp only [internal, Bool.false_eq_true, if_false, any, mem_filterMap,
        mem_finRange, true_and]
      exact ⟨source, by simp [-get_eq_getElem, overridden]⟩

private theorem severityOf_highest (findings : List (Finding states events)) (failAt : Severity)
    (highest : Option Severity) :
    (findings.foldl (fun highest finding => match highest with
      | none => some (SeverityOf finding.kind)
      | some severity =>
        if severity.value < (SeverityOf finding.kind).value then some (SeverityOf finding.kind)
        else some severity) highest).all (fun highest => highest.value < failAt.value) = true ↔
      highest.all (fun highest => highest.value < failAt.value) = true ∧
        ∀ finding ∈ findings, (SeverityOf finding.kind).value < failAt.value := by
  induction findings generalizing highest with
  | nil => simp
  | cons finding findings ih =>
    rw [foldl_cons, ih, forall_mem_cons, ← and_assoc]
    refine and_congr_left fun _ => ?_
    cases highest with
    | none => simp
    | some severity =>
      dsimp only
      split <;> simp only [Option.all_some, decide_eq_true_eq] <;> omega

theorem isValid_iff {initial : Fin states} {rules : TransitionRules states} {failAt : Severity} :
    table.IsValid initial rules failAt = true ↔
      ∀ finding ∈ table.ForEachFinding initial rules .info,
        (SeverityOf finding.kind).value < failAt.value := by
  simp only [IsValid, HighestSeverity]
  exact (severityOf_highest _ _ none).trans (by simp)

/-- Under this set of states no row leads to a state outside it. -/
def Closed (table : Table states events) (reached : StateSet states) : Prop :=
  ∀ row ∈ table, (row.source.all reached) = true → reached row.target = true

private def reachedCount (reached : StateSet states) : Nat :=
  (Finset.univ.filter fun state => reached state = true).card

private theorem reachedCount_le (reached : StateSet states) : reachedCount reached ≤ states :=
  (Finset.card_filter_le _ _).trans_eq (Finset.card_fin states)

private theorem reachedCount_update {reached : StateSet states} {state : Fin states}
    (fresh : reached state = false) :
    reachedCount (update reached state true) = reachedCount reached + 1 := by
  have grown : (Finset.univ.filter fun other => update reached state true other = true) =
      insert state (Finset.univ.filter fun other => reached other = true) := by
    ext other
    by_cases same : other = state <;> simp [same, update_of_ne]
  rw [reachedCount, grown, Finset.card_insert_of_notMem (by simp [fresh]), reachedCount]

private theorem spreadRows_spec (rows : List (Transition states events)) (reached : StateSet states)
    (changed : Bool) :
    (∀ state, reached state = true → (spreadRows rows (reached, changed)).1 state = true) ∧
      reachedCount reached ≤ reachedCount (spreadRows rows (reached, changed)).1 ∧
      ((spreadRows rows (reached, changed)).2 = false →
        changed = false ∧ (spreadRows rows (reached, changed)).1 = reached ∧ Closed rows reached) ∧
      ((spreadRows rows (reached, changed)).2 = true → changed = true ∨
        reachedCount reached < reachedCount (spreadRows rows (reached, changed)).1) := by
  induction rows generalizing reached changed with
  | nil => simp [spreadRows, Closed]
  | cons row rows ih =>
    simp only [spreadRows]
    split
    next leads =>
      have fresh : reached row.target = false := by
        simpa using ((Bool.and_eq_true _ _).mp leads).1
      obtain ⟨grows, more, unchanged, -⟩ := ih (update reached row.target true) true
      rw [reachedCount_update fresh] at more
      refine ⟨fun state was => grows state ?_, by omega, fun stopped => ?_, fun _ => .inr (by omega)⟩
      · by_cases same : state = row.target <;> simp [same, update_of_ne, was]
      · cases (unchanged stopped).1
    next stays =>
      obtain ⟨grows, more, unchanged, changes⟩ := ih reached changed
      refine ⟨grows, more, fun stopped => ?_, changes⟩
      obtain ⟨before, same, closed⟩ := unchanged stopped
      refine ⟨before, same, forall_mem_cons.mpr ⟨fun sourceReached => ?_, closed⟩⟩
      simpa [sourceReached] using stays

private theorem spread_spec (table : Table states events) (passes : Nat) (reached : StateSet states)
    (enough : states < passes + reachedCount reached) :
    (∀ state, reached state = true → spread table passes reached state = true) ∧
      Closed table (spread table passes reached) := by
  induction passes generalizing reached with
  | zero => exact absurd (reachedCount_le reached) (by omega)
  | succ passes ih =>
    have spec := spreadRows_spec table reached false
    rcases pass : spreadRows table (reached, false) with ⟨next, _ | _⟩
    · simp only [spread, pass]
      rw [pass] at spec
      obtain ⟨grows, -, unchanged, -⟩ := spec
      obtain ⟨-, rfl, closed⟩ := unchanged rfl
      exact ⟨grows, closed⟩
    · simp only [spread, pass]
      rw [pass] at spec
      obtain ⟨grows, -, -, changes⟩ := spec
      have more : reachedCount reached < reachedCount next := by simpa using changes rfl
      obtain ⟨later, closed⟩ := ih next (by omega)
      exact ⟨fun state was => later state (grows state was), closed⟩

private theorem reachable_spec :
    table.Reachable initial initial = true ∧ Closed table (table.Reachable initial) := by
  have one : reachedCount (update (fun _ => false) initial true) =
      reachedCount (fun _ : Fin states => false) + 1 := reachedCount_update rfl
  obtain ⟨grows, closed⟩ := spread_spec table (states + 1)
    (update (fun _ => false) initial true) (by omega)
  exact ⟨grows initial (by simp), closed⟩

theorem reachable_initial : table.Reachable initial initial = true :=
  (reachable_spec initial).1

theorem reachable_closed : Closed table (table.Reachable initial) :=
  (reachable_spec initial).2

end Table

end Fsm
