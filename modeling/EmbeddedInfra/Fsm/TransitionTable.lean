import Mathlib.Data.List.FinRange

/-! The transition table of a `TableStateMachine` and the choice of a row. States and
events are the indices of the alternatives of the two variants; what a guard looks at
(the context, the state object, the payload of the event) is left to its outcome. -/

namespace Fsm

open List

/-- A row, `source` and `target` being its members `from` and `to`. An internal row is
built for one state and names that state as its target. -/
structure Transition (states events : Nat) where
  source : Option (Fin states)
  event : Fin events
  target : Fin states
  internal : Bool
  guarded : Bool
  staysInside : internal = true → source = some target
  deriving DecidableEq

variable {states events : Nat}

def Row (source : Fin states) (event : Fin events) (target : Fin states) (guarded : Bool) :
    Transition states events :=
  ⟨some source, event, target, false, guarded, by simp⟩

def RowFromAny (event : Fin events) (target : Fin states) (guarded : Bool) :
    Transition states events :=
  ⟨none, event, target, false, guarded, by simp⟩

def InternalRow (state : Fin states) (event : Fin events) (guarded : Bool) :
    Transition states events :=
  ⟨some state, event, state, true, guarded, fun _ => rfl⟩

abbrev Table (states events : Nat) := List (Transition states events)

/-- The first and the second of two states, or of two events. -/
def first : Fin 2 := 0
def second : Fin 2 := 1

inductive DispatchResult
  | transitioned
  | rejected
  | forbidden
  | queued
  deriving DecidableEq, Repr

variable (table : Table states events)

abbrev Table.rows : List (Fin table.length) := List.finRange table.length

/-- The loop of `SelectFrom` over the rows that are left, with the flag `rowExists`
it shares with its caller. `guards` holds the outcome of each row's guard. -/
def selectFromRows (guards : Fin table.length → Bool) (source : Option (Fin states))
    (event : Fin events) :
    List (Fin table.length) → Bool → Option (Fin table.length) × Bool
  | [], rowExists => (none, rowExists)
  | row :: rows, rowExists =>
    if (table.get row).source = source ∧ (table.get row).event = event then
      if !(table.get row).guarded || guards row then (some row, true)
      else selectFromRows guards source event rows true
    else selectFromRows guards source event rows rowExists

def selectFrom (guards : Fin table.length → Bool) (source : Option (Fin states))
    (event : Fin events) (rowExists : Bool) : Option (Fin table.length) × Bool :=
  selectFromRows table guards source event table.rows rowExists

/-- `Select`: a row for the current state goes before a row from any state. -/
def select (guards : Fin table.length → Bool) (current : Fin states) (event : Fin events) :
    Option (Fin table.length) × Bool :=
  match selectFrom table guards (some current) event false with
  | (some specific, rowExists) => (some specific, rowExists)
  | (none, rowExists) => selectFrom table guards none event rowExists

/-- The result of `DispatchNow` for what `Select` gave. -/
def dispatchResult : Option (Fin table.length) × Bool → DispatchResult
  | (some _, _) => .transitioned
  | (none, true) => .rejected
  | (none, false) => .forbidden

/-- A row that `SelectFrom` looks at for this source and event. -/
def IsFor (source : Option (Fin states)) (event : Fin events) (row : Fin table.length) : Prop :=
  (table.get row).source = source ∧ (table.get row).event = event

/-- The guard of the row lets it be taken. -/
def Accepts (guards : Fin table.length → Bool) (row : Fin table.length) : Prop :=
  (table.get row).guarded = false ∨ guards row = true

variable {table} {guards : Fin table.length → Bool} {source : Option (Fin states)}
  {event : Fin events} {rowExists : Bool}

variable {row : Fin table.length} {flag : Bool} {current : Fin states}

private theorem selectFromRows_some {rows : List (Fin table.length)}
    (chosen : selectFromRows table guards source event rows rowExists = (some row, flag)) :
    ∃ front back, rows = front ++ row :: back ∧ IsFor table source event row ∧
      Accepts table guards row ∧ flag = true ∧
      ∀ other ∈ front, IsFor table source event other → ¬ Accepts table guards other := by
  induction rows generalizing rowExists with
  | nil => simp [selectFromRows] at chosen
  | cons head rows ih =>
    have later {flagged : Bool}
        (skipped : IsFor table source event head → ¬ Accepts table guards head)
        (tail : selectFromRows table guards source event rows flagged = (some row, flag)) :
        ∃ front back, head :: rows = front ++ row :: back ∧ IsFor table source event row ∧
          Accepts table guards row ∧ flag = true ∧
          ∀ other ∈ front, IsFor table source event other → ¬ Accepts table guards other := by
      obtain ⟨front, back, split, isFor, accepted, flagEq, refused⟩ := ih tail
      refine ⟨head :: front, back, by rw [split, cons_append], isFor, accepted, flagEq, ?_⟩
      intro other member
      rcases mem_cons.mp member with same | member
      · exact same ▸ skipped
      · exact refused other member
    simp only [selectFromRows] at chosen
    split at chosen
    next isFor =>
      split at chosen
      next accepted =>
        have same : head = row := by simpa using congrArg Prod.fst chosen
        have flagEq : true = flag := by simpa using congrArg Prod.snd chosen
        refine ⟨[], rows, by rw [same, nil_append], same ▸ isFor, ?_, flagEq.symm, by simp⟩
        simpa [Accepts, same] using accepted
      next refused => exact later (fun _ => by simpa [Accepts] using refused) chosen
    next other => exact later (fun isFor => absurd isFor other) chosen

private theorem selectFromRows_none {rows : List (Fin table.length)}
    (chosen : selectFromRows table guards source event rows rowExists = (none, flag)) :
    (flag = true ↔ rowExists = true ∨ ∃ row ∈ rows, IsFor table source event row) ∧
      ∀ row ∈ rows, IsFor table source event row → ¬ Accepts table guards row := by
  induction rows generalizing rowExists with
  | nil =>
    have flagEq : rowExists = flag := by simpa [selectFromRows] using chosen
    simp [flagEq]
  | cons head rows ih =>
    simp only [selectFromRows] at chosen
    split at chosen
    next isFor =>
      split at chosen
      next => simp at chosen
      next refused =>
        obtain ⟨flagEq, none⟩ := ih chosen
        refine ⟨?_, ?_⟩
        · simp only [flagEq, true_or, true_iff]
          exact .inr ⟨head, mem_cons_self, isFor⟩
        · intro row member
          rcases mem_cons.mp member with same | member
          · exact fun _ => by simpa [Accepts, same] using refused
          · exact none row member
    next other =>
      obtain ⟨flagEq, none⟩ := ih chosen
      refine ⟨?_, ?_⟩
      · rw [flagEq]
        constructor
        · rintro (flagged | ⟨row, member, isFor⟩)
          · exact .inl flagged
          · exact .inr ⟨row, mem_cons_of_mem _ member, isFor⟩
        · rintro (flagged | ⟨row, member, isFor⟩)
          · exact .inl flagged
          · rcases mem_cons.mp member with same | member
            · exact absurd (same ▸ isFor) other
            · exact .inr ⟨row, member, isFor⟩
      · intro row member
        rcases mem_cons.mp member with same | member
        · exact fun isFor => absurd (same ▸ isFor) other
        · exact none row member

private theorem before_of_split {count : Nat} {front back : List (Fin count)} {row other : Fin count}
    (split : List.finRange count = front ++ row :: back) (earlier : other < row) :
    other ∈ front := by
  have sorted : (front ++ row :: back).Pairwise (· < ·) := split ▸ pairwise_lt_finRange count
  have member : other ∈ front ++ row :: back := split ▸ mem_finRange other
  rcases mem_append.mp member with inside | inside
  · exact inside
  · rcases mem_cons.mp inside with same | inside
    · exact absurd (same ▸ earlier) (lt_irrefl _)
    · have later := (pairwise_cons.mp (pairwise_append.mp sorted).2.1).1 other inside
      exact absurd (later.trans earlier) (lt_irrefl _)

theorem selectFrom_some
    (chosen : selectFrom table guards source event rowExists = (some row, flag)) :
    IsFor table source event row ∧ Accepts table guards row ∧ flag = true ∧
      ∀ other < row, IsFor table source event other → ¬ Accepts table guards other := by
  obtain ⟨front, back, split, isFor, accepted, flagEq, refused⟩ := selectFromRows_some chosen
  exact ⟨isFor, accepted, flagEq, fun other earlier => refused other (before_of_split split earlier)⟩

theorem selectFrom_none (chosen : selectFrom table guards source event rowExists = (none, flag)) :
    (flag = true ↔ rowExists = true ∨ ∃ row, IsFor table source event row) ∧
      ∀ row, IsFor table source event row → ¬ Accepts table guards row := by
  obtain ⟨flagEq, none⟩ := selectFromRows_none chosen
  refine ⟨by simpa using flagEq, fun row => none row (mem_finRange row)⟩

theorem selectFrom_of_first (isFor : IsFor table source event row)
    (accepted : Accepts table guards row)
    (refused : ∀ other < row, IsFor table source event other → ¬ Accepts table guards other) :
    selectFrom table guards source event rowExists = (some row, true) := by
  cases chosen : selectFrom table guards source event rowExists with
  | mk found flag =>
    cases found with
    | none => exact absurd accepted ((selectFrom_none chosen).2 row isFor)
    | some found =>
      obtain ⟨foundIsFor, foundAccepts, flagEq, earlier⟩ := selectFrom_some chosen
      rcases lt_trichotomy found row with before | same | after
      · exact absurd foundAccepts (refused found before foundIsFor)
      · rw [same, flagEq]
      · exact absurd accepted (earlier row after isFor)

/-- A row that `Select` gives is the first acceptable one for the current state, or
the first acceptable one from any state when every row for the state refuses. -/
theorem select_some (chosen : select table guards current event = (some row, flag)) :
    Accepts table guards row ∧
      (IsFor table (some current) event row ∨
        IsFor table none event row ∧
          ∀ other, IsFor table (some current) event other → ¬ Accepts table guards other) := by
  simp only [select] at chosen
  split at chosen
  next specific rowExists first =>
    have same : specific = row := by simpa using congrArg Prod.fst chosen
    obtain ⟨isFor, accepted, _⟩ := selectFrom_some first
    exact ⟨same ▸ accepted, .inl (same ▸ isFor)⟩
  next rowExists first =>
    obtain ⟨isFor, accepted, _⟩ := selectFrom_some chosen
    exact ⟨accepted, .inr ⟨isFor, (selectFrom_none first).2⟩⟩

theorem select_none (chosen : select table guards current event = (none, flag)) :
    (flag = true ↔ ∃ row, IsFor table (some current) event row ∨ IsFor table none event row) ∧
      ∀ row, IsFor table (some current) event row ∨ IsFor table none event row →
        ¬ Accepts table guards row := by
  simp only [select] at chosen
  split at chosen
  next => simp at chosen
  next rowExists first =>
    obtain ⟨firstFlag, firstNone⟩ := selectFrom_none first
    obtain ⟨flagEq, none⟩ := selectFrom_none chosen
    refine ⟨?_, fun row isFor => isFor.elim (firstNone row) (none row)⟩
    rw [flagEq, firstFlag, exists_or]
    simp

theorem select_specific (isFor : IsFor table (some current) event row)
    (accepted : Accepts table guards row)
    (refused : ∀ other < row, IsFor table (some current) event other →
      ¬ Accepts table guards other) :
    select table guards current event = (some row, true) := by
  simp only [select, selectFrom_of_first isFor accepted refused]

theorem select_fromAny (isFor : IsFor table none event row) (accepted : Accepts table guards row)
    (noSpecific : ∀ other, IsFor table (some current) event other → ¬ Accepts table guards other)
    (refused : ∀ other < row, IsFor table none event other → ¬ Accepts table guards other) :
    select table guards current event = (some row, true) := by
  simp only [select]
  split
  next specific rowExists first =>
    obtain ⟨specificIsFor, specificAccepts, _⟩ := selectFrom_some first
    exact absurd specificAccepts (noSpecific specific specificIsFor)
  next => exact selectFrom_of_first isFor accepted refused

end Fsm
