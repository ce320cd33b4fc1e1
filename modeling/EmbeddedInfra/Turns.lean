/-! Requests that take turns: one is served at a time, in the order in which they were made, and each
is answered once unless it is cancelled. -/

namespace Turns

open List

variable {ρ α : Type}

/-- The requests that wait, by their tickets, the one that is served and how far it is, and the
tickets whose turn has come, that were answered, and that were cancelled. -/
structure Queue (ρ α : Type) where
  next : Nat
  waiting : List (Nat × ρ)
  active : Option (Nat × ρ × α)
  started : List Nat
  answered : List Nat
  cancelled : List Nat

namespace Queue

def empty : Queue ρ α where
  next := 0
  waiting := []
  active := none
  started := []
  answered := []
  cancelled := []

variable (q : Queue ρ α)

def activeTicket : List Nat := (q.active.map Prod.fst).toList

/-- The tickets that have no end yet. -/
def pending : List Nat := q.activeTicket ++ q.waiting.map Prod.fst

def request (r : ρ) : Queue ρ α :=
  { q with next := q.next + 1, waiting := q.waiting ++ [(q.next, r)] }

/-- A request that needs no turn. -/
def answerAtOnce : Queue ρ α :=
  { q with next := q.next + 1, answered := q.answered ++ [q.next] }

def withdraw (ticket : Nat) : Queue ρ α :=
  { q with
    waiting := q.waiting.eraseP fun entry => entry.1 == ticket
    cancelled := q.cancelled ++ [ticket] }

/-- The first that waits has its turn, if none is served. -/
def start (state : α) : Queue ρ α :=
  match q.active, q.waiting with
  | none, (ticket, r) :: rest =>
    { q with
      waiting := rest
      active := some (ticket, r, state)
      started := q.started ++ [ticket] }
  | _, _ => q

def advance (state : α) : Queue ρ α :=
  { q with active := q.active.map fun (ticket, r, _) => (ticket, r, state) }

def answer : Queue ρ α :=
  { q with active := none, answered := q.answered ++ q.activeTicket }

def cancel : Queue ρ α :=
  { q with active := none, cancelled := q.cancelled ++ q.activeTicket }

end Queue

/-- Every ticket that was given out is answered or cancelled or has no end yet, and only one of
these, and once; the turns are in the order of the tickets, and one is over before the next. -/
structure Orderly (q : Queue ρ α) : Prop where
  once : (q.answered ++ q.cancelled ++ q.pending).Perm (List.range q.next)
  inOrder : (q.started ++ q.waiting.map Prod.fst).Pairwise (· < ·)
  exclusive : ∀ t ∈ q.started, t ∈ q.answered ∨ t ∈ q.cancelled ∨ t ∈ q.activeTicket

namespace Orderly

variable {q : Queue ρ α}

theorem empty : Orderly (Queue.empty : Queue ρ α) where
  once := .refl _
  inOrder := .nil
  exclusive := nofun

section

variable (orderly : Orderly q)

include orderly

theorem waiting_lt : ∀ t ∈ q.waiting.map Prod.fst, t < q.next := by
  intro t member
  apply mem_range.mp
  apply orderly.once.mem_iff.mp
  exact mem_append.mpr (.inr (mem_append.mpr (.inr member)))

theorem started_lt : ∀ t ∈ q.started, t < q.next := by
  intro t member
  apply mem_range.mp
  apply orderly.once.mem_iff.mp
  rcases orderly.exclusive t member with answered | cancelled | active
  · exact mem_append.mpr (.inl (mem_append.mpr (.inl answered)))
  · exact mem_append.mpr (.inl (mem_append.mpr (.inr cancelled)))
  · exact mem_append.mpr (.inr (mem_append.mpr (.inl active)))

theorem request (r : ρ) : Orderly (q.request r) where
  once := by
    have grown : (q.request r).pending = q.pending ++ [q.next] := by
      simp [Queue.request, Queue.pending, Queue.activeTicket]
    rw [grown, ← append_assoc]
    simp only [Queue.request, range_succ]
    exact orderly.once.append_right _
  inOrder := by
    simp only [Queue.request, map_append, map_cons, map_nil]
    rw [← append_assoc, pairwise_append]
    refine ⟨orderly.inOrder, pairwise_singleton _ _, ?_⟩
    intro a member b last
    cases mem_singleton.mp last
    cases mem_append.mp member with
    | inl begun => exact orderly.started_lt a begun
    | inr waits => exact orderly.waiting_lt a waits
  exclusive := orderly.exclusive

theorem answerAtOnce : Orderly q.answerAtOnce where
  once := by
    simp only [Queue.answerAtOnce, range_succ]
    calc
      _ = q.answered ++ ([q.next] ++ (q.cancelled ++ q.pending)) := by
        simp [Queue.pending, Queue.activeTicket]
      List.Perm _ (q.answered ++ ((q.cancelled ++ q.pending) ++ [q.next])) :=
        perm_append_comm.append_left _
      _ = q.answered ++ q.cancelled ++ q.pending ++ [q.next] := by simp
      List.Perm _ _ := orderly.once.append_right _
  inOrder := orderly.inOrder
  exclusive := by
    intro t member
    rcases orderly.exclusive t member with answered | others
    · exact .inl (mem_append.mpr (.inl answered))
    · exact .inr others

theorem withdraw {ticket : Nat} (waits : ticket ∈ q.waiting.map Prod.fst) :
    Orderly (q.withdraw ticket) := by
  have erased : (q.withdraw ticket).waiting.map Prod.fst = (q.waiting.map Prod.fst).erase ticket := by
    rw [erase_eq_eraseP', eraseP_map]
    rfl
  constructor
  · have pending : (q.withdraw ticket).pending =
        q.activeTicket ++ (q.waiting.map Prod.fst).erase ticket := by
      rw [Queue.pending, erased]
      rfl
    rw [pending]
    simp only [Queue.withdraw]
    calc
      _ = q.answered ++ q.cancelled ++ (ticket :: (q.activeTicket ++
          (q.waiting.map Prod.fst).erase ticket)) := by simp
      List.Perm _ (q.answered ++ q.cancelled ++ (q.activeTicket ++
          (ticket :: (q.waiting.map Prod.fst).erase ticket))) :=
        perm_middle.symm.append_left _
      List.Perm _ (q.answered ++ q.cancelled ++ (q.activeTicket ++ q.waiting.map Prod.fst)) :=
        ((perm_cons_erase waits).symm.append_left _).append_left _
      List.Perm _ _ := orderly.once
  · rw [erased]
    exact orderly.inOrder.sublist (erase_sublist.append_left _)
  · intro t member
    rcases orderly.exclusive t member with answered | cancelled | active
    · exact .inl answered
    · exact .inr (.inl (mem_append.mpr (.inl cancelled)))
    · exact .inr (.inr active)

theorem start (state : α) : Orderly (q.start state) := by
  rw [Queue.start]
  split
  next ticket r rest idle first =>
    have pending : q.pending = ticket :: rest.map Prod.fst := by
      simp [Queue.pending, Queue.activeTicket, idle, first]
    constructor
    · have kept := orderly.once
      rw [pending] at kept
      exact kept
    · have kept := orderly.inOrder
      rw [first] at kept
      simpa using kept
    · intro t member
      cases mem_append.mp member with
      | inl old =>
        rcases orderly.exclusive t old with answered | cancelled | active
        · exact .inl answered
        · exact .inr (.inl cancelled)
        · simp [Queue.activeTicket, idle] at active
      | inr new => exact .inr (.inr new)
  next => exact orderly

theorem advance (state : α) : Orderly (q.advance state) := by
  have same : (q.advance state).activeTicket = q.activeTicket := by
    cases active : q.active <;> simp [Queue.advance, Queue.activeTicket, active]
  constructor
  · rw [Queue.pending, same]
    exact orderly.once
  · exact orderly.inOrder
  · rw [same]
    exact orderly.exclusive

theorem answer : Orderly q.answer := by
  constructor
  · calc
      _ = q.answered ++ (q.activeTicket ++ (q.cancelled ++ q.waiting.map Prod.fst)) := by
        simp [Queue.answer, Queue.pending, Queue.activeTicket]
      List.Perm _ (q.answered ++ (q.cancelled ++ (q.activeTicket ++ q.waiting.map Prod.fst))) := by
        apply List.Perm.append_left
        rw [← append_assoc, ← append_assoc]
        exact perm_append_comm.append_right _
      _ = q.answered ++ q.cancelled ++ q.pending := by simp [Queue.pending]
      List.Perm _ _ := orderly.once
  · exact orderly.inOrder
  · intro t member
    rcases orderly.exclusive t member with answered | cancelled | active
    · exact .inl (mem_append.mpr (.inl answered))
    · exact .inr (.inl cancelled)
    · exact .inl (mem_append.mpr (.inr active))

theorem cancel : Orderly q.cancel := by
  constructor
  · calc
      _ = q.answered ++ q.cancelled ++ q.pending := by
        simp [Queue.cancel, Queue.pending, Queue.activeTicket]
      List.Perm _ _ := orderly.once
  · exact orderly.inOrder
  · intro t member
    rcases orderly.exclusive t member with answered | cancelled | active
    · exact .inl answered
    · exact .inr (.inl (mem_append.mpr (.inl cancelled)))
    · exact .inr (.inl (mem_append.mpr (.inr active)))

end

end Orderly

end Turns
