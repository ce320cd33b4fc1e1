import Mathlib.Data.Finset.Card

/-! Walks of a partial function that says for every place which one comes next. -/

namespace Walks

variable {α : Type} {next : α → Option α}

def Leads (next : α → Option α) (a b : α) : Prop := next a = some b

/-- The walk from a place comes to an end, at the last of a number of places. -/
inductive Visits (next : α → Option α) : α → Nat → Prop
  | last {a : α} (none : next a = none) : Visits next a 1
  | step {a b : α} {n : Nat} (leads : next a = some b) (rest : Visits next b n) :
      Visits next a (n + 1)

/-- The walk from a place never comes back to where it has been. -/
def LoopFree (next : α → Option α) (a : α) : Prop :=
  ∀ b, Relation.ReflTransGen (Leads next) a b → ¬ Relation.TransGen (Leads next) b b

variable {a : α} {n : Nat}

theorem LoopFree.onward {b : α} (free : LoopFree next a) (leads : next a = some b) :
    LoopFree next b :=
  fun c reached => free c (.head leads reached)

theorem Visits.unique {m : Nat} (visits : Visits next a n) (again : Visits next a m) : n = m := by
  induction visits generalizing m with
  | last none =>
    cases again with
    | last => rfl
    | step leads => exact absurd (none.symm.trans leads) nofun
  | step leads _ ih =>
    cases again with
    | last none => exact absurd (none.symm.trans leads) nofun
    | step leads' rest =>
      cases Option.some.inj (leads.symm.trans leads')
      rw [ih rest]

theorem Visits.of_transGen {b : α} (visits : Visits next a n)
    (reached : Relation.TransGen (Leads next) a b) : ∃ m < n, Visits next b m := by
  induction reached using Relation.TransGen.head_induction_on generalizing n with
  | @single a leads =>
    cases visits with
    | last none => exact absurd (none.symm.trans leads) nofun
    | step leads' rest =>
      cases Option.some.inj (leads'.symm.trans leads)
      exact ⟨_, Nat.lt_succ_self _, rest⟩
  | @head a c leads _ ih =>
    cases visits with
    | last none => exact absurd (none.symm.trans leads) nofun
    | step leads' rest =>
      cases Option.some.inj (leads'.symm.trans leads)
      obtain ⟨m, less, visits⟩ := ih rest
      exact ⟨m, less.trans (Nat.lt_succ_self _), visits⟩

theorem Visits.no_return (visits : Visits next a n) : ¬ Relation.TransGen (Leads next) a a := by
  intro back
  obtain ⟨m, less, again⟩ := visits.of_transGen back
  exact absurd (visits.unique again) less.ne'

theorem Visits.loopFree (visits : Visits next a n) : LoopFree next a := by
  intro b reached
  rcases Relation.reflTransGen_iff_eq_or_transGen.mp reached with same | onward
  · rw [same]
    exact visits.no_return
  · obtain ⟨m, _, later⟩ := visits.of_transGen onward
    exact later.no_return

section

variable [DecidableEq α] {inside : Finset α}

variable {seen : Finset α} {a : α}

section

variable (known : ∀ a b, next a = some b → a ∈ inside)

include known

theorem fresh_place (within : seen ⊆ inside) {b : α}
    (behind : ∀ c ∈ seen, Relation.TransGen (Leads next) c a)
    (away : ¬ Relation.TransGen (Leads next) a a) (leads : next a = some b) :
    insert a seen ⊆ inside ∧ (insert a seen).card = seen.card + 1 ∧
      ∀ c ∈ insert a seen, Relation.TransGen (Leads next) c b := by
  have fresh : a ∉ seen := fun old => away (behind a old)
  refine ⟨?_, Finset.card_insert_of_notMem fresh, ?_⟩
  · intro c member
    rcases Finset.mem_insert.mp member with same | old
    · rw [same]
      exact known a b leads
    · exact within old
  · intro c member
    rcases Finset.mem_insert.mp member with same | old
    · rw [same]
      exact .single leads
    · exact (behind c old).tail leads

theorem Visits.bounded {n : Nat} (visits : Visits next a n) (within : seen ⊆ inside)
    (behind : ∀ c ∈ seen, Relation.TransGen (Leads next) c a) :
    seen.card + n ≤ inside.card + 1 := by
  induction visits generalizing seen with
  | last => exact Nat.succ_le_succ (Finset.card_le_card within)
  | @step a b n leads rest ih =>
    have away := (Visits.step leads rest).no_return
    obtain ⟨within', card, behind'⟩ := fresh_place known within behind away leads
    have := ih within' behind'
    omega

theorem LoopFree.visits_from (left : Nat) (free : LoopFree next a) (within : seen ⊆ inside)
    (behind : ∀ c ∈ seen, Relation.TransGen (Leads next) c a)
    (room : inside.card = seen.card + left) : ∃ n, Visits next a n := by
  induction left generalizing a seen with
  | zero =>
    cases leads : next a with
    | none => exact ⟨1, .last leads⟩
    | some b =>
      obtain ⟨within', card, _⟩ := fresh_place known within behind (free a .refl) leads
      have := Finset.card_le_card within'
      omega
  | succ left ih =>
    cases leads : next a with
    | none => exact ⟨1, .last leads⟩
    | some b =>
      obtain ⟨within', card, behind'⟩ := fresh_place known within behind (free a .refl) leads
      obtain ⟨n, visits⟩ := ih (free.onward leads) within' behind' (by omega)
      exact ⟨n + 1, .step leads visits⟩

/-- With finitely many places to go on from, a walk ends just if it has no loop, and then it is no
longer than that. -/
theorem loopFree_iff_visits : LoopFree next a ↔ ∃ n ≤ inside.card + 1, Visits next a n := by
  constructor
  · intro free
    obtain ⟨n, visits⟩ := free.visits_from known inside.card (Finset.empty_subset _)
      (fun c member => absurd member (Finset.notMem_empty c)) (by simp)
    have bounded := visits.bounded known (Finset.empty_subset _)
      (fun c member => absurd member (Finset.notMem_empty c))
    exact ⟨n, by simpa using bounded, visits⟩
  · intro ⟨n, _, visits⟩
    exact visits.loopFree

end

end

end Walks
