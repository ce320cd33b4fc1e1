import Mathlib.Data.List.Infix

/-! Parts of a sequence that are shown one after the other, each as far as it lies in one piece. -/

namespace Ranges

variable {α : Type}

def Contiguous (elements range : List α) : Prop :=
  range <+: elements ∧ (elements ≠ [] → range ≠ [])

namespace Contiguous

variable {elements range : List α}

theorem append (contiguous : Contiguous elements range) (some : elements ≠ []) (more : List α) :
    Contiguous (elements ++ more) range :=
  ⟨contiguous.1.trans (List.prefix_append _ _), fun _ => contiguous.2 some⟩

theorem take (contiguous : Contiguous elements range) (max : Nat) :
    Contiguous (elements.take max) (range.take max) := by
  refine ⟨contiguous.1.take max, ?_⟩
  intro some
  rw [Ne, List.take_eq_nil_iff] at some ⊢
  intro nothing
  cases nothing with
  | inl none => exact some (Or.inl none)
  | inr none =>
    exact contiguous.2 (fun gone => some (Or.inr gone)) none

theorem head? (contiguous : Contiguous elements range) : range.head? = elements.head? := by
  match range, contiguous with
  | [], contiguous =>
    match elements, contiguous with
    | [], _ => rfl
    | _ :: _, contiguous => exact absurd rfl (contiguous.2 (List.cons_ne_nil _ _))
  | first :: rest, contiguous =>
    have ⟨more, whole⟩ := contiguous.1
    rw [← whole]
    rfl

theorem nil : Contiguous ([] : List α) [] := ⟨List.prefix_rfl, fun some => some⟩

end Contiguous

end Ranges
