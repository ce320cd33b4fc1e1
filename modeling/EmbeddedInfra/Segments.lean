import Mathlib.Data.List.Basic

/-! Places that are linked by a pointer from each to the next one. -/

namespace Segments

open List

variable {ν : Type} {next : ν → Option ν}

def Segment (next : ν → Option ν) : Option ν → List ν → Option ν → Prop
  | first, [], last => first = last
  | first, a :: rest, last => first = some a ∧ Segment next (next a) rest last

variable {first last : Option ν} {a : ν} {front back places : List ν}

@[simp] theorem segment_nil : Segment next first [] last ↔ first = last :=
  Iff.rfl

@[simp] theorem segment_cons {rest : List ν} :
    Segment next first (a :: rest) last ↔ first = some a ∧ Segment next (next a) rest last := Iff.rfl

theorem segment_append :
    Segment next first (front ++ back) last ↔
      ∃ middle, Segment next first front middle ∧ Segment next middle back last := by
  induction front generalizing first with
  | nil => simp
  | cons a rest ih =>
    simp only [cons_append, segment_cons, ih]
    constructor
    · intro ⟨here, middle, before, after⟩
      exact ⟨middle, ⟨here, before⟩, after⟩
    · intro ⟨middle, ⟨here, before⟩, after⟩
      exact ⟨here, middle, before, after⟩

theorem segment_snoc :
    Segment next first (front ++ [a]) last ↔ Segment next first front (some a) ∧ next a = last := by
  rw [segment_append]
  constructor
  · intro ⟨middle, before, here, after⟩
    exact ⟨here ▸ before, after⟩
  · intro ⟨before, after⟩
    exact ⟨some a, before, rfl, after⟩

theorem Segment.congr {next' : ν → Option ν} (segment : Segment next first places last)
    (same : ∀ a ∈ places, next' a = next a) :
    Segment next' first places last := by
  induction places generalizing first with
  | nil => exact segment
  | cons a rest ih =>
    refine ⟨segment.1, ?_⟩
    rw [same a mem_cons_self]
    exact ih segment.2 fun b member => same b (mem_cons_of_mem _ member)

theorem Segment.first_eq (segment : Segment next first places last) :
    first = places.head?.or last := by
  cases places with
  | nil => exact segment
  | cons a rest => exact segment.1

theorem getLast?_outside (distinct : (front ++ back).Nodup) : ∀ a ∈ front.getLast?, a ∉ back := by
  intro a isLast member
  have inFront := mem_of_getLast? isLast
  exact (nodup_append.mp distinct).2.2 a inFront a member rfl

variable [DecidableEq ν]

theorem Segment.update (segment : Segment next first places last) (outside : a ∉ places)
    (pointer : Option ν) :
    Segment (Function.update next a pointer) first places last :=
  segment.congr fun b member =>
    Function.update_of_ne (fun same : b = a => outside (same ▸ member)) _ _

theorem Segment.redirect (segment : Segment next first (front ++ [a]) last) (outside : a ∉ front)
    (pointer : Option ν) :
    Segment (Function.update next a pointer) first (front ++ [a]) pointer := by
  rw [segment_snoc] at segment ⊢
  exact ⟨segment.1.update outside pointer, Function.update_self _ _ _⟩

def redirect (next : ν → Option ν) (first last pointer : Option ν) : (ν → Option ν) × Option ν :=
  match last with
  | none => (next, pointer)
  | some a => (Function.update next a pointer, first)

theorem redirect_of_ne {pointer : Option ν} (differs : last ≠ some a) :
    (redirect next first last pointer).1 a = next a := by
  cases last with
  | none => rfl
  | some b =>
    apply Function.update_of_ne
    exact fun same : a = b => differs (congrArg some same.symm)

theorem Segment.redirected (segment : Segment next first places last) (distinct : places.Nodup)
    (pointer : Option ν) :
    Segment (Segments.redirect next first places.getLast? pointer).1
      (Segments.redirect next first places.getLast? pointer).2 places pointer := by
  rcases eq_nil_or_concat' places with nothing | ⟨front, a, shape⟩
  · subst nothing
    rfl
  · subst shape
    rw [getLast?_concat]
    have ⟨_, _, apart⟩ := nodup_append.mp distinct
    exact segment.redirect (fun member => apart a member a mem_cons_self rfl) pointer

theorem Segment.redirected_other {start end_ : Option ν} (segment : Segment next start places last)
    (first : Option ν) (outside : ∀ a ∈ end_, a ∉ places) (pointer : Option ν) :
    Segment (Segments.redirect next first end_ pointer).1 start places last :=
  segment.congr fun a member => redirect_of_ne fun same => outside a same member

theorem Segment.insert (segment : Segment next first (front ++ back) last)
    (distinct : (front ++ back).Nodup) (new : a ∉ front ++ back) :
    let forth :=
      Segments.redirect (Function.update next a (back.head?.or last)) first front.getLast? (some a)
    Segment forth.1 forth.2 (front ++ a :: back) last := by
  have ⟨middle, before, after⟩ := segment_append.mp segment
  have ⟨notFront, notBack⟩ := not_or.mp (mem_append.not.mp new)
  have isNot : front.getLast? ≠ some a := fun isLast => notFront (mem_of_getLast? isLast)
  apply segment_append.mpr
  refine ⟨some a, ?_, rfl, ?_⟩
  · exact (before.update notFront _).redirected (nodup_append.mp distinct).1 _
  · rw [redirect_of_ne isNot, Function.update_self, ← after.first_eq]
    exact (after.update notBack _).redirected_other _ (getLast?_outside distinct) _

theorem Segment.remove (segment : Segment next first (front ++ a :: back) last)
    (distinct : (front ++ a :: back).Nodup) :
    let forth := Segments.redirect next first front.getLast? (back.head?.or last)
    Segment forth.1 forth.2 (front ++ back) last := by
  have ⟨middle, before, _, after⟩ := segment_append.mp segment
  apply segment_append.mpr
  refine ⟨back.head?.or last, before.redirected (nodup_append.mp distinct).1 _, ?_⟩
  rw [← after.first_eq]
  apply after.redirected_other
  intro b isLast member
  exact getLast?_outside distinct b isLast (mem_cons_of_mem _ member)

end Segments
