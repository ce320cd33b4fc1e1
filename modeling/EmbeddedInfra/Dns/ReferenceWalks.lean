import EmbeddedInfra.Dns.LabelWalks

/-! Where the references of a name lead, and when following them comes to an end. -/

namespace Dns

open Walks

def pointerNext (data : Bytes) (q : Nat) : Option Nat :=
  if isReference (byteAt data q) then target data q else none

variable {data : Bytes}

theorem pointerNext_inside (p q : Nat) (leads : pointerNext data p = some q) :
    p ∈ Finset.range data.length := by
  rw [pointerNext] at leads
  split at leads
  next marked => exact Finset.mem_range.mpr (inside_of_isReference marked)
  next => cases leads

theorem loopFree_iff_visits_references {q : Nat} :
    LoopFree (pointerNext data) q ↔ ∃ n ≤ enoughRounds data, Visits (pointerNext data) q n := by
  have iff : LoopFree (pointerNext data) q ↔ _ := loopFree_iff_visits pointerNext_inside
  rwa [Finset.card_range] at iff

namespace PartsStream

theorem followReferences_plain (rounds : Nat) {q : Nat} (finalPosition : Option Nat) (r : Reader)
    (unmarked : isReference (byteAt data q) = false) :
    followReferences data (rounds + 1) (byteAt data q) finalPosition r =
      .ok (byteAt data q, finalPosition, r) := by
  rw [followReferences, if_neg (by simp [unmarked])]

theorem followReferences_refused (rounds : Nat) {q : Nat} (finalPosition : Option Nat)
    (failed : Bool) (marked : isReference (byteAt data q) = true) (refused : target data q = none) :
    ∃ found, followReferences data (rounds + 1) (byteAt data q) finalPosition
      ⟨after data q, failed⟩ = .ok found := by
  rw [target] at refused
  split at refused
  next => cases refused
  next beyond =>
    rw [followReferences, if_pos marked]
    simp only [extractByte_eq, after_inside (inside_of_isReference marked), Nat.not_lt.mp beyond,
      if_true]
    exact ⟨_, rfl⟩

theorem followReferences_next (rounds : Nat) {q offset : Nat} (finalPosition : Option Nat)
    (failed : Bool) (marked : isReference (byteAt data q) = true)
    (leads : target data q = some offset) :
    ∃ (failed' : Bool) (finalPosition' : Option Nat),
      followReferences data (rounds + 1) (byteAt data q) finalPosition ⟨after data q, failed⟩ =
        followReferences data rounds (byteAt data offset) finalPosition'
          ⟨after data offset, failed'⟩ := by
  rw [target] at leads
  split at leads
  next before =>
    cases leads
    rw [followReferences, if_pos marked]
    simp only [extractByte_eq, after_inside (inside_of_isReference marked), Nat.not_le.mpr before,
      if_false, Reader.rewind]
    exact ⟨_, _, rfl⟩
  next => cases leads

theorem followReferences_of_visits {q n : Nat} (visits : Visits (pointerNext data) q n)
    {rounds : Nat} (enough : n ≤ rounds) (finalPosition : Option Nat) (failed : Bool) :
    ∃ found, followReferences data rounds (byteAt data q) finalPosition ⟨after data q, failed⟩ =
      .ok found := by
  induction visits generalizing rounds finalPosition failed with
  | @last q none =>
    obtain ⟨rounds, rfl⟩ : ∃ more, rounds = more + 1 := ⟨rounds - 1, by omega⟩
    rw [pointerNext] at none
    split at none
    next marked => exact followReferences_refused rounds finalPosition failed marked none
    next unmarked =>
      exact ⟨_, followReferences_plain rounds _ _ (Bool.eq_false_iff.mpr unmarked)⟩
  | @step q offset n leads rest ih =>
    obtain ⟨rounds, rfl⟩ : ∃ more, rounds = more + 1 := ⟨rounds - 1, by omega⟩
    rw [pointerNext] at leads
    split at leads
    next marked =>
      obtain ⟨failed', finalPosition', same⟩ :=
        followReferences_next rounds finalPosition failed marked leads
      rw [same]
      exact ih (Nat.le_of_succ_le_succ enough) finalPosition' failed'
    next => cases leads

theorem visits_of_followReferences (rounds : Nat) {q : Nat} {finalPosition : Option Nat}
    {failed : Bool} {found : UInt8 × Option Nat × Reader}
    (returns : followReferences data rounds (byteAt data q) finalPosition ⟨after data q, failed⟩ =
      .ok found) : ∃ n, Visits (pointerNext data) q n := by
  induction rounds generalizing q finalPosition failed with
  | zero => cases returns
  | succ rounds ih =>
    cases leads : pointerNext data q with
    | none => exact ⟨1, .last leads⟩
    | some offset =>
      have known := leads
      rw [pointerNext] at leads
      split at leads
      next marked =>
        obtain ⟨failed', finalPosition', same⟩ :=
          followReferences_next rounds finalPosition failed marked leads
        obtain ⟨n, visits⟩ := ih (same ▸ returns)
        exact ⟨n + 1, .step known visits⟩
      next => cases leads

theorem followReferences_error (rounds : Nat) (size : UInt8) (finalPosition : Option Nat)
    (r : Reader) {e : Stop} (stops : followReferences data rounds size finalPosition r = .error e) :
    e = .running := by
  induction rounds generalizing size finalPosition r with
  | zero =>
    cases stops
    rfl
  | succ rounds ih =>
    rw [followReferences] at stops
    split at stops
    · simp only at stops
      split at stops
      · cases stops
      · exact ih _ _ _ stops
    · cases stops

theorem readNext_error (parts : PartsStream) (rounds : Nat) {e : Stop}
    (stops : parts.readNext data rounds = .error e) : e = .running := by
  simp only [readNext] at stops
  split at stops
  · cases stops
  · cases inner : followReferences data rounds
      (Reader.extractByte data ⟨parts.streamPosition, false⟩).1 parts.finalPosition
      (Reader.extractByte data ⟨parts.streamPosition, false⟩).2 with
    | error e' =>
      rw [inner] at stops
      cases stops
      exact followReferences_error _ _ _ _ inner
    | ok found =>
      rw [inner] at stops
      cases stops

theorem readNext_iff (parts : PartsStream) :
    (∃ next, parts.readNext data (enoughRounds data) = .ok next) ↔
      LoopFree (pointerNext data) parts.streamPosition := by
  simp only [readNext]
  split
  next outside =>
    have none : pointerNext data parts.streamPosition = none := by
      rw [pointerNext, byteAt_outside outside]
      rfl
    exact iff_of_true ⟨_, rfl⟩ (Visits.last none).loopFree
  next =>
    rw [loopFree_iff_visits_references, extractByte_eq]
    constructor
    · intro ⟨next, returns⟩
      cases inner : followReferences data (enoughRounds data) (byteAt data parts.streamPosition)
        parts.finalPosition ⟨after data parts.streamPosition,
          false || decide (data.length ≤ parts.streamPosition)⟩ with
      | error e =>
        rw [inner] at returns
        cases returns
      | ok found =>
        obtain ⟨n, visits⟩ := visits_of_followReferences _ inner
        exact loopFree_iff_visits_references.mp visits.loopFree
    · intro ⟨n, enough, visits⟩
      obtain ⟨found, returns⟩ := followReferences_of_visits visits enough parts.finalPosition
        (false || decide (data.length ≤ parts.streamPosition))
      exact ⟨_, by rw [returns]; rfl⟩

end PartsStream

/-- A label is put behind what has been read of the name, and there is another one. -/
inductive Gathers (data : Bytes) : Nat × PartsStream → Nat × PartsStream → Prop
  | next {length : Nat} {parts parts' : PartsStream} (present : parts.label ≠ [])
      (returns : parts.readNext data (enoughRounds data) = .ok parts')
      (another : parts'.label ≠ []) (room : length + parts.label.length < maxHostname) :
      Gathers data (length, parts) (length + parts.label.length + 1, parts')

def Gatherable (data : Bytes) (g : Nat × PartsStream) : Prop :=
  g.2.label ≠ [] → g.1 + g.2.label.length ≤ maxHostname →
    LoopFree (pointerNext data) g.2.streamPosition

theorem gathers_start {length : Nat} {parts : PartsStream} {g : Nat × PartsStream}
    (gathers : Gathers data (length, parts) g) :
    parts.label ≠ [] ∧ length + parts.label.length < maxHostname ∧
      parts.readNext data (enoughRounds data) = .ok g.2 ∧ g.2.label ≠ [] ∧
      g.1 = length + parts.label.length + 1 := by
  cases gathers with
  | next present returns another room => exact ⟨present, room, returns, another, rfl⟩

theorem gatherable_alone {length : Nat} {parts : PartsStream}
    (alone : ∀ g, ¬ Gathers data (length, parts) g) (here : Gatherable data (length, parts))
    (g : Nat × PartsStream) (reached : Relation.ReflTransGen (Gathers data) (length, parts) g) :
    Gatherable data g := by
  cases reached.cases_head with
  | inl same => rwa [← same]
  | inr onward =>
    obtain ⟨g', gathers, _⟩ := onward
    exact absurd gathers (alone g')

theorem readHostnameParts_ends_iff (room : Nat) (reconstructedHostname : Bytes)
    (parts : PartsStream) (fits : maxHostname ≤ room + reconstructedHostname.length) :
    readHostnameParts data (enoughRounds data) room reconstructedHostname parts ≠
        .error .running ↔
      ∀ g, Relation.ReflTransGen (Gathers data) (reconstructedHostname.length, parts) g →
        Gatherable data g := by
  induction room generalizing reconstructedHostname parts with
  | zero =>
    have ends : readHostnameParts data (enoughRounds data) 0 reconstructedHostname parts ≠
        .error .running := by
      rw [readHostnameParts]
      split <;> exact nofun
    apply iff_of_true ends
    have full : parts.label ≠ [] → maxHostname < reconstructedHostname.length +
        parts.label.length := by
      intro present
      have := List.length_pos_iff.mpr present
      omega
    apply gatherable_alone
    · intro g gathers
      have start := gathers_start gathers
      have := full start.1
      omega
    · intro present within
      have := full present
      simp only at within
      omega
  | succ room ih =>
    rw [readHostnameParts]
    split
    next absent =>
      rw [List.isEmpty_iff] at absent
      apply iff_of_true nofun
      apply gatherable_alone
      · intro g gathers
        exact (gathers_start gathers).1 absent
      · intro present
        exact absurd absent present
    next present =>
      rw [List.isEmpty_iff] at present
      split
      next full =>
        apply iff_of_true nofun
        apply gatherable_alone
        · intro g gathers
          have := (gathers_start gathers).2.1
          omega
        · intro _ within
          simp only at within
          omega
      next within =>
        cases returns : parts.readNext data (enoughRounds data) with
        | error e =>
          cases parts.readNext_error (enoughRounds data) returns
          apply iff_of_false (by simp [Except.bind])
          intro gatherable
          have free := gatherable _ .refl present (Nat.not_lt.mp within)
          obtain ⟨next, returns'⟩ := parts.readNext_iff.mpr free
          exact absurd (returns.symm.trans returns') nofun
        | ok parts' =>
          have here : Gatherable data (reconstructedHostname.length, parts) :=
            fun _ _ => parts.readNext_iff.mp ⟨parts', returns⟩
          simp only [Except.bind]
          split
          next last =>
            rw [List.isEmpty_iff] at last
            apply iff_of_true nofun
            apply gatherable_alone _ here
            intro g gathers
            obtain ⟨_, _, returns', another, _⟩ := gathers_start gathers
            cases Except.ok.inj (returns.symm.trans returns')
            exact another last
          next another =>
            rw [List.isEmpty_iff] at another
            have long : (reconstructedHostname ++ parts.label).length =
                reconstructedHostname.length + parts.label.length := List.length_append
            split
            next full =>
              apply iff_of_true nofun
              apply gatherable_alone _ here
              intro g gathers
              have := (gathers_start gathers).2.1
              omega
            next space =>
              have step : Gathers data (reconstructedHostname.length, parts)
                  ((reconstructedHostname ++ parts.label ++ [separator]).length, parts') := by
                rw [List.length_append, long]
                exact .next present returns another (by omega)
              rw [ih _ _ (by rw [List.length_append, long, List.length_singleton]; omega)]
              constructor
              · intro gatherable g reached
                cases reached.cases_head with
                | inl same => rwa [← same]
                | inr onward =>
                  obtain ⟨g', gathers, rest⟩ := onward
                  have start := gathers_start gathers
                  have start' := gathers_start step
                  have same : g' =
                      ((reconstructedHostname ++ parts.label ++ [separator]).length, parts') := by
                    apply Prod.ext
                    · exact start.2.2.2.2.trans start'.2.2.2.2.symm
                    · exact Except.ok.inj (start.2.2.1.symm.trans start'.2.2.1)
                  rw [same] at rest
                  exact gatherable g rest
              · intro gatherable g reached
                exact gatherable g (.head step reached)

end Dns
