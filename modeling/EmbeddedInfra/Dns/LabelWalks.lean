import EmbeddedInfra.Dns.NameReading
import EmbeddedInfra.Walks

/-! Where the labels and references of a name lead, and when matching it comes to an end. -/

namespace Dns

open Walks

/-- Bytes that are not there are read as zero. -/
def byteAt (data : Bytes) (p : Nat) : UInt8 := data.getD p 0

def after (data : Bytes) (p : Nat) : Nat := if p < data.length then p + 1 else p

/-- The target of the reference at a position. -/
def target (data : Bytes) (q : Nat) : Option Nat :=
  let offset := referenceOffset (byteAt data q) (byteAt data (q + 1))
  if offset < after data (q + 1) then some offset else none

def follow (data : Bytes) (q : Nat) : Option Nat :=
  if isReference (byteAt data q) then target data q else some q

def labelNext (data : Bytes) (p : Nat) : Option Nat :=
  if byteAt data p = 0 then none
  else follow data (min (p + 1 + (byteAt data p).toNat) data.length)

variable {data : Bytes}

theorem extractByte_eq (r : Reader) :
    r.extractByte data =
      (byteAt data r.offset,
        { offset := after data r.offset
          failed := r.failed || decide (data.length ≤ r.offset) }) := by
  simp only [Reader.extractByte, byteAt, after, List.getD_eq_getElem?_getD]
  by_cases inside : r.offset < data.length
  · simp [inside, Nat.not_le.mpr inside]
  · simp [inside, Nat.not_lt.mp inside]

variable {p : Nat}

theorem byteAt_outside (outside : data.length ≤ p) : byteAt data p = 0 := by
  simp [byteAt, List.getD_eq_getElem?_getD, List.getElem?_eq_none outside]

theorem inside_of_byteAt (present : byteAt data p ≠ 0) : p < data.length := by
  by_contra outside
  exact present (byteAt_outside (Nat.not_lt.mp outside))

theorem after_inside (inside : p < data.length) : after data p = p + 1 := if_pos inside

theorem inside_of_isReference {q : Nat} (marked : isReference (byteAt data q) = true) :
    q < data.length := by
  apply inside_of_byteAt
  intro zero
  rw [zero] at marked
  cases marked

theorem labelNext_inside (p q : Nat) (leads : labelNext data p = some q) :
    p ∈ Finset.range data.length := by
  apply Finset.mem_range.mpr
  apply inside_of_byteAt
  intro zero
  rw [labelNext, if_pos zero] at leads
  cases leads

theorem map_map {α β γ ε : Type} (first : Except ε α) (f : α → β) (g : β → γ) :
    (first.map f).map g = first.map (g ∘ f) := by
  cases first <;> rfl

theorem map_id {α ε : Type} (first : Except ε α) : first.map id = first := by
  cases first <;> rfl

section

variable {π : Type} (parts : HostnameParts π)

theorem matchCharacters_offset (expected : Bytes) (r : Reader) (inside : r.offset ≤ data.length) :
    (matchCharacters data expected r).2.offset =
      min (r.offset + expected.length) data.length := by
  induction expected generalizing r with
  | nil => simp [matchCharacters, inside]
  | cons c rest ih =>
    have limit : after data r.offset = min (r.offset + 1) data.length := by
      simp only [after]
      split <;> omega
    simp only [matchCharacters, extractByte_eq, List.length_cons]
    split
    · simp only [Reader.consume, limit]
      omega
    · rw [ih _ (by simp only [limit]; omega)]
      simp only [limit]
      omega

theorem part_offset (size : Nat) (hostnameParts : π) (r : Reader)
    (inside : r.offset ≤ data.length) :
    (readAndMatchHostnamePart parts data size hostnameParts r).2.offset =
      min (r.offset + size) data.length := by
  simp only [readAndMatchHostnamePart]
  split
  · rfl
  next fits =>
    have taken : ((parts.current hostnameParts).take size).length = size := by
      rw [List.length_take]
      omega
    rw [matchCharacters_offset _ _ inside, taken]

theorem matchCharacters_result (expected : Bytes) (p : Nat) (failed : Bool) :
    (matchCharacters data expected ⟨p, failed⟩).1 = (matchCharacters data expected ⟨p, false⟩).1 := by
  induction expected generalizing p failed with
  | nil => rfl
  | cons c rest ih =>
    simp only [matchCharacters, extractByte_eq]
    split
    · rfl
    · rw [ih, ih _ (false || _)]

theorem part_result (data : Bytes) (size : Nat) (hostnameParts : π) (p : Nat) (failed : Bool) :
    (readAndMatchHostnamePart parts data size hostnameParts ⟨p, failed⟩).1 =
      (readAndMatchHostnamePart parts data size hostnameParts ⟨p, false⟩).1 := by
  simp only [readAndMatchHostnamePart]
  split
  · rfl
  · exact matchCharacters_result _ _ _

/-- What `ReadAndMatchHostnameParts` and the rounds of the loop do with the size they have read. -/
def goOn (parts : HostnameParts π) (data : Bytes) (rounds : Nat) (size : UInt8) (hostnameParts : π)
    (result : Bool) (r : Reader) : Except Stop (Bool × Reader) :=
  if isReference size then
    (readAndMatchReferenceHostname data (readAndMatchHostnameWithoutReference parts data rounds)
      size hostnameParts r).map fun (found, r) => (found && result, r)
  else readAndMatchHostnameWithoutReference parts data rounds size.toNat hostnameParts result r

theorem readAndMatchHostnameParts_eq (rounds : Nat) (hostnameParts : π) (r : Reader) :
    readAndMatchHostnameParts parts data rounds hostnameParts r =
      goOn parts data rounds (r.extractByte data).1 hostnameParts true (r.extractByte data).2 := by
  simp only [readAndMatchHostnameParts, goOn]
  split
  · simp only [Bool.and_true]
    cases readAndMatchReferenceHostname data (readAndMatchHostnameWithoutReference parts data rounds)
      (r.extractByte data).1 hostnameParts (r.extractByte data).2 <;> rfl
  · rfl

variable {p : Nat}

theorem goOn_follow (rounds : Nat) (hostnameParts : π) (result : Bool) (r : Reader)
    (leads : follow data r.offset = some p) :
    ∃ (failed : Bool) (finish : Bool × Reader → Bool × Reader),
      goOn parts data rounds (r.extractByte data).1 hostnameParts result (r.extractByte data).2 =
        (readAndMatchHostnameWithoutReference parts data rounds (byteAt data p).toNat hostnameParts
          (isReference (byteAt data r.offset) || result) ⟨after data p, failed⟩).map finish := by
  simp only [extractByte_eq, goOn]
  rw [follow] at leads
  split
  next marked =>
    have inside := inside_of_isReference marked
    rw [if_pos marked, target] at leads
    split at leads
    next before =>
      cases leads
      simp only [readAndMatchReferenceHostname, extractByte_eq, after_inside inside,
        Nat.not_le.mpr before, if_false, Reader.rewind, marked, Bool.true_or]
      exact ⟨_, _, map_map _ _ _⟩
    next => cases leads
  next unmarked =>
    rw [if_neg unmarked] at leads
    cases leads
    rw [Bool.eq_false_iff.mpr unmarked, Bool.false_or]
    exact ⟨_, id, (map_id _).symm⟩

theorem goOn_refused (rounds : Nat) (hostnameParts : π) (result : Bool) (r : Reader)
    (refused : follow data r.offset = none) :
    ∃ found, goOn parts data rounds (r.extractByte data).1 hostnameParts result
      (r.extractByte data).2 = .ok found := by
  simp only [extractByte_eq, goOn]
  rw [follow] at refused
  split
  next marked =>
    have inside := inside_of_isReference marked
    rw [if_pos marked, target] at refused
    split at refused
    next => cases refused
    next beyond =>
      simp only [readAndMatchReferenceHostname, extractByte_eq, after_inside inside,
        Nat.not_lt.mp beyond, if_true]
      exact ⟨_, rfl⟩
  next unmarked =>
    rw [if_neg unmarked] at refused
    cases refused

/-- The label at a place is about to be compared with what is left of the hostname. -/
structure Comparing (π : Type) where
  place : Nat
  hostnameParts : π
  result : Bool

def behind (data : Bytes) (p : Nat) : Nat := min (p + 1 + (byteAt data p).toNat) data.length

def agrees (parts : HostnameParts π) (data : Bytes) (c : Comparing π) : Bool :=
  c.result && (readAndMatchHostnamePart parts data (byteAt data c.place).toNat c.hostnameParts
    ⟨c.place + 1, false⟩).1

def consumed (parts : HostnameParts π) (data : Bytes) (c : Comparing π) : Except Stop π :=
  if agrees parts data c then parts.consumeCurrent c.hostnameParts else .ok c.hostnameParts

inductive Compares (parts : HostnameParts π) (data : Bytes) : Comparing π → Comparing π → Prop
  | next {c : Comparing π} {hostnameParts : π} {p : Nat} (present : byteAt data c.place ≠ 0)
      (consumes : consumed parts data c = .ok hostnameParts)
      (leads : follow data (behind data c.place) = some p) :
      Compares parts data c
        { place := p, hostnameParts
          result := isReference (byteAt data (behind data c.place)) || agrees parts data c }

def Consumable (parts : HostnameParts π) (data : Bytes) (c : Comparing π) : Prop :=
  byteAt data c.place ≠ 0 → ∃ hostnameParts, consumed parts data c = .ok hostnameParts

theorem labelNext_eq (present : byteAt data p ≠ 0) :
    labelNext data p = follow data (behind data p) := if_neg present

theorem positive_size {size : UInt8} (present : size ≠ 0) : size.toNat ≠ 0 :=
  fun zero => present (UInt8.toNat_inj.mp zero)

theorem round_eq (rounds : Nat) (hostnameParts : π) (result failed : Bool)
    (present : byteAt data p ≠ 0) :
    ∃ failed', readAndMatchHostnameWithoutReference parts data (rounds + 1) (byteAt data p).toNat
        hostnameParts result ⟨after data p, failed⟩ =
      (consumed parts data ⟨p, hostnameParts, result⟩).bind fun hostnameParts' =>
        goOn parts data rounds (Reader.extractByte data ⟨behind data p, failed'⟩).1 hostnameParts'
          (agrees parts data ⟨p, hostnameParts, result⟩)
          (Reader.extractByte data ⟨behind data p, failed'⟩).2 := by
  have inside := inside_of_byteAt present
  rw [readAndMatchHostnameWithoutReference, if_neg (positive_size present), after_inside inside]
  have offset := part_offset parts (byteAt data p).toNat hostnameParts
    ⟨p + 1, failed⟩ inside
  have found := part_result parts data (byteAt data p).toNat hostnameParts
    (p + 1) failed
  generalize readAndMatchHostnamePart parts data (byteAt data p).toNat hostnameParts
    ⟨p + 1, failed⟩ = part at offset found
  obtain ⟨matches_, position, failed'⟩ := part
  exact ⟨failed', by simp only [consumed, agrees, ← found, goOn, behind, ← offset]⟩

theorem size_zero (rounds : Nat) (hostnameParts : π) (result : Bool) (r : Reader)
    (absent : byteAt data p = 0) :
    readAndMatchHostnameWithoutReference parts data (rounds + 1) (byteAt data p).toNat
      hostnameParts result r = .ok (result && parts.empty hostnameParts && !r.failed, r) := by
  rw [absent, readAndMatchHostnameWithoutReference]
  rfl

theorem returns_of_visits {n : Nat} (visits : Visits (labelNext data) p n) {rounds : Nat}
    (enough : n ≤ rounds) (hostnameParts : π) (result failed : Bool)
    (consumable : ∀ c, Relation.ReflTransGen (Compares parts data) ⟨p, hostnameParts, result⟩ c →
      Consumable parts data c) :
    ∃ found, readAndMatchHostnameWithoutReference parts data rounds (byteAt data p).toNat
      hostnameParts result ⟨after data p, failed⟩ = .ok found := by
  induction visits generalizing rounds hostnameParts result failed with
  | @last p none =>
    obtain ⟨rounds, rfl⟩ : ∃ more, rounds = more + 1 := ⟨rounds - 1, by omega⟩
    by_cases present : byteAt data p = 0
    · exact ⟨_, size_zero parts rounds hostnameParts result _ present⟩
    · obtain ⟨failed', round⟩ := round_eq parts rounds hostnameParts result failed
        present
      obtain ⟨hostnameParts', consumes⟩ := consumable _ .refl present
      rw [labelNext_eq present] at none
      rw [round, consumes]
      exact goOn_refused parts rounds hostnameParts' _ ⟨_, failed'⟩ none
  | @step p q n leads rest ih =>
    obtain ⟨rounds, rfl⟩ : ∃ more, rounds = more + 1 := ⟨rounds - 1, by omega⟩
    have present : byteAt data p ≠ 0 := by
      intro absent
      rw [labelNext, if_pos absent] at leads
      cases leads
    obtain ⟨failed', round⟩ := round_eq parts rounds hostnameParts result failed present
    obtain ⟨hostnameParts', consumes⟩ := consumable _ .refl present
    rw [labelNext_eq present] at leads
    obtain ⟨failed'', finish, same⟩ := goOn_follow parts rounds hostnameParts'
      (agrees parts data ⟨p, hostnameParts, result⟩) ⟨behind data p, failed'⟩ leads
    obtain ⟨found, returns⟩ := ih (Nat.le_of_succ_le_succ enough) hostnameParts' _ failed''
      (fun c reached => consumable c (.head (.next present consumes leads) reached))
    rw [round, consumes]
    exact ⟨finish found, by rw [Except.bind, same, returns]; rfl⟩

theorem compares_present {c c' : Comparing π} (compares : Compares parts data c c') :
    byteAt data c.place ≠ 0 ∧ ∃ p, follow data (behind data c.place) = some p := by
  cases compares with
  | next present _ leads => exact ⟨present, _, leads⟩

theorem compares_unique {c c' c'' : Comparing π} (compares : Compares parts data c c')
    (again : Compares parts data c c'') : c' = c'' := by
  cases compares with
  | next _ consumes leads =>
    cases again with
    | next _ consumes' leads' =>
      cases Except.ok.inj (consumes.symm.trans consumes')
      cases Option.some.inj (leads.symm.trans leads')
      rfl

theorem visits_of_returns (rounds : Nat) {hostnameParts : π} {result failed : Bool}
    {found : Bool × Reader}
    (returns : readAndMatchHostnameWithoutReference parts data rounds (byteAt data p).toNat
      hostnameParts result ⟨after data p, failed⟩ = .ok found) :
    (∃ n, Visits (labelNext data) p n) ∧
      ∀ c, Relation.ReflTransGen (Compares parts data) ⟨p, hostnameParts, result⟩ c →
        Consumable parts data c := by
  induction rounds generalizing p hostnameParts result failed found with
  | zero => cases returns
  | succ rounds ih =>
    by_cases present : byteAt data p = 0
    · refine ⟨⟨1, .last (if_pos present)⟩, ?_⟩
      intro c reached
      cases reached.cases_head with
      | inl same =>
        rw [← same]
        exact fun there => absurd present there
      | inr onward =>
        obtain ⟨_, compares, _⟩ := onward
        exact absurd present (compares_present parts compares).1
    · obtain ⟨failed', round⟩ := round_eq parts rounds hostnameParts result failed
        present
      rw [round] at returns
      cases consumes : consumed parts data ⟨p, hostnameParts, result⟩ with
      | error e =>
        rw [consumes] at returns
        cases returns
      | ok hostnameParts' =>
        rw [consumes, Except.bind] at returns
        have here : Consumable parts data ⟨p, hostnameParts, result⟩ :=
          fun _ => ⟨hostnameParts', consumes⟩
        cases leads : follow data (behind data p) with
        | none =>
          refine ⟨⟨1, .last ((labelNext_eq present).trans leads)⟩, ?_⟩
          intro c reached
          cases reached.cases_head with
          | inl same => rwa [← same]
          | inr onward =>
            obtain ⟨_, compares, _⟩ := onward
            obtain ⟨_, _, leads'⟩ := compares_present parts compares
            exact absurd (leads.symm.trans leads') nofun
        | some q =>
          obtain ⟨failed'', finish, same⟩ := goOn_follow parts rounds
            hostnameParts' (agrees parts data ⟨p, hostnameParts, result⟩)
            ⟨behind data p, failed'⟩ leads
          rw [same] at returns
          cases inner : readAndMatchHostnameWithoutReference parts data rounds
              (byteAt data q).toNat hostnameParts'
              (isReference (byteAt data (behind data p)) ||
                agrees parts data ⟨p, hostnameParts, result⟩)
              ⟨after data q, failed''⟩ with
          | error e =>
            rw [inner] at returns
            cases returns
          | ok found' =>
            obtain ⟨⟨n, visits⟩, later⟩ := ih inner
            refine ⟨⟨n + 1, .step ((labelNext_eq present).trans leads) visits⟩, ?_⟩
            intro c reached
            cases reached.cases_head with
            | inl same => rwa [← same]
            | inr onward =>
              obtain ⟨c', compares, rest⟩ := onward
              rw [← compares_unique parts (.next present consumes leads) compares] at rest
              exact later c rest

theorem error_running
    (waits : ∀ hostnameParts e, parts.consumeCurrent hostnameParts = .error e → e = .running)
    (rounds : Nat) {hostnameParts : π} {result failed : Bool} {e : Stop}
    (stops : readAndMatchHostnameWithoutReference parts data rounds (byteAt data p).toNat
      hostnameParts result ⟨after data p, failed⟩ = .error e) :
    e = .running := by
  induction rounds generalizing p hostnameParts result failed with
  | zero =>
    cases stops
    rfl
  | succ rounds ih =>
    by_cases present : byteAt data p = 0
    · rw [size_zero parts rounds hostnameParts result _ present] at stops
      cases stops
    · obtain ⟨failed', round⟩ := round_eq parts rounds hostnameParts result failed
        present
      rw [round] at stops
      cases consumes : consumed parts data ⟨p, hostnameParts, result⟩ with
      | error e' =>
        rw [consumes] at stops
        cases stops
        rw [consumed] at consumes
        split at consumes
        · exact waits _ _ consumes
        · cases consumes
      | ok hostnameParts' =>
        rw [consumes, Except.bind] at stops
        cases leads : follow data (behind data p) with
        | none =>
          obtain ⟨found, returns⟩ := goOn_refused parts rounds hostnameParts'
            (agrees parts data ⟨p, hostnameParts, result⟩) ⟨behind data p, failed'⟩ leads
          exact absurd (returns.symm.trans stops) nofun
        | some q =>
          obtain ⟨failed'', finish, same⟩ := goOn_follow parts rounds
            hostnameParts' (agrees parts data ⟨p, hostnameParts, result⟩)
            ⟨behind data p, failed'⟩ leads
          rw [same] at stops
          cases inner : readAndMatchHostnameWithoutReference parts data rounds
              (byteAt data q).toNat hostnameParts'
              (isReference (byteAt data (behind data p)) ||
                agrees parts data ⟨p, hostnameParts, result⟩)
              ⟨after data q, failed''⟩ with
          | error e' =>
            rw [inner] at stops
            cases stops
            exact ih inner
          | ok found =>
            rw [inner] at stops
            cases stops

/-- Enough rounds for every walk through a datagram that has no loop. -/
def enoughRounds (data : Bytes) : Nat := data.length + 1

theorem loopFree_iff_visits_labels :
    LoopFree (labelNext data) p ↔ ∃ n ≤ enoughRounds data, Visits (labelNext data) p n := by
  have iff : LoopFree (labelNext data) p ↔ _ := loopFree_iff_visits labelNext_inside
  rwa [Finset.card_range] at iff

/-- Matching a name with the parts of another ends just if the labels of the name do not lead in a
circle, and the parts can be read as far as the labels agree. -/
theorem match_ends_iff
    (waits : ∀ hostnameParts e, parts.consumeCurrent hostnameParts = .error e → e = .running)
    (hostnameParts : π) (r : Reader) :
    readAndMatchHostnameParts parts data (enoughRounds data) hostnameParts r ≠ .error .running ↔
      ∀ p, follow data r.offset = some p → LoopFree (labelNext data) p ∧
        ∀ c, Relation.ReflTransGen (Compares parts data) ⟨p, hostnameParts, true⟩ c →
          Consumable parts data c := by
  rw [readAndMatchHostnameParts_eq parts]
  cases leads : follow data r.offset with
  | none =>
    obtain ⟨found, returns⟩ := goOn_refused parts (enoughRounds data) hostnameParts true
      r leads
    simp [returns]
  | some p =>
    obtain ⟨failed, finish, same⟩ := goOn_follow parts (enoughRounds data)
      hostnameParts true r leads
    rw [same, Bool.or_true]
    constructor
    · intro ends q here
      cases Option.some.inj here
      cases inner : readAndMatchHostnameWithoutReference parts data (enoughRounds data)
          (byteAt data p).toNat hostnameParts true ⟨after data p, failed⟩ with
      | error e =>
        rw [inner, error_running parts waits _ inner] at ends
        exact absurd rfl ends
      | ok found =>
        obtain ⟨⟨n, visits⟩, consumable⟩ := visits_of_returns parts _ inner
        exact ⟨visits.loopFree, consumable⟩
    · intro free
      obtain ⟨loopFree, consumable⟩ := free p rfl
      obtain ⟨n, enough, visits⟩ := loopFree_iff_visits_labels.mp loopFree
      obtain ⟨found, returns⟩ := returns_of_visits parts visits enough hostnameParts true failed
        consumable
      rw [returns]
      exact nofun

theorem match_runs_forever
    (waits : ∀ hostnameParts e, parts.consumeCurrent hostnameParts = .error e → e = .running)
    (rounds : Nat) (hostnameParts : π) (r : Reader) (leads : follow data r.offset = some p)
    (circle : ¬ LoopFree (labelNext data) p) :
    readAndMatchHostnameParts parts data rounds hostnameParts r = .error .running := by
  obtain ⟨failed, finish, same⟩ := goOn_follow parts rounds hostnameParts true r leads
  rw [readAndMatchHostnameParts_eq parts, same]
  cases inner : readAndMatchHostnameWithoutReference parts data rounds (byteAt data p).toNat
      hostnameParts (isReference (byteAt data r.offset) || true) ⟨after data p, failed⟩ with
  | error e =>
    rw [error_running parts waits _ inner]
    rfl
  | ok found =>
    obtain ⟨⟨n, visits⟩, _⟩ := visits_of_returns parts _ inner
    exact absurd visits.loopFree circle

end

end Dns
