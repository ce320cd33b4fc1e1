import EmbeddedInfra.Dns.LabelWalks

/-! Where the labels and references of a canonical name lead, and when reading it comes to an end. -/

namespace Dns

variable {data : Bytes}

/-- A size is about to be read, with the bytes that are left and the length of the hostname. -/
structure CNamePlace where
  place : Nat
  resourceSize : Nat
  length : Nat

/-- The place after a label, and whether it is after a reference. -/
def cNameNext (data : Bytes) (c : CNamePlace) : Option (Bool × CNamePlace) :=
  let size := byteAt data c.place
  if c.resourceSize = 0 ∨ maxHostname ≤ c.length ∨ size = 0 then none
  else if isReference size then
    (target data c.place).map fun offset =>
      (true, { c with place := offset, resourceSize := after data (c.place + 1) - offset })
  else if size.toNat < c.resourceSize ∧ c.length + size.toNat < maxHostname then
    some (false,
      { place := behind data c.place
        resourceSize := c.resourceSize - 1 - size.toNat
        length := c.length + size.toNat + 1 })
  else none

/-- The name at a place leads over a number of references. -/
inductive References (data : Bytes) : CNamePlace → Nat → Prop
  | stop {c : CNamePlace} (last : cNameNext data c = none) : References data c 0
  | label {c c' : CNamePlace} {n : Nat} (leads : cNameNext data c = some (false, c'))
      (rest : References data c' n) : References data c n
  | reference {c c' : CNamePlace} {n : Nat} (leads : cNameNext data c = some (true, c'))
      (rest : References data c' n) : References data c (n + 1)

section

variable {reference : UInt8 → Bytes → Reader → Except Stop (Bytes × Reader)}

theorem after_le {p : Nat} (inside : p ≤ data.length) : after data p = min (p + 1) data.length := by
  rw [after]
  by_cases more : p < data.length
  · rw [if_pos more, Nat.min_eq_left more]
  · rw [if_neg more]
    omega

theorem character_eq (left size : Nat) (hostname : Bytes) (r : Reader)
    (room : hostname.length < maxHostname) :
    readCNameParts data reference (left + 1) (size + 2) hostname r =
      readCNameParts data reference left (size + 1) (hostname ++ [byteAt data r.offset])
        (r.extractByte data).2 := by
  rw [readCNameParts, if_neg (Nat.not_le.mpr room), if_neg (Nat.succ_ne_zero _), extractByte_eq]
  have more : size + 2 ≠ 1 := by omega
  simp only [if_neg more]
  rfl

theorem last_character_eq (left : Nat) (hostname : Bytes) (r : Reader)
    (room : hostname.length + 1 < maxHostname) :
    readCNameParts data reference (left + 1) 1 hostname r =
      readCNameParts data reference left 0 (hostname ++ [byteAt data r.offset] ++ [separator])
        (r.extractByte data).2 := by
  have more : ¬ maxHostname ≤ (hostname ++ [byteAt data r.offset]).length := by
    rw [List.length_append, List.length_singleton]
    omega
  rw [readCNameParts, if_neg (by omega), if_neg Nat.one_ne_zero, extractByte_eq]
  simp only [if_true, if_neg more]

theorem characters_within (reference : UInt8 → Bytes → Reader → Except Stop (Bytes × Reader))
    (size resourceSize p : Nat) (hostname : Bytes) (failed : Bool) (inside : p ≤ data.length)
    (enough : size + 1 ≤ resourceSize) (room : hostname.length + (size + 1) < maxHostname) :
    ∃ (hostname' : Bytes) (failed' : Bool),
      readCNameParts data reference resourceSize (size + 1) hostname ⟨p, failed⟩ =
        readCNameParts data reference (resourceSize - (size + 1)) 0 hostname'
          ⟨min (p + (size + 1)) data.length, failed'⟩ ∧
      hostname'.length = hostname.length + (size + 1) + 1 := by
  obtain ⟨left, rfl⟩ : ∃ left, resourceSize = left + 1 := ⟨resourceSize - 1, by omega⟩
  induction size generalizing left p hostname failed with
  | zero =>
    rw [last_character_eq left hostname _ room, extractByte_eq]
    exact ⟨_, _, by rw [after_le inside]; rfl, by simp⟩
  | succ size ih =>
    obtain ⟨left, rfl⟩ : ∃ left', left = left' + 1 := ⟨left - 1, by omega⟩
    have long : (hostname ++ [byteAt data p]).length = hostname.length + 1 := by simp
    have limit := after_le inside
    obtain ⟨hostname', failed', same, length⟩ := ih (after data p) (hostname ++ [byteAt data p])
      (failed || decide (data.length ≤ p)) (by omega) (by omega) left (by omega)
    have position : min (after data p + (size + 1)) data.length =
        min (p + (size + 1 + 1)) data.length := by omega
    have remaining : left + 1 - (size + 1) = left + 1 + 1 - (size + 1 + 1) := by omega
    rw [character_eq _ _ hostname _ (by omega), extractByte_eq]
    exact ⟨hostname', failed', by rw [same, position, remaining], by omega⟩

theorem characters_end (size resourceSize : Nat) (hostname : Bytes) (r : Reader)
    (beyond : resourceSize < size + 1 ∨ maxHostname ≤ hostname.length + (size + 1)) :
    readCNameParts data reference resourceSize (size + 1) hostname r ≠ .error .running := by
  induction size generalizing resourceSize hostname r with
  | zero =>
    cases resourceSize with
    | zero => exact nofun
    | succ left =>
      rw [readCNameParts]
      split
      · exact nofun
      next =>
        have full : maxHostname ≤ (hostname ++ [(r.extractByte data).1]).length := by
          rw [List.length_append, List.length_singleton]
          omega
        rw [if_neg (Nat.succ_ne_zero 0)]
        simp only [if_pos full, if_true]
        exact nofun
  | succ size ih =>
    cases resourceSize with
    | zero => exact nofun
    | succ left =>
      rw [readCNameParts]
      split
      · exact nofun
      next =>
        have more : size + 1 + 1 ≠ 1 := by omega
        rw [if_neg (Nat.succ_ne_zero _)]
        simp only [if_neg more, Nat.add_sub_cancel]
        apply ih
        rw [List.length_append, List.length_singleton]
        omega

theorem size_eq (reference : UInt8 → Bytes → Reader → Except Stop (Bytes × Reader)) {p left : Nat}
    {hostname : Bytes} (failed : Bool) (room : ¬ maxHostname ≤ hostname.length)
    (present : byteAt data p ≠ 0) :
    readCNameParts data reference (left + 1) 0 hostname ⟨p, failed⟩ =
      if isReference (byteAt data p) then
        reference (byteAt data p) hostname ⟨p + 1, failed || decide (data.length ≤ p)⟩
      else readCNameParts data reference left (byteAt data p).toNat hostname
        ⟨p + 1, failed || decide (data.length ≤ p)⟩ := by
  rw [readCNameParts, if_neg room, if_pos rfl, extractByte_eq]
  simp only [if_neg present, after_inside (inside_of_byteAt present)]

theorem cName_stops {c : CNamePlace} (last : cNameNext data c = none) (hostname : Bytes)
    (failed : Bool) (length : hostname.length = c.length)
    (refuses : ∀ hostname failed, target data c.place = none →
      reference (byteAt data c.place) hostname ⟨c.place + 1, failed⟩ ≠ .error .running) :
    readCNameParts data reference c.resourceSize 0 hostname ⟨c.place, failed⟩ ≠
      .error .running := by
  cases left : c.resourceSize with
  | zero => exact nofun
  | succ left =>
    by_cases full : maxHostname ≤ c.length
    · rw [readCNameParts, if_pos (by rwa [length])]
      exact nofun
    · by_cases present : byteAt data c.place = 0
      · rw [readCNameParts, if_neg (by rwa [length]), if_pos rfl, extractByte_eq]
        simp only [if_pos present]
        exact nofun
      · rw [size_eq reference failed (by rwa [length]) present]
        have still : ¬ (c.resourceSize = 0 ∨ maxHostname ≤ c.length ∨
            byteAt data c.place = 0) := by
          rw [left]
          simp [full, present]
        simp only [cNameNext] at last
        rw [if_neg still] at last
        split at last
        next marked =>
          rw [if_pos marked]
          exact refuses _ _ (Option.map_eq_none_iff.mp last)
        next unmarked =>
          rw [if_neg unmarked]
          split at last
          next => cases last
          next beyond =>
            obtain ⟨size, some⟩ : ∃ size, (byteAt data c.place).toNat = size + 1 :=
              ⟨_, (Nat.succ_pred_eq_of_ne_zero (positive_size present)).symm⟩
            rw [some]
            apply characters_end
            omega

theorem cName_label {c c' : CNamePlace} (leads : cNameNext data c = some (false, c'))
    (hostname : Bytes) (failed : Bool) (length : hostname.length = c.length) :
    c'.resourceSize < c.resourceSize ∧
      ∃ (hostname' : Bytes) (failed' : Bool),
        readCNameParts data reference c.resourceSize 0 hostname ⟨c.place, failed⟩ =
          readCNameParts data reference c'.resourceSize 0 hostname' ⟨c'.place, failed'⟩ ∧
        hostname'.length = c'.length := by
  simp only [cNameNext] at leads
  split at leads
  next => cases leads
  next still =>
    split at leads
    next =>
      obtain ⟨_, _, same⟩ := Option.map_eq_some_iff.mp leads
      cases same
    next unmarked =>
      split at leads
      next within =>
        cases leads
        obtain ⟨resources, open_, present⟩ : c.resourceSize ≠ 0 ∧ ¬ maxHostname ≤ c.length ∧
            byteAt data c.place ≠ 0 := by
          simpa only [not_or] using still
        obtain ⟨left, some⟩ : ∃ left, c.resourceSize = left + 1 :=
          ⟨_, (Nat.succ_pred_eq_of_ne_zero resources).symm⟩
        obtain ⟨size, sized⟩ : ∃ size, (byteAt data c.place).toNat = size + 1 :=
          ⟨_, (Nat.succ_pred_eq_of_ne_zero (positive_size present)).symm⟩
        refine ⟨by simp only; omega, ?_⟩
        rw [some, size_eq reference failed (by rwa [length]) present, if_neg unmarked]
        obtain ⟨hostname', failed', same, long⟩ := characters_within reference
          size left (c.place + 1) hostname (failed || decide (data.length ≤ c.place))
          (inside_of_byteAt present) (by omega) (by omega)
        refine ⟨hostname', failed', ?_, by simp only; omega⟩
        rw [sized, same, behind, sized]
        rfl
      next => cases leads

theorem cName_reference {c c' : CNamePlace} (leads : cNameNext data c = some (true, c'))
    (hostname : Bytes) (failed : Bool) (length : hostname.length = c.length) :
    ∃ (offset : Nat) (failed' : Bool), target data c.place = some offset ∧
      c.place < data.length ∧
      c' = { c with place := offset, resourceSize := after data (c.place + 1) - offset } ∧
      readCNameParts data reference c.resourceSize 0 hostname ⟨c.place, failed⟩ =
        reference (byteAt data c.place) hostname ⟨c.place + 1, failed'⟩ := by
  simp only [cNameNext] at leads
  split at leads
  next => cases leads
  next still =>
    split at leads
    next marked =>
      obtain ⟨offset, found, same⟩ := Option.map_eq_some_iff.mp leads
      obtain ⟨resources, open_, present⟩ : c.resourceSize ≠ 0 ∧ ¬ maxHostname ≤ c.length ∧
          byteAt data c.place ≠ 0 := by
        simpa only [not_or] using still
      obtain ⟨left, some⟩ : ∃ left, c.resourceSize = left + 1 :=
        ⟨_, (Nat.succ_pred_eq_of_ne_zero resources).symm⟩
      cases same
      refine ⟨offset, failed || decide (data.length ≤ c.place), found, inside_of_byteAt present,
        rfl, ?_⟩
      rw [some, size_eq reference failed (by rwa [length]) present, if_pos marked]
    next =>
      split at leads
      next => cases leads
      next => cases leads

end

theorem readCName_succ (rounds resourceSize : Nat) (hostname : Bytes) (r : Reader) :
    readCName data (rounds + 1) resourceSize hostname r =
      readCNameParts data
        (fun partSize hostname r =>
          let (offsetLow, r) := r.extractByte data
          let offset := referenceOffset partSize offsetLow
          let currentPosition := r.offset
          if currentPosition > offset then
            (readCName data rounds (currentPosition - offset) hostname (r.rewind offset)).map
              fun (hostname, r) => (hostname, r.rewind currentPosition)
          else .ok (hostname, r))
        resourceSize 0 hostname r := rfl

theorem map_running {α β : Type} (first : Except Stop α) (next : α → β) :
    first.map next ≠ .error .running ↔ first ≠ .error .running := by
  cases first with
  | error e | ok value => simp [Except.map]

/-- Reading a canonical name ends just if it leads over fewer references than may be nested. -/
theorem readCName_ends_iff (rounds : Nat) (c : CNamePlace) (hostname : Bytes) (failed : Bool)
    (length : hostname.length = c.length) :
    readCName data rounds c.resourceSize hostname ⟨c.place, failed⟩ ≠ .error .running ↔
      ∃ n < rounds, References data c n := by
  induction rounds generalizing c hostname failed with
  | zero =>
    apply iff_of_false (fun ends => ends rfl)
    rintro ⟨n, less, _⟩
    omega
  | succ rounds ih =>
    induction resources : c.resourceSize using Nat.strong_induction_on
      generalizing c hostname failed with
    | _ resourceSize labels =>
    rw [← resources, readCName_succ]
    cases leads : cNameNext data c with
    | none =>
      apply iff_of_true
      · apply cName_stops leads hostname failed length
        intro hostname failed refused
        simp only [target] at refused
        split at refused
        next => cases refused
        next beyond =>
          simp only [extractByte_eq, gt_iff_lt, if_neg beyond]
          rintro ⟨⟩
      · exact ⟨0, Nat.succ_pos _, .stop leads⟩
    | some next =>
      obtain ⟨isReference, c'⟩ := next
      cases isReference with
      | false =>
        obtain ⟨less, hostname', failed', same, length'⟩ :=
          cName_label leads hostname failed length
        rw [same, ← readCName_succ,
          labels c'.resourceSize (resources ▸ less) c' hostname' failed' length' rfl]
        constructor
        · rintro ⟨n, less, rest⟩
          exact ⟨n, less, .label leads rest⟩
        · rintro ⟨n, less, all⟩
          cases all with
          | stop last => cases leads.symm.trans last
          | label leads' rest =>
            cases Option.some.inj (leads.symm.trans leads')
            exact ⟨n, less, rest⟩
          | reference leads' => cases Option.some.inj (leads.symm.trans leads')
      | true =>
        obtain ⟨offset, failed', found, inside, there, same⟩ :=
          cName_reference leads hostname failed length
        rw [same]
        simp only [target] at found
        split at found
        next before =>
          cases found
          have nested := ih c' hostname (failed' || decide (data.length ≤ c.place + 1))
            (by rw [there, length])
          simp only [there] at nested
          simp only [extractByte_eq, gt_iff_lt, if_pos before, Reader.rewind, map_running]
          rw [nested, ← there]
          constructor
          · rintro ⟨n, less, rest⟩
            exact ⟨n + 1, Nat.succ_lt_succ less, .reference leads rest⟩
          · rintro ⟨n, less, all⟩
            cases all with
            | stop last => cases leads.symm.trans last
            | label leads' => cases Option.some.inj (leads.symm.trans leads')
            | reference leads' rest =>
              cases Option.some.inj (leads.symm.trans leads')
              exact ⟨_, Nat.lt_of_succ_lt_succ less, rest⟩
        next => cases found

end Dns
