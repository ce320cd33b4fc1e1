import EmbeddedInfra.Dns.AnswersFollowed
import EmbeddedInfra.Dns.ReferenceWalks

/-! What a name is read as by a stream of labels, whatever its bytes are. -/

namespace Dns

open Walks List

def labelAt (data : Bytes) (p : Nat) : Bytes :=
  (Reader.extract data (byteAt data p).toNat ⟨p + 1, false⟩).1

/-- The labels of the name at a position, and the position behind it. A name ends with the datagram,
at a byte that is no size of a label, and at a reference that does not lead backward. A name that
leads in a circle is read as nothing. -/
inductive ReadAs (data : Bytes) : Nat → List Bytes → Nat → Prop
  | outside {p : Nat} (outside : data.length ≤ p) : ReadAs data p [] p
  | last {p : Nat} (inside : p < data.length) (unmarked : isReference (byteAt data p) = false)
      (ends : byteAt data p = 0 ∨ maxLabel < (byteAt data p).toNat) : ReadAs data p [] (p + 1)
  | label {p stop : Nat} {labels : List Bytes} (present : byteAt data p ≠ 0)
      (short : (byteAt data p).toNat ≤ maxLabel) (rest : ReadAs data (behind data p) labels stop) :
      ReadAs data p (labelAt data p :: labels) stop
  | refused {p : Nat} (marked : isReference (byteAt data p) = true)
      (refused : target data p = none) : ReadAs data p [] (after data (p + 1))
  | reference {p q stop : Nat} {labels : List Bytes} (marked : isReference (byteAt data p) = true)
      (leads : target data p = some q) (rest : ReadAs data q labels stop) :
      ReadAs data p labels (after data (p + 1))

def nameOf (labels : List Bytes) : Bytes := (text labels).dropLast

variable {data : Bytes}

variable {labels : List Bytes} {p stop : Nat}

theorem nameOf_cons (label : Bytes) (more : labels ≠ []) :
    nameOf (label :: labels) = label ++ separator :: nameOf labels := by
  have rest : text labels ≠ [] := by
    cases labels with
    | nil => exact absurd rfl more
    | cons next labels => simp [text]
  rw [nameOf, text_cons, dropLast_append_of_ne_nil (cons_ne_nil _ _),
    dropLast_cons_of_ne_nil rest]
  rfl

theorem nameOf_single (label : Bytes) : nameOf [label] = label := by
  simp [nameOf, text]

theorem length_extract (count : Nat) (r : Reader) : (r.extract data count).1.length = count := by
  simp only [Reader.extract, length_append, length_replicate, length_take]
  omega

theorem labelAt_present (present : byteAt data p ≠ 0) : labelAt data p ≠ [] := by
  apply ne_nil_of_length_pos
  rw [labelAt, length_extract]
  exact Nat.pos_of_ne_zero (positive_size present)

theorem unmarked_of_short {size : UInt8} (short : size.toNat ≤ maxLabel) :
    isReference size = false :=
  isReference_of_le short

theorem target_inside {q : Nat} (marked : isReference (byteAt data p) = true)
    (leads : target data p = some q) : q < data.length := by
  have inside := inside_of_isReference marked
  rw [target] at leads
  split at leads
  next before =>
    cases leads
    rw [after] at before
    split at before <;> omega
  next => cases leads

theorem ReadAs.unique {stop' : Nat} {labels' : List Bytes} (reads : ReadAs data p labels stop)
    (again : ReadAs data p labels' stop') :
    labels = labels' ∧ stop = stop' := by
  induction reads generalizing labels' stop' with
  | outside outside =>
    cases again with
    | outside => exact ⟨rfl, rfl⟩
    | last inside => exact absurd inside (Nat.not_lt.mpr outside)
    | label present => exact absurd (byteAt_outside outside) present
    | refused marked | reference marked =>
      exact absurd (inside_of_isReference marked) (Nat.not_lt.mpr outside)
  | last inside unmarked ends =>
    cases again with
    | outside outside => exact absurd inside (Nat.not_lt.mpr outside)
    | last => exact ⟨rfl, rfl⟩
    | label present short =>
      cases ends with
      | inl zero => exact absurd zero present
      | inr long => exact absurd long (Nat.not_lt.mpr short)
    | refused marked | reference marked => exact absurd (unmarked.symm.trans marked) nofun
  | label present short _ ih =>
    cases again with
    | outside outside => exact absurd (byteAt_outside outside) present
    | last _ _ ends =>
      cases ends with
      | inl zero => exact absurd zero present
      | inr long => exact absurd long (Nat.not_lt.mpr short)
    | label _ _ rest =>
      have same := ih rest
      exact ⟨congrArg _ same.1, same.2⟩
    | refused marked | reference marked =>
      exact absurd ((unmarked_of_short short).symm.trans marked) nofun
  | refused marked refused =>
    cases again with
    | outside outside => exact absurd (inside_of_isReference marked) (Nat.not_lt.mpr outside)
    | last _ unmarked => exact absurd (unmarked.symm.trans marked) nofun
    | label _ short => exact absurd ((unmarked_of_short short).symm.trans marked) nofun
    | refused => exact ⟨rfl, rfl⟩
    | reference _ leads => exact absurd (refused.symm.trans leads) nofun
  | reference marked leads _ ih =>
    cases again with
    | outside outside => exact absurd (inside_of_isReference marked) (Nat.not_lt.mpr outside)
    | last _ unmarked => exact absurd (unmarked.symm.trans marked) nofun
    | label _ short => exact absurd ((unmarked_of_short short).symm.trans marked) nofun
    | refused _ refused => exact absurd (refused.symm.trans leads) nofun
    | reference _ leads' rest =>
      cases Option.some.inj (leads.symm.trans leads')
      exact ⟨(ih rest).1, rfl⟩

theorem ReadAs.visits (reads : ReadAs data p labels stop) : ∃ n, Visits (pointerNext data) p n := by
  induction reads with
  | outside outside =>
    refine ⟨1, .last ?_⟩
    rw [pointerNext, byteAt_outside outside]
    rfl
  | last _ unmarked => exact ⟨1, .last (by simp [pointerNext, unmarked])⟩
  | label _ short => exact ⟨1, .last (by simp [pointerNext, unmarked_of_short short])⟩
  | refused marked refused => exact ⟨1, .last (by simp [pointerNext, marked, refused])⟩
  | reference marked leads _ ih =>
    obtain ⟨n, visits⟩ := ih
    exact ⟨n + 1, .step (by rw [pointerNext, if_pos marked, leads]) visits⟩

namespace PartsStream

/-- The labels from the current one on, and where the name ends. -/
inductive Shows (data : Bytes) (parts : PartsStream) : List Bytes → Nat → Prop
  | none (absent : parts.label = []) :
      Shows data parts [] (parts.finalPosition.getD parts.streamPosition)
  | some {labels : List Bytes} {stop : Nat} (present : parts.label ≠ [])
      (rest : ReadAs data parts.streamPosition labels stop) :
      Shows data parts (parts.label :: labels) (parts.finalPosition.getD stop)

/-- The stream after `followReferences`. -/
def labelRead (data : Bytes) (size : UInt8) (finalPosition : Option Nat) (r : Reader) :
    PartsStream :=
  if size.toNat ≤ maxLabel then
    let (label, r) := r.extract data size.toNat
    { streamPosition := r.offset, label, finalPosition }
  else { streamPosition := r.offset, label := [], finalPosition }

variable (data) in
theorem shows_nothing (finalPosition : Option Nat) (r : Reader) {size : UInt8}
    (ends : size = 0 ∨ maxLabel < size.toNat) :
    Shows data (labelRead data size finalPosition r) [] (finalPosition.getD r.offset) := by
  cases ends with
  | inl zero =>
    subst zero
    have same : labelRead data 0 finalPosition r =
        { streamPosition := r.offset, label := [], finalPosition } := by
      simp [labelRead, Reader.extract]
    rw [same]
    exact .none rfl
  | inr long =>
    rw [labelRead, if_neg (Nat.not_le.mpr long)]
    exact .none rfl

variable {stop : Nat} {labels : List Bytes}

theorem shows_label {p : Nat} (finalPosition : Option Nat) (failed : Bool)
    (present : byteAt data p ≠ 0) (short : (byteAt data p).toNat ≤ maxLabel)
    (rest : ReadAs data (behind data p) labels stop) :
    Shows data (labelRead data (byteAt data p) finalPosition ⟨after data p, failed⟩)
      (labelAt data p :: labels) (finalPosition.getD stop) := by
  have inside := inside_of_byteAt present
  have same : labelRead data (byteAt data p) finalPosition ⟨after data p, failed⟩ =
      { streamPosition := behind data p, label := labelAt data p, finalPosition } := by
    rw [labelRead, if_pos short, after_inside inside]
    simp only [labelAt, Reader.extract, behind, length_take, length_drop, mk.injEq,
      and_true]
    omega
  rw [same]
  exact .some (labelAt_present present) rest

theorem followReferences_reads {p : Nat} (reads : ReadAs data p labels stop)
    (inside : p < data.length) (rounds : Nat) (finalPosition : Option Nat) (failed : Bool)
    {size : UInt8} {final : Option Nat} {r : Reader}
    (returns : followReferences data rounds (byteAt data p) finalPosition ⟨after data p, failed⟩ =
      .ok (size, final, r)) :
    Shows data (labelRead data size final r) labels (finalPosition.getD stop) := by
  induction reads generalizing rounds finalPosition failed with
  | outside outside => exact absurd inside (Nat.not_lt.mpr outside)
  | @last p _ unmarked ends =>
    cases rounds with
    | zero => cases returns
    | succ rounds =>
      rw [followReferences_plain rounds _ _ unmarked] at returns
      cases returns
      have behind : after data p = p + 1 := after_inside inside
      rw [← behind]
      exact shows_nothing data _ _ ends
  | @label p stop labels present short rest ih =>
    cases rounds with
    | zero => cases returns
    | succ rounds =>
      rw [followReferences_plain rounds _ _ (unmarked_of_short short)] at returns
      cases returns
      exact shows_label _ _ present short rest
  | @refused p marked refused =>
    cases rounds with
    | zero => cases returns
    | succ rounds =>
      have beyond : after data (p + 1) ≤
          referenceOffset (byteAt data p) (byteAt data (p + 1)) := by
        rw [target] at refused
        split at refused
        next => cases refused
        next beyond => exact Nat.not_lt.mp beyond
      rw [followReferences, if_pos marked] at returns
      simp only [extractByte_eq, after_inside inside, beyond, if_true] at returns
      cases returns
      have nothing := shows_nothing data (finalPosition.or (some (after data (p + 1))))
        ⟨after data (p + 1), failed || decide (data.length ≤ p + 1)⟩ (.inl (rfl : (0 : UInt8) = 0))
      cases finalPosition with
      | none | some position => exact nothing
  | @reference p q stop labels marked leads rest ih =>
    cases rounds with
    | zero => cases returns
    | succ rounds =>
      have there := target_inside marked leads
      have before : referenceOffset (byteAt data p) (byteAt data (p + 1)) = q ∧
          q < after data (p + 1) := by
        rw [target] at leads
        split at leads
        next before =>
          cases leads
          exact ⟨rfl, before⟩
        next => cases leads
      rw [followReferences, if_pos marked] at returns
      simp only [extractByte_eq, after_inside inside, before.1, Nat.not_le.mpr before.2,
        if_false, Reader.rewind] at returns
      have shown := ih there rounds _ _ returns
      cases finalPosition with
      | none | some position => exact shown

theorem readNext_reads (parts : PartsStream)
    (reads : ReadAs data parts.streamPosition labels stop) :
    ∃ next, parts.readNext data (enoughRounds data) = .ok next ∧
      Shows data next labels (parts.finalPosition.getD stop) := by
  obtain ⟨n, visits⟩ := reads.visits
  obtain ⟨next, returns⟩ := parts.readNext_iff.mpr visits.loopFree
  refine ⟨next, returns, ?_⟩
  simp only [readNext] at returns
  split at returns
  next outside =>
    cases returns
    cases reads with
    | outside => exact .none rfl
    | last inside => exact absurd inside (Nat.not_lt.mpr outside)
    | label present => exact absurd (byteAt_outside outside) present
    | refused marked | reference marked =>
      exact absurd (inside_of_isReference marked) (Nat.not_lt.mpr outside)
  next inside =>
    rw [extractByte_eq] at returns
    obtain ⟨⟨size, final, r⟩, followed, shown⟩ := map_eq_ok.mp returns
    rw [← shown]
    exact followReferences_reads reads (Nat.not_le.mp inside) _ _ _ followed

end PartsStream

theorem readHostnameParts_reads (room : Nat) (reconstructedHostname : Bytes) {parts : PartsStream}
    (shown : parts.Shows data labels stop)
    (enough : maxHostname ≤ room + reconstructedHostname.length)
    (fits : reconstructedHostname.length + (nameOf labels).length ≤ maxHostname) :
    ∃ last : PartsStream, readHostnameParts data (enoughRounds data) room reconstructedHostname
        parts = .ok (reconstructedHostname ++ nameOf labels, last) ∧
      last.finalPosition.getD last.streamPosition = stop := by
  induction room generalizing reconstructedHostname parts labels stop with
  | zero =>
    cases shown with
    | none absent =>
      refine ⟨parts, ?_, rfl⟩
      rw [readHostnameParts, absent]
      simp [nameOf, text]
    | @some labels stop present =>
      have := length_pos_iff.mpr present
      have long : parts.label.length ≤ (nameOf (parts.label :: labels)).length := by
        by_cases more : labels = []
        · rw [more, nameOf_single]
        · rw [nameOf_cons _ more, length_append]
          exact Nat.le_add_right _ _
      omega
  | succ room ih =>
    cases shown with
    | none absent =>
      refine ⟨parts, ?_, rfl⟩
      rw [readHostnameParts, absent]
      simp [nameOf, text]
    | @some labels stop present rest =>
      obtain ⟨next, returns, shown⟩ := PartsStream.readNext_reads _ rest
      have long : (reconstructedHostname ++ parts.label).length =
          reconstructedHostname.length + parts.label.length := length_append
      have here : parts.label.isEmpty = false := by simp [present]
      rw [readHostnameParts]
      generalize stops : parts.finalPosition.getD stop = finish at shown
      cases shown with
      | none absent =>
        rw [nameOf_single] at fits ⊢
        rw [here, if_neg Bool.false_ne_true, if_neg (by omega), returns]
        refine ⟨next, ?_, rfl⟩
        simp [Except.bind, absent]
      | @some labels stop' present' rest' =>
        rw [nameOf_cons _ (cons_ne_nil _ _), length_append, length_cons] at fits
        obtain ⟨last, done, position⟩ := ih (reconstructedHostname ++ parts.label ++ [separator])
          (.some present' rest') (by rw [length_append, long, length_singleton]; omega)
          (by rw [length_append, long, length_singleton]; omega)
        refine ⟨last, ?_, position⟩
        have there : next.label.isEmpty = false := by simp [present']
        rw [here, if_neg Bool.false_ne_true, if_neg (by omega), returns]
        simp only [Except.bind, there]
        rw [if_neg Bool.false_ne_true, if_neg (by omega), done, nameOf_cons _ (cons_ne_nil _ _)]
        simp

theorem readHostname_reads {r : Reader} (reads : ReadAs data r.offset labels stop)
    (fits : (nameOf labels).length ≤ maxHostname) :
    readHostname data (enoughRounds data) r = .ok (nameOf labels, r.rewind stop) := by
  obtain ⟨first, returns, shown⟩ := PartsStream.readNext_reads
    { streamPosition := r.offset, label := [], finalPosition := none } reads
  obtain ⟨last, gathered, position⟩ := readHostnameParts_reads maxHostname [] shown
    (Nat.le_refl _) (by simpa using fits)
  calc
    _ = (readHostnameParts data (enoughRounds data) maxHostname [] first).map
        fun found => (found.1, found.2.consumeStream r) := by
      rw [readHostname, PartsStream.construct, returns]
      rfl
    _ = .ok (nameOf labels, last.consumeStream r) := by
      rw [gathered]
      rfl
    _ = .ok (nameOf labels, r.rewind stop) := by
      rw [PartsStream.consumeStream, position]
      rfl

theorem labelAt_within {size : UInt8} (here : data[p]? = some size)
    (room : p + 1 + size.toNat ≤ data.length) :
    labelAt data p = (data.drop (p + 1)).take size.toNat := by
  rw [labelAt, byteAt_some here, extract_within room]

theorem Encodes.readAs (encodes : Encodes data p labels stop) : ReadAs data p labels stop := by
  induction encodes with
  | root here =>
    have inside := (List.getElem?_eq_some_iff.mp here).1
    exact .last inside (by rw [byteAt_some here]; rfl) (.inl (byteAt_some here))
  | @label p stop size labels here nonempty short room _ ih =>
    have size_eq := byteAt_some here
    have present : byteAt data p ≠ 0 := by
      intro zero
      rw [← size_eq, zero] at nonempty
      exact absurd nonempty (Nat.lt_irrefl 0)
    have next : behind data p = p + 1 + size.toNat := by
      rw [behind, size_eq]
      exact Nat.min_eq_left room
    rw [← labelAt_within here room]
    exact .label present (size_eq ▸ short) (next ▸ ih)
  | @reference p stop high low labels here marked next backward _ ih =>
    have inside := (List.getElem?_eq_some_iff.mp next).1
    have behind_ : after data (p + 1) = p + 2 := after_inside inside
    rw [← behind_]
    refine .reference (by rw [byteAt_some here]; exact marked) ?_ ih
    rw [target, byteAt_some here, byteAt_some next, if_pos (by omega)]

theorem Encodes.sizes (encodes : Encodes data p labels stop) :
    ∀ label ∈ labels, label ≠ [] ∧ label.length ≤ maxLabel := by
  induction encodes with
  | root => exact nofun
  | @label p stop size labels _ nonempty short room _ ih =>
    have long : ((data.drop (p + 1)).take size.toNat).length = size.toNat := by
      rw [length_take, length_drop]
      omega
    intro label member
    cases member with
    | head =>
      constructor
      · apply ne_nil_of_length_pos
        rw [long]
        exact nonempty
      · rw [long]
        exact short
    | tail _ member => exact ih label member
  | reference _ _ _ _ _ ih => exact ih

end Dns
