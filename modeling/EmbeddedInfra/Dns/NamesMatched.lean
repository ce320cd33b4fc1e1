import EmbeddedInfra.Dns.LabelWalks

/-! When a name in a reply is taken for the hostname. -/

namespace Dns

open List

variable {data : Bytes}

/-- The name encoded at a position, with its labels and the position after it. References lead
backward, and not in circles. -/
inductive Encodes (data : Bytes) : Nat → List Bytes → Nat → Prop
  | root {p : Nat} (here : data[p]? = some 0) : Encodes data p [] (p + 1)
  | label {p stop : Nat} {size : UInt8} {labels : List Bytes} (here : data[p]? = some size)
      (nonempty : 0 < size.toNat) (short : size.toNat ≤ 63)
      (room : p + 1 + size.toNat ≤ data.length)
      (rest : Encodes data (p + 1 + size.toNat) labels stop) :
      Encodes data p ((data.drop (p + 1)).take size.toNat :: labels) stop
  | reference {p stop : Nat} {high low : UInt8} {labels : List Bytes}
      (here : data[p]? = some high) (marked : isReference high = true)
      (next : data[p + 1]? = some low) (backward : referenceOffset high low < p)
      (target : Encodes data (referenceOffset high low) labels stop) :
      Encodes data p labels (p + 2)

/-- No reference of the name leads to another reference. -/
inductive Plain (data : Bytes) : Nat → Prop
  | root {p : Nat} (here : data[p]? = some 0) : Plain data p
  | label {p : Nat} {size : UInt8} (here : data[p]? = some size)
      (unmarked : isReference size = false) (rest : Plain data (p + 1 + size.toNat)) :
      Plain data p
  | reference {p : Nat} {high low first : UInt8} (here : data[p]? = some high)
      (marked : isReference high = true) (next : data[p + 1]? = some low)
      (there : data[referenceOffset high low]? = some first)
      (unmarked : isReference first = false) (target : Plain data (referenceOffset high low)) :
      Plain data p

/-- Equal but for the case of letters. -/
def SameName (labels : List Bytes) (hostname : Bytes) : Prop :=
  labels.map (List.map toLower) = (tokens hostname).map (List.map toLower)

def Starts (labels tokens : List Bytes) : Prop :=
  List.Forall₂ (fun label token => label.map toLower <+: token.map toLower) labels tokens

/-- As many labels, each the start of a label of the hostname, and one of them shorter. -/
def Abbreviates (labels : List Bytes) (hostname : Bytes) : Prop :=
  Starts labels (tokens hostname) ∧
    labels.map List.length ≠ (tokens hostname).map List.length

variable (hostname : Bytes) (rounds : Nat)

/-- The labels of the hostname have a size that a question can hold. -/
def Askable : Prop := ∀ token ∈ tokens hostname, token.length ≤ 63

variable {p : Nat} {byte size high low : UInt8} {stop : Nat} {labels : List Bytes}
  {found : Bool × Reader}

theorem extractByte_some {failed : Bool} (here : data[p]? = some byte) :
    Reader.extractByte data ⟨p, failed⟩ = (byte, ⟨p + 1, failed⟩) := by
  simp only [Reader.extractByte, here]

theorem consume_within {amount : Nat} {failed : Bool} (room : p + amount ≤ data.length) :
    Reader.consume data amount ⟨p, failed⟩ = ⟨p + amount, failed⟩ := by
  have within : ¬ data.length < p + amount := by omega
  simp [Reader.consume, Nat.min_eq_left room, within]

theorem take_succ_drop {n : Nat} (here : data[p]? = some byte) :
    (data.drop p).take (n + 1) = byte :: (data.drop (p + 1)).take n := by
  obtain ⟨inside, value⟩ := List.getElem?_eq_some_iff.mp here
  rw [drop_eq_getElem_cons inside, value, take_succ_cons]

theorem matchCharacters_eq (expected : Bytes) (p : Nat) (failed : Bool)
    (room : p + expected.length ≤ data.length) :
    matchCharacters data expected ⟨p, failed⟩ =
      (expected.map toLower == ((data.drop p).take expected.length).map toLower,
        ⟨p + expected.length, failed⟩) := by
  induction expected generalizing p with
  | nil => simp [matchCharacters]
  | cons c rest ih =>
    simp only [length_cons] at room ⊢
    have inside : p < data.length := by omega
    have here : data[p]? = some data[p] := getElem?_eq_getElem inside
    rw [take_succ_drop here]
    simp only [matchCharacters, extractByte_some here, map_cons, cons_beq_cons]
    by_cases same : toLower c = toLower data[p]
    · rw [if_neg (not_not.mpr same), ih (p + 1) (by omega)]
      simp [same, Nat.add_comm 1, Nat.add_assoc]
    · rw [if_pos same, consume_within (by omega)]
      simp [same, Nat.add_comm 1, Nat.add_assoc]

def startsNext (label : Bytes) : List Bytes → Bool
  | [] => false
  | token :: _ => (label.map toLower).isPrefixOf (token.map toLower)

theorem readAndMatchHostnamePart_eq (size p : Nat) (tokens : List Bytes)
    (room : p + size ≤ data.length) :
    readAndMatchHostnamePart partsString data size tokens ⟨p, false⟩ =
      (startsNext ((data.drop p).take size) tokens, ⟨p + size, false⟩) := by
  have length : ((data.drop p).take size).length = size := by
    rw [length_take, length_drop]
    omega
  cases tokens with
  | nil =>
    simp only [readAndMatchHostnamePart, partsString, isEmpty_nil, true_or, if_true,
      consume_within room, startsNext]
  | cons token tokens =>
    simp only [readAndMatchHostnamePart, partsString, isEmpty_cons, Bool.false_eq_true,
      headD_cons, false_or]
    split
    next long =>
      have shorter : startsNext ((data.drop p).take size) (token :: tokens) = false := by
        rw [startsNext, Bool.eq_false_iff, ne_eq, List.isPrefixOf_iff_prefix]
        intro starts
        have := starts.length_le
        simp only [length_map] at this
        omega
      rw [consume_within room, shorter]
    next fits =>
      have taken : (token.take size).length = size := by
        rw [length_take]
        omega
      have same : ((token.take size).map toLower == ((data.drop p).take size).map toLower) =
          startsNext ((data.drop p).take size) (token :: tokens) := by
        rw [startsNext, Bool.eq_iff_iff, beq_iff_eq, List.isPrefixOf_iff_prefix,
          List.prefix_iff_eq_take, length_map, length, ← map_take]
        exact eq_comm
      rw [matchCharacters_eq _ _ _ (by omega), taken, same]

def partsMatch : List Bytes → List Bytes → Bool
  | [], tokens => tokens.isEmpty
  | label :: labels, tokens => startsNext label tokens && partsMatch labels tokens.tail

theorem partsMatch_iff (labels tokens : List Bytes) :
    partsMatch labels tokens = true ↔ Starts labels tokens := by
  induction labels generalizing tokens with
  | nil => cases tokens <;> simp [partsMatch, Starts]
  | cons label labels ih =>
    cases tokens with
    | nil => simp [partsMatch, startsNext, Starts]
    | cons token tokens =>
      simp only [partsMatch, startsNext, tail_cons, Bool.and_eq_true, ih,
        List.isPrefixOf_iff_prefix, Starts, forall₂_cons]

theorem readAndMatchHostname_eq (hostname : Bytes) (p : Nat) (here : data[p]? = some size) :
    readAndMatchHostname data rounds hostname ⟨p, false⟩ =
      goOn partsString data rounds size (tokens hostname) true ⟨p + 1, false⟩ := by
  rw [readAndMatchHostname, readAndMatchHostnameParts_eq, extractByte_some here]

theorem goOn_label {next : UInt8} (tokens : List Bytes) (result : Bool) (nonempty : 0 < size.toNat)
    (unmarked : isReference size = false) (room : p + size.toNat ≤ data.length)
    (after : data[p + size.toNat]? = some next) :
    goOn partsString data (rounds + 1) size tokens result ⟨p, false⟩ =
      goOn partsString data rounds next
        (if result && startsNext ((data.drop p).take size.toNat) tokens then tokens.tail else tokens)
        (result && startsNext ((data.drop p).take size.toNat) tokens)
        ⟨p + size.toNat + 1, false⟩ := by
  have positive : size.toNat ≠ 0 := by omega
  have consumed : ∀ found : Bool, (if found then partsString.consumeCurrent tokens
      else Except.ok tokens) = .ok (if found then tokens.tail else tokens) := by
    intro found
    cases found <;> rfl
  rw [goOn, if_neg (by simp [unmarked]), readAndMatchHostnameWithoutReference, if_neg positive]
  simp only [readAndMatchHostnamePart_eq size.toNat p tokens room, consumed, Except.bind,
    extractByte_some after]
  rfl

theorem goOn_reference {first : UInt8} (tokens : List Bytes) (result : Bool)
    (marked : isReference high = true) (next : data[p]? = some low)
    (backward : referenceOffset high low < p + 1)
    (there : data[referenceOffset high low]? = some first) :
    goOn partsString data rounds high tokens result ⟨p, false⟩ =
      (readAndMatchHostnameWithoutReference partsString data rounds first.toNat tokens true
        ⟨referenceOffset high low + 1, false⟩).map fun (found, r) =>
          (found && result, r.rewind (p + 1)) := by
  have before : ¬ p + 1 ≤ referenceOffset high low := by omega
  rw [goOn, if_pos marked]
  simp only [readAndMatchReferenceHostname, extractByte_some next, before, if_false,
    Reader.rewind, extractByte_some there]
  cases readAndMatchHostnameWithoutReference partsString data rounds first.toNat tokens true
    ⟨referenceOffset high low + 1, false⟩ <;> rfl

theorem goOn_plain (tokens : List Bytes) (result : Bool) (r : Reader)
    (unmarked : isReference size = false) :
    goOn partsString data rounds size tokens result r =
      readAndMatchHostnameWithoutReference partsString data rounds size.toNat tokens result r := by
  rw [goOn, if_neg (by simp [unmarked])]

theorem isReference_of_le (short : size.toNat ≤ 63) : isReference size = false := by
  simp only [isReference, decide_eq_false_iff_not, UInt8.le_iff_toNat_le]
  have : (0xc0 : UInt8).toNat = 192 := rfl
  omega

theorem Plain.rest (plain : Plain data p) (here : data[p]? = some size) (nonempty : 0 < size.toNat)
    (unmarked : isReference size = false) :
    Plain data (p + 1 + size.toNat) := by
  cases plain with
  | root first =>
    cases Option.some.inj (first.symm.trans here)
    exact absurd nonempty (Nat.lt_irrefl 0)
  | label first _ rest =>
    cases Option.some.inj (first.symm.trans here)
    exact rest
  | reference first marked =>
    cases Option.some.inj (first.symm.trans here)
    exact absurd (marked.symm.trans unmarked) nofun

theorem Plain.target (plain : Plain data p) (here : data[p]? = some high)
    (marked : isReference high = true) (next : data[p + 1]? = some low) :
    ∃ first, data[referenceOffset high low]? = some first ∧ isReference first = false ∧
      Plain data (referenceOffset high low) := by
  cases plain with
  | root first =>
    cases Option.some.inj (first.symm.trans here)
    cases marked
  | label first unmarked _ =>
    cases Option.some.inj (first.symm.trans here)
    exact absurd (marked.symm.trans unmarked) nofun
  | reference first _ second there unmarked target =>
    cases Option.some.inj (first.symm.trans here)
    cases Option.some.inj (second.symm.trans next)
    exact ⟨_, there, unmarked, target⟩

theorem Encodes.first (encodes : Encodes data p labels stop) : ∃ size, data[p]? = some size := by
  cases encodes with
  | root here | label here | reference here => exact ⟨_, here⟩

theorem map_eq_ok {α β ε : Type} {first : Except ε α} {next : α → β} {result : β} :
    first.map next = .ok result ↔ ∃ value, first = .ok value ∧ next value = result := by
  cases first with
  | error | ok value => simp [Except.map]

theorem goOn_encoded (encodes : Encodes data p labels stop) (plain : Plain data p)
    (here : data[p]? = some size) (tokens : List Bytes) (result : Bool) (rounds : Nat)
    (returns : goOn partsString data rounds size tokens result ⟨p + 1, false⟩ = .ok found) :
    found = (result && partsMatch labels tokens, ⟨stop, false⟩) := by
  induction encodes generalizing size tokens result rounds found with
  | root first =>
    cases Option.some.inj (first.symm.trans here)
    rw [goOn_plain rounds tokens result _ rfl] at returns
    cases rounds with
    | zero => cases returns
    | succ rounds =>
      cases returns
      simp [partsMatch, partsString]
  | @label p stop n labels first nonempty short room rest ih =>
    cases Option.some.inj (first.symm.trans here)
    have unmarked := isReference_of_le short
    obtain ⟨next, after⟩ := rest.first
    cases rounds with
    | zero =>
      rw [goOn_plain 0 tokens result _ unmarked] at returns
      cases returns
    | succ rounds =>
      rw [goOn_label rounds tokens result nonempty unmarked room after] at returns
      rw [ih (plain.rest first nonempty unmarked) after _ _ rounds returns, partsMatch]
      cases result <;> cases startsNext ((data.drop (p + 1)).take n.toNat) tokens <;> rfl
  | @reference p stop high low labels first marked next backward target ih =>
    cases Option.some.inj (first.symm.trans here)
    obtain ⟨byte, there, unmarked, direct⟩ := plain.target first marked next
    rw [goOn_reference rounds tokens result marked next (by omega) there] at returns
    obtain ⟨⟨matched, after⟩, read, same⟩ := map_eq_ok.mp returns
    rw [← goOn_plain rounds tokens true _ unmarked] at read
    cases ih direct there tokens true rounds read
    rw [← same]
    simp only [Reader.rewind, Bool.true_and, Bool.and_comm]

theorem mismatch_stays (size : Nat) (tokens : List Bytes) (r : Reader)
    (returns : readAndMatchHostnameWithoutReference partsString data rounds size tokens false r =
      .ok found) :
    found.1 = false := by
  induction rounds generalizing size r tokens with
  | zero => cases returns
  | succ rounds ih =>
    rw [readAndMatchHostnameWithoutReference] at returns
    split at returns
    · cases returns
      rfl
    · simp only [Bool.false_and, Bool.false_eq_true, if_false, Except.bind] at returns
      split at returns
      · obtain ⟨found', _, same⟩ := map_eq_ok.mp returns
        rw [← same]
        exact Bool.and_false _
      · exact ih _ _ _ returns

theorem long_label_mismatches {rounds : Nat} {tokens : List Bytes} {r : Reader}
    (marked : isReference size = true) (short : ∀ token ∈ tokens, token.length ≤ 63)
    (returns : readAndMatchHostnameWithoutReference partsString data rounds size.toNat tokens true
      r = .ok found) :
    found.1 = false := by
  have long : 192 ≤ size.toNat := by
    simpa [isReference, UInt8.le_iff_toNat_le] using marked
  have skipped : readAndMatchHostnamePart partsString data size.toNat tokens r =
      (false, r.consume data size.toNat) := by
    apply if_pos
    cases tokens with
    | nil => exact .inl rfl
    | cons token tokens =>
      have := short token (mem_cons_self ..)
      exact .inr (show token.length < size.toNat by omega)
  cases rounds with
  | zero => cases returns
  | succ rounds =>
    rw [readAndMatchHostnameWithoutReference, if_neg (by omega)] at returns
    simp only [skipped, Bool.and_false, Bool.false_eq_true, if_false, Except.bind] at returns
    split at returns
    next =>
      obtain ⟨found', _, same⟩ := map_eq_ok.mp returns
      rw [← same]
    next => exact mismatch_stays _ _ _ _ returns

theorem goOn_chained (encodes : Encodes data p labels stop) (chained : ¬ Plain data p)
    (here : data[p]? = some size) (tokens : List Bytes)
    (short : ∀ token ∈ tokens, token.length ≤ 63) (result : Bool) (rounds : Nat)
    (returns : goOn partsString data rounds size tokens result ⟨p + 1, false⟩ = .ok found) :
    found.1 = false ∧ found.2.offset = stop := by
  induction encodes generalizing size tokens result rounds found with
  | root first => exact absurd (.root first) chained
  | @label p stop n labels first nonempty small room rest ih =>
    cases Option.some.inj (first.symm.trans here)
    have unmarked := isReference_of_le small
    obtain ⟨next, after⟩ := rest.first
    have chained' : ¬ Plain data (p + 1 + n.toNat) :=
      fun plain => chained (.label first unmarked plain)
    cases rounds with
    | zero =>
      rw [goOn_plain 0 tokens result _ unmarked] at returns
      cases returns
    | succ rounds =>
      rw [goOn_label rounds tokens result nonempty unmarked room after] at returns
      refine ih chained' after _ ?_ _ _ returns
      split
      · exact fun token member => short token (mem_of_mem_tail member)
      · exact short
  | @reference p stop high low labels first marked next backward target ih =>
    cases Option.some.inj (first.symm.trans here)
    obtain ⟨byte, there⟩ := target.first
    rw [goOn_reference rounds tokens result marked next (by omega) there] at returns
    obtain ⟨⟨matched, after⟩, read, same⟩ := map_eq_ok.mp returns
    rw [← same]
    have mismatch : matched = false := by
      cases marked' : isReference byte with
      | false =>
        have chained' : ¬ Plain data (referenceOffset high low) :=
          fun plain => chained (.reference first marked next there marked' plain)
        rw [← goOn_plain rounds tokens true _ marked'] at read
        exact (ih chained' there tokens short true rounds read).1
      | true => exact long_label_mismatches marked' short read
    exact ⟨by rw [mismatch]; rfl, rfl⟩

theorem byteAt_some (here : data[p]? = some byte) : byteAt data p = byte := by
  rw [byteAt, getD_eq_getElem?_getD, here]
  rfl

theorem follow_plain (here : data[p]? = some size) (unmarked : isReference size = false) :
    follow data p = some p := by
  rw [follow, byteAt_some here, if_neg (by simp [unmarked])]

theorem follow_reference (here : data[p]? = some high) (marked : isReference high = true)
    (next : data[p + 1]? = some low) (backward : referenceOffset high low < p) :
    follow data p = some (referenceOffset high low) := by
  have inside : p + 1 < data.length := (List.getElem?_eq_some_iff.mp next).1
  rw [follow, byteAt_some here, if_pos marked, target, byteAt_some here, byteAt_some next,
    after_inside inside]
  exact if_pos (by omega)

theorem visits_of_plain (encodes : Encodes data p labels stop) (plain : Plain data p) :
    ∀ q, follow data p = some q → ∃ n, Walks.Visits (labelNext data) q n := by
  induction encodes with
  | root first =>
    intro q leads
    rw [follow_plain first rfl] at leads
    cases leads
    exact ⟨1, .last (if_pos (byteAt_some first))⟩
  | @label p stop size labels first nonempty short room rest ih =>
    intro q leads
    have unmarked := isReference_of_le short
    rw [follow_plain first unmarked] at leads
    cases leads
    have present : byteAt data p ≠ 0 := by
      rw [byteAt_some first]
      intro zero
      rw [zero] at nonempty
      exact absurd nonempty (Nat.lt_irrefl 0)
    have on : labelNext data p = follow data (p + 1 + size.toNat) := by
      rw [labelNext_eq present, behind, byteAt_some first, Nat.min_eq_left room]
    have later := ih (plain.rest first nonempty unmarked)
    cases leads : follow data (p + 1 + size.toNat) with
    | none => exact ⟨1, .last (on.trans leads)⟩
    | some next =>
      obtain ⟨n, visits⟩ := later next leads
      exact ⟨n + 1, .step (on.trans leads) visits⟩
  | @reference p stop high low labels first marked next backward target ih =>
    intro q leads
    obtain ⟨byte, there, unmarked, direct⟩ := plain.target first marked next
    rw [follow_reference first marked next backward] at leads
    cases leads
    exact ih direct _ (follow_plain there unmarked)

def LabelsEnd (data : Bytes) (position : Nat) : Prop :=
  ∀ p, follow data position = some p → Walks.LoopFree (labelNext data) p

theorem consumable_string (hostnameParts : List Bytes) (p : Nat) (c : Comparing (List Bytes))
    (_ : Relation.ReflTransGen (Compares partsString data) ⟨p, hostnameParts, true⟩ c) :
    Consumable partsString data c := by
  intro _
  rw [consumed]
  split
  · exact ⟨_, rfl⟩
  · exact ⟨_, rfl⟩

theorem hostname_ends_iff (r : Reader) :
    readAndMatchHostname data (enoughRounds data) hostname r ≠ .error .running ↔
      LabelsEnd data r.offset := by
  refine (match_ends_iff partsString (fun _ _ stops => nomatch stops) (tokens hostname) r).trans ?_
  apply forall_congr'
  intro p
  apply imp_congr_right
  intro _
  exact and_iff_left (consumable_string (tokens hostname) p)

theorem starts_same_length {tokens : List Bytes} :
    labels.map (List.map toLower) = tokens.map (List.map toLower) ↔
      Starts labels tokens ∧ labels.map List.length = tokens.map List.length := by
  induction labels generalizing tokens with
  | nil => cases tokens <;> simp [Starts]
  | cons label labels ih =>
    cases tokens with
    | nil => simp [Starts]
    | cons token tokens =>
      simp only [map_cons, List.cons.injEq, ih, Starts, forall₂_cons]
      constructor
      · intro ⟨same, starts, lengths⟩
        have length := congrArg List.length same
        simp only [length_map] at length
        exact ⟨⟨same ▸ List.prefix_rfl, starts⟩, length, lengths⟩
      · intro ⟨⟨start, starts⟩, length, lengths⟩
        exact ⟨start.eq_of_length (by simpa using length), starts, lengths⟩

/-- The name at a position is taken for the hostname just if it is the hostname, and it is read to
its end. -/
def Exactly (data hostname : Bytes) (p : Nat) (labels : List Bytes) (stop : Nat) : Prop :=
  ∃ (result : Bool) (r : Reader),
    readAndMatchHostname data (enoughRounds data) hostname ⟨p, false⟩ = .ok (result, r) ∧
      r.offset = stop ∧ (result = true ↔ SameName labels hostname)

theorem labelsEnd_of_plain (encodes : Encodes data p labels stop) (plain : Plain data p) :
    LabelsEnd data p := by
  intro q leads
  obtain ⟨n, visits⟩ := visits_of_plain encodes plain q leads
  exact visits.loopFree

theorem hostname_error {hostname : Bytes} {rounds : Nat} {r : Reader} {e : Stop}
    (stops : readAndMatchHostname data rounds hostname r = .error e) : e = .running := by
  rw [readAndMatchHostname, readAndMatchHostnameParts_eq partsString] at stops
  cases leads : follow data r.offset with
  | none =>
    obtain ⟨found, returns⟩ := goOn_refused partsString rounds (tokens hostname) true r leads
    exact absurd (returns.symm.trans stops) nofun
  | some p =>
    obtain ⟨failed, finish, same⟩ := goOn_follow partsString rounds (tokens hostname) true r leads
    rw [same] at stops
    cases inner : readAndMatchHostnameWithoutReference partsString data rounds
        (byteAt data p).toNat (tokens hostname) (isReference (byteAt data r.offset) || true)
        ⟨after data p, failed⟩ with
    | error e' =>
      rw [inner] at stops
      cases stops
      exact error_running partsString (fun _ _ stops => nomatch stops) _ inner
    | ok found =>
      rw [inner] at stops
      cases stops

theorem hostname_returns (ends : LabelsEnd data p) :
    ∃ found, readAndMatchHostname data (enoughRounds data) hostname ⟨p, false⟩ = .ok found := by
  have running := (hostname_ends_iff hostname ⟨p, false⟩).mpr ends
  cases returns : readAndMatchHostname data (enoughRounds data) hostname ⟨p, false⟩ with
  | error e =>
    cases hostname_error returns
    exact absurd returns running
  | ok found => exact ⟨found, rfl⟩

/-- A plain name is taken for the hostname where its labels are the starts of those of the
hostname. -/
theorem plain_returns (encodes : Encodes data p labels stop) (plain : Plain data p)
    (hostname : Bytes) :
    readAndMatchHostname data (enoughRounds data) hostname ⟨p, false⟩ =
      .ok (partsMatch labels (tokens hostname), ⟨stop, false⟩) := by
  obtain ⟨size, here⟩ := encodes.first
  obtain ⟨found, returns⟩ := hostname_returns hostname
    (labelsEnd_of_plain encodes plain)
  have read := returns
  rw [readAndMatchHostname_eq _ hostname p here] at read
  rw [returns, goOn_encoded encodes plain here (tokens hostname) true _ read]
  rfl

theorem exactly_of_plain_iff (encodes : Encodes data p labels stop) (plain : Plain data p)
    (hostname : Bytes) :
    Exactly data hostname p labels stop ↔ ¬ Abbreviates labels hostname := by
  have returns := plain_returns encodes plain hostname
  have starts := partsMatch_iff labels (tokens hostname)
  constructor
  · intro ⟨result, r, returns', _, same⟩ ⟨begun, shorter⟩
    cases returns.symm.trans returns'
    exact shorter (starts_same_length.mp (same.mp (starts.mpr begun))).2
  · intro whole
    refine ⟨_, _, returns, rfl, starts.trans ?_⟩
    rw [SameName, starts_same_length]
    constructor
    · intro begun
      exact ⟨begun, by_contra fun shorter => whole ⟨begun, shorter⟩⟩
    · exact And.left

theorem exactly_of_chained_iff (encodes : Encodes data p labels stop) (chained : ¬ Plain data p)
    {hostname : Bytes} (askable : Askable hostname) :
    Exactly data hostname p labels stop ↔ LabelsEnd data p ∧ ¬ SameName labels hostname := by
  obtain ⟨size, here⟩ := encodes.first
  constructor
  · intro ⟨result, r, returns, _, same⟩
    have ends : LabelsEnd data p := by
      apply (hostname_ends_iff hostname ⟨p, false⟩).mp
      rw [returns]
      exact nofun
    rw [readAndMatchHostname_eq _ hostname p here] at returns
    have mismatch := (goOn_chained encodes chained here (tokens hostname) askable true _ returns).1
    exact ⟨ends, fun name => absurd ((same.mpr name).symm.trans mismatch) nofun⟩
  · intro ⟨ends, other⟩
    obtain ⟨⟨result, r⟩, returns⟩ := hostname_returns hostname ends
    have read := returns
    rw [readAndMatchHostname_eq _ hostname p here] at read
    obtain ⟨mismatch, behind⟩ := goOn_chained encodes chained here (tokens hostname) askable true _
      read
    refine ⟨result, r, returns, behind, ?_⟩
    apply iff_of_false _ other
    intro found
    exact absurd (found.symm.trans mismatch) nofun

end Dns
