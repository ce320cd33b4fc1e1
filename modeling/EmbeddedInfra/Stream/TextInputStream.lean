import EmbeddedInfra.Json.Tokens

/-! Integers on text streams: how they are written, and how they are read. -/

namespace TextStreams

open Json List

inductive Radix where
  | dec
  | hex

namespace Radix

def base : Radix → Nat
  | dec => 10
  | hex => 16

def digit (radix : Radix) (c : UInt8) : Option Nat :=
  if char '0' ≤ c ∧ c ≤ char '9' then some (c.toNat - 48)
  else match radix with
    | dec => none
    | hex =>
      if char 'a' ≤ c ∧ c ≤ char 'f' then some (c.toNat - 97 + 10)
      else if char 'A' ≤ c ∧ c ≤ char 'F' then some (c.toNat - 65 + 10)
      else none

end Radix

/-- The text that is left, and whether the error policy was told about a failure. -/
structure TextInputStream where
  rest : Text
  failed : Bool
  deriving DecidableEq

variable (radix : Radix) (width : Option Nat)

/-- The loop of `ReadAsDecimal` and `ReadAsHex` with `count` characters read, and what it reports.
Without a width it goes on for as long as there is text. -/
def readDigits {bits : Nat} (count : Nat) (v : BitVec bits) : Text → BitVec bits × Text × Bool
  | [] => (v, [], decide (0 < count))
  | c :: rest =>
    if some count ≠ width ∨ count = 0 then
      match radix.digit c with
      | some digit =>
        readDigits (count + 1) (v * BitVec.ofNat bits radix.base + BitVec.ofNat bits digit) rest
      | none => (v, c :: rest, decide (0 < count))
    else (v, c :: rest, true)

namespace TextInputStream

/-- The last peek fails when only spaces are left. -/
def skipSpaces (stream : TextInputStream) : TextInputStream :=
  let rest := stream.rest.dropWhile (· == space)
  ⟨rest, stream.failed || rest.isEmpty⟩

def readUnsigned (bits : Nat) (stream : TextInputStream) : BitVec bits × TextInputStream :=
  let stream := stream.skipSpaces
  let (v, rest, ok) := readDigits radix width 0 0 stream.rest
  (v, ⟨rest, stream.failed || !ok⟩)

def readSigned (bits : Nat) (stream : TextInputStream) : BitVec bits × TextInputStream :=
  let stream := stream.skipSpaces
  if stream.rest.head? = some minus then
    let (vp, stream) := readUnsigned radix width bits ⟨stream.rest.tail, stream.failed⟩
    (-1 * vp, stream)
  else
    let (vp, stream) := readUnsigned radix width bits stream
    (1 * vp, stream)

/-- `operator>>`: small integers are read as 32 bits and cut. -/
def read (signed : Bool) (bits : Nat) (stream : TextInputStream) : BitVec bits × TextInputStream :=
  let (v, stream) := if signed = true then readSigned radix width (max 32 bits) stream
    else readUnsigned radix width (max 32 bits) stream
  (v.setWidth bits, stream)

end TextInputStream

/-- `Width`, as the output streams have it. -/
structure Width where
  width : Nat
  padding : UInt8

/-- The digits with their sign, as `OutputAsDecimal` and `OutputAsHexadecimal` write them. -/
def unpadded (v : BitVec 64) (negative : Bool) : Text :=
  (if negative = true then [minus] else []) ++ outputDigits radix.base v

/-- `OutputOptionalPadding` comes before the sign. -/
def output (padded : Width) (v : BitVec 64) (negative : Bool) : Text :=
  List.replicate (padded.width - (unpadded radix v negative).length) padded.padding ++
    unpadded radix v negative

/-- `operator<<`: every integer is written as one of 64 bits. -/
def write (padded : Width) (signed : Bool) {bits : Nat} (v : BitVec bits) : Text :=
  let wide := if signed = true then v.signExtend 64 else v.setWidth 64
  let negative := signed && wide.slt 0
  output radix padded (if negative = true then -wide else wide) negative

section

variable {radix : Radix} {width : Option Nat} {bits : Nat}

theorem digit_hexChar {digit : Nat} (small : digit < radix.base) :
    radix.digit (hexChar digit) = some digit := by
  cases radix with
  | dec =>
    have all : ∀ n : Fin 10, Radix.dec.digit (hexChar n) = some n.val := by decide
    exact all ⟨digit, small⟩
  | hex =>
    have all : ∀ n : Fin 16, Radix.hex.digit (hexChar n) = some n.val := by decide
    exact all ⟨digit, small⟩

theorem digit_ne {c : UInt8} {digit : Nat} (is : radix.digit c = some digit) :
    c ≠ space ∧ c ≠ minus := by
  constructor
  all_goals
    rintro rfl
    cases radix <;> cases is

variable {digits : List Nat}

theorem forall₂_hexChar (small : ∀ digit ∈ digits, digit < radix.base) :
    List.Forall₂ (fun c digit => radix.digit c = some digit) (digits.map hexChar) digits := by
  rw [forall₂_map_left_iff]
  exact forall₂_same.mpr fun digit member => digit_hexChar (small digit member)

def valueOf (radix : Radix) (digits : List Nat) : Nat :=
  digits.foldl (fun value digit => value * radix.base + digit) 0

variable (width bits) in
theorem readDigits_front {front : Text}
    (all : List.Forall₂ (fun c digit => radix.digit c = some digit) front digits) (after : Text)
    (count start : Nat) (room : ∀ most, width = some most → count + front.length ≤ most) :
    readDigits radix width count (BitVec.ofNat bits start) (front ++ after) =
      readDigits radix width (count + front.length)
        (BitVec.ofNat bits (digits.foldl (fun value digit => value * radix.base + digit) start))
        after := by
  induction all generalizing count start with
  | nil => rfl
  | @cons c digit front digits is all ih =>
    have goesOn : some count ≠ width ∨ count = 0 := by
      refine .inl fun full => ?_
      have := room count full.symm
      rw [length_cons] at this
      omega
    have step : BitVec.ofNat bits start * BitVec.ofNat bits radix.base + BitVec.ofNat bits digit =
        BitVec.ofNat bits (start * radix.base + digit) := by
      rw [BitVec.ofNat_add, BitVec.ofNat_mul]
    rw [cons_append, readDigits, if_pos goesOn]
    simp only [is]
    rw [step, ih (count + 1) _ fun most same => ?_, length_cons, foldl_cons,
      Nat.add_right_comm, Nat.add_assoc]
    have := room most same
    rw [length_cons] at this
    omega

theorem readDigits_ends {after : Text} (ends : ∀ c ∈ after.head?, radix.digit c = none)
    {count : Nat} (some : 0 < count) (v : BitVec bits) :
    readDigits radix width count v after = (v, after, true) := by
  cases after with
  | nil => rw [readDigits, decide_eq_true some]
  | cons c rest =>
    rw [readDigits]
    split
    next => simp only [ends c rfl, decide_eq_true some]
    next => rfl

namespace TextInputStream

theorem skipSpaces_spaces {c : UInt8} (other : c ≠ space) (spaces : Nat) (rest : Text) (failed : Bool) :
    skipSpaces ⟨List.replicate spaces space ++ c :: rest, failed⟩ = ⟨c :: rest, failed⟩ := by
  have all : ∀ a ∈ List.replicate spaces space, (a == space) = true := fun a member =>
    beq_iff_eq.mpr (eq_of_mem_replicate member)
  have left : (List.replicate spaces space ++ c :: rest).dropWhile (· == space) = c :: rest := by
    rw [dropWhile_append_of_pos all]
    exact dropWhile_cons_of_neg fun same => other (beq_iff_eq.mp same)
  rw [skipSpaces, left]
  simp

variable {digits : List Nat} {after : Text}

variable (bits) in
theorem readUnsigned_digits (nonempty : digits ≠ []) (small : ∀ digit ∈ digits, digit < radix.base)
    (ends : ∀ c ∈ after.head?, radix.digit c = none) (spaces : Nat) :
    readUnsigned radix none bits ⟨List.replicate spaces space ++ digits.map hexChar ++ after, false⟩ =
      (BitVec.ofNat bits (valueOf radix digits), ⟨after, false⟩) := by
  have front := forall₂_hexChar small
  have skipped : skipSpaces ⟨List.replicate spaces space ++ digits.map hexChar ++ after, false⟩ =
      ⟨digits.map hexChar ++ after, false⟩ := by
    obtain ⟨first, digits, rfl⟩ := exists_cons_of_ne_nil nonempty
    rw [append_assoc, map_cons, cons_append]
    exact skipSpaces_spaces (digit_ne (digit_hexChar (small first mem_cons_self))).1 _ _ _
  have length : 0 < 0 + (digits.map hexChar).length := by
    rw [length_map, Nat.zero_add]
    exact length_pos_of_ne_nil nonempty
  have found : readDigits radix none 0 (0 : BitVec bits) (digits.map hexChar ++ after) =
      (BitVec.ofNat bits (valueOf radix digits), after, true) :=
    (readDigits_front _ _ front after 0 0 (by simp)).trans (readDigits_ends ends length _)
  rw [readUnsigned, skipped]
  simp only [found]
  rfl

theorem readSigned_digits (nonempty : digits ≠ []) (small : ∀ digit ∈ digits, digit < radix.base)
    (ends : ∀ c ∈ after.head?, radix.digit c = none) (spaces : Nat) :
    readSigned radix none bits ⟨List.replicate spaces space ++ digits.map hexChar ++ after, false⟩ =
      (BitVec.ofNat bits (valueOf radix digits), ⟨after, false⟩) := by
  have found := readUnsigned_digits bits nonempty small ends 0
  obtain ⟨first, digits, rfl⟩ := exists_cons_of_ne_nil nonempty
  have other := digit_ne (digit_hexChar (small first mem_cons_self))
  rw [append_assoc, map_cons, cons_append] at found ⊢
  rw [readSigned, skipSpaces_spaces other.1]
  simp only [head?_cons, Option.some.injEq, if_neg other.2]
  rw [replicate_zero, nil_append] at found
  rw [found, one_mul]

theorem readSigned_minus (nonempty : digits ≠ []) (small : ∀ digit ∈ digits, digit < radix.base)
    (ends : ∀ c ∈ after.head?, radix.digit c = none) (spaces : Nat) :
    readSigned radix none bits
        ⟨List.replicate spaces space ++ minus :: (digits.map hexChar ++ after), false⟩ =
      (-1 * BitVec.ofNat bits (valueOf radix digits), ⟨after, false⟩) := by
  have found := readUnsigned_digits bits nonempty small ends 0
  rw [replicate_zero, nil_append] at found
  rw [readSigned, skipSpaces_spaces (by decide)]
  simp only [head?_cons, if_true, tail_cons, found]

end TextInputStream

theorem padded_digits {padding : UInt8} (known : padding = space ∨ padding = char '0') (count : Nat)
    (nonempty : digits ≠ []) (small : ∀ digit ∈ digits, digit < radix.base) :
    ∃ spaces more, List.replicate count padding ++ digits.map hexChar =
        List.replicate spaces space ++ more.map hexChar ∧ more ≠ [] ∧
      (∀ digit ∈ more, digit < radix.base) ∧ valueOf radix more = valueOf radix digits := by
  obtain rfl | rfl := known
  · exact ⟨count, digits, rfl, nonempty, small, rfl⟩
  refine ⟨0, List.replicate count 0 ++ digits, ?_, append_ne_nil_of_right_ne_nil _ nonempty, ?_, ?_⟩
  · rw [map_append, map_replicate]
    rfl
  · intro digit member
    obtain zero | other := mem_append.mp member
    · rw [eq_of_mem_replicate zero]
      cases radix <;> decide
    · exact small digit other
  · rw [valueOf, foldl_append]
    congr 1
    induction count with
    | zero => rfl
    | succ count ih => rwa [replicate_succ, foldl_cons, Nat.zero_mul]

section

variable (radix : Radix) (padded : Width) (signed : Bool) {bits : Nat} (v : BitVec bits)

/-- A negative number has fewer digits than a width with zeros leaves for them. -/
def ZerosBeforeSign : Prop :=
  signed = true ∧ padded.padding = char '0' ∧ v.toInt < 0 ∧
    v.toInt.natAbs < radix.base ^ (padded.width - 2)

/-- The text is read as the value, and no further. -/
def ReadsBack (after : Text) : Prop :=
  TextInputStream.read radix none signed bits ⟨write radix padded signed v ++ after, false⟩ =
    (v, ⟨after, false⟩)

end

theorem setWidth_signExtend {bits : Nat} (v : BitVec bits) (le : bits ≤ 64) :
    (v.signExtend 64).setWidth bits = v := by
  apply BitVec.eq_of_getElem_eq
  intro i less
  rw [BitVec.getElem_setWidth, BitVec.getLsbD_signExtend]
  simp [less, less.trans_le le]

theorem natAbs_signExtend {bits : Nat} (v : BitVec bits) (le : bits ≤ 64) (below : v.toInt < 0) :
    (-v.signExtend 64).toNat = v.toInt.natAbs := by
  have same := BitVec.toInt_signExtend_of_le (x := v) le
  have bound := (v.signExtend 64).isLt
  rw [BitVec.toInt_eq_toNat_cond] at same
  rw [BitVec.toNat_neg]
  split at same
  next => omega
  next => omega

theorem slt_signExtend {bits : Nat} (v : BitVec bits) (le : bits ≤ 64) :
    (v.signExtend 64).slt 0 = decide (v.toInt < 0) := by
  rw [BitVec.slt_eq_decide, BitVec.toInt_signExtend_of_le le]
  rfl

theorem valueOf_lt (small : ∀ digit ∈ digits, digit < radix.base) :
    valueOf radix digits < radix.base ^ digits.length := by
  induction digits using List.reverseRecOn with
  | nil => exact Nat.one_pos
  | append_singleton digits digit ih =>
    have least := small digit (by simp)
    have less := ih fun other member => small other (mem_append_left _ member)
    have step := Nat.mul_le_mul_right radix.base less
    rw [valueOf, foldl_append, ← valueOf, length_append, length_singleton, Nat.pow_succ]
    rw [Nat.succ_mul] at step
    exact lt_of_lt_of_le (Nat.add_lt_add_left least _) step

theorem two_le_base (radix : Radix) : 2 ≤ radix.base := by
  cases radix <;> decide

section

variable (radix : Radix) (padded : Width) (signed : Bool) {bits : Nat} (v : BitVec bits)
  (le : bits ≤ 64)

include le

theorem write_negative (below : v.toInt < 0) :
    ∃ digits : List Nat, digits ≠ [] ∧ (∀ digit ∈ digits, digit < radix.base) ∧
      write radix padded true v = List.replicate (padded.width - (digits.length + 1)) padded.padding ++
        minus :: digits.map hexChar ∧
      valueOf radix digits = (-v.signExtend 64).toNat ∧
      (digits.length + 1 < padded.width ↔ v.toInt.natAbs < radix.base ^ (padded.width - 2)) := by
  obtain ⟨digits, same, nonempty, small, value, most⟩ :=
    outputDigits_digits radix.base (two_le_base radix) (-v.signExtend 64)
  have whole := natAbs_signExtend v le below
  refine ⟨digits, nonempty, small, ?_, value, ?_⟩
  · have negative : (v.signExtend 64).slt 0 = true := by
      rw [slt_signExtend v le, decide_eq_true below]
    simp only [write, output, unpadded, if_true, Bool.true_and, negative, same]
    simp
  · have some := length_pos_of_ne_nil nonempty
    constructor
    · intro room
      have less := valueOf_lt small
      rw [valueOf, value, whole] at less
      exact less.trans_le (Nat.pow_le_pow_right (by have := two_le_base radix; omega) (by omega))
    · intro less
      obtain none | ⟨more, exact⟩ : padded.width - 2 = 0 ∨ ∃ more, padded.width - 2 = more + 1 :=
        Nat.eq_zero_or_eq_succ_pred _ |>.imp id fun same => ⟨_, same⟩
      · rw [none, Nat.pow_zero] at less
        omega
      · rw [exact, ← whole] at less
        have := most more less
        omega

theorem write_digits (other : ¬ (signed = true ∧ v.toInt < 0)) :
    ∃ digits : List Nat, digits ≠ [] ∧ (∀ digit ∈ digits, digit < radix.base) ∧
      write radix padded signed v =
        List.replicate (padded.width - digits.length) padded.padding ++ digits.map hexChar ∧
      (BitVec.ofNat (max 32 bits) (valueOf radix digits)).setWidth bits = v := by
  obtain ⟨digits, same, nonempty, small, value, -⟩ := outputDigits_digits radix.base
    (two_le_base radix) (if signed = true then v.signExtend 64 else v.setWidth 64)
  refine ⟨digits, nonempty, small, ?_, ?_⟩
  · have negative : (signed && (if signed = true then v.signExtend 64 else v.setWidth 64).slt 0) = false := by
      cases signed with
      | false => rfl
      | true =>
        rw [Bool.true_and, if_pos rfl, slt_signExtend v le]
        exact decide_eq_false fun below => other ⟨rfl, below⟩
    simp only [write, negative, output, unpadded]
    simp [same]
  · rw [valueOf, value, BitVec.ofNat_toNat, BitVec.setWidth_setWidth_of_le _ (le_max_right 32 bits)]
    cases signed with
    | false => exact (BitVec.setWidth_setWidth_of_le v le).trans (BitVec.setWidth_eq v)
    | true => exact setWidth_signExtend v le

end

/-- Printed integers are read back, unless zeros come before a minus sign. -/
theorem reads_back_iff (radix : Radix) (padded : Width)
    (known : padded.padding = space ∨ padded.padding = char '0') (signed : Bool) {bits : Nat}
    (size : bits ∈ [8, 16, 32, 64]) (v : BitVec bits) {after : Text}
    (ends : ∀ c ∈ after.head?, radix.digit c = none) :
    ReadsBack radix padded signed v after ↔ ¬ ZerosBeforeSign radix padded signed v := by
  have le : bits ≤ 64 := by
    simp only [mem_cons, not_mem_nil, or_false] at size
    omega
  by_cases negative : signed = true ∧ v.toInt < 0
  · obtain ⟨rfl, below⟩ := negative
    obtain ⟨digits, nonempty, small, text, value, room⟩ := write_negative radix padded v le below
    rw [ReadsBack, text, append_assoc, cons_append, TextInputStream.read, if_pos rfl]
    by_cases zeros : padded.padding = char '0' ∧ digits.length + 1 < padded.width
    · refine iff_of_false ?_ (not_not.mpr ⟨rfl, zeros.1, below, room.mp zeros.2⟩)
      -- the zeros are the number, and the sign is what comes after it
      have front (count : Nat) : List.replicate count (char '0') =
          List.replicate 0 space ++ (List.replicate count 0).map hexChar := by
        rw [map_replicate]
        rfl
      intro same
      rw [zeros.1, front, TextInputStream.readSigned_digits] at same
      · have rest := congrArg (fun result => result.2.rest.length) same
        simp only [length_cons, length_append] at rest
        omega
      · rw [Ne, replicate_eq_nil_iff]
        omega
      · intro digit member
        rw [eq_of_mem_replicate member]
        cases radix <;> decide
      · intro c sign
        cases sign
        cases radix <;> rfl
    · refine iff_of_true ?_ fun wrong => zeros ⟨wrong.2.1, room.mpr wrong.2.2.2⟩
      obtain ⟨spaces, same⟩ : ∃ spaces,
          List.replicate (padded.width - (digits.length + 1)) padded.padding =
            List.replicate spaces space := by
        obtain is | is := known
        · exact ⟨_, congrArg _ is⟩
        · exact ⟨0, (replicate_eq_nil_iff _).mpr
            (Nat.sub_eq_zero_of_le (not_lt.mp fun room => zeros ⟨is, room⟩))⟩
      rw [same, TextInputStream.readSigned_minus nonempty small ends]
      simp only [value, BitVec.ofNat_toNat, BitVec.neg_mul, one_mul]
      rw [BitVec.setWidth_neg_of_le (le_max_right 32 bits),
        BitVec.setWidth_setWidth_of_le _ (le_max_right 32 bits), BitVec.setWidth_neg_of_le le,
        setWidth_signExtend v le, neg_neg]
  · obtain ⟨digits, nonempty, small, text, value⟩ := write_digits radix padded signed v le negative
    refine iff_of_true ?_ fun wrong => negative ⟨wrong.1, wrong.2.2.1⟩
    obtain ⟨spaces, more, same, others, below, equal⟩ := padded_digits known
      (padded.width - digits.length) nonempty small
    rw [ReadsBack, text, same, TextInputStream.read]
    cases signed with
    | false =>
      rw [if_neg Bool.false_ne_true, TextInputStream.readUnsigned_digits _ others below ends]
      simp only [equal, value]
    | true =>
      rw [if_pos rfl, TextInputStream.readSigned_digits others below ends]
      simp only [equal, value]

theorem reads_back_iff_least :
    ReadsBack .hex ⟨5, char '0'⟩ true (BitVec.ofInt 16 (-2 ^ 15)) [] ↔
      ¬ ZerosBeforeSign .hex ⟨5, char '0'⟩ true (BitVec.ofInt 16 (-2 ^ 15)) :=
  reads_back_iff .hex _ (.inr rfl) true (by decide) _ (by simp)

/-- `Width(4, '0')` writes minus five as `00-5`, which is read as zero. -/
theorem not_reads_back :
    ¬ ∀ (radix : Radix) (padded : Width), padded.padding = space ∨ padded.padding = char '0' →
      ∀ (signed : Bool) (bits : Nat), bits ∈ [8, 16, 32, 64] → ∀ (v : BitVec bits) (after : Text),
        (∀ c ∈ after.head?, radix.digit c = none) → ReadsBack radix padded signed v after := by
  intro every
  have read := every .dec ⟨4, char '0'⟩ (.inr rfl) true 8 (by decide) (-5) [] (by simp)
  exact absurd read (by unfold ReadsBack; decide)

end

end TextStreams
