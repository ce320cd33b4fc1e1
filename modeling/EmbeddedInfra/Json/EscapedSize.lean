import EmbeddedInfra.Json.Escaping

/-! The size of an escaped string, and the part of a string that stays below a size. -/

namespace Json

open List

variable (signedChar : Bool)

def escapedCharacterSize (c : UInt8) : Nat :=
  if [quotes, backslash, 8, 12, 10, 13, 9].contains c then 2 else 6

/-- The rest of a string; every round but the last one passes an escaped character. -/
def escapedSizeRounds : Nat → Text → Nat
  | 0, _ => 0
  | rounds + 1, string =>
    match nonEscapedSubString signedChar string with
    | (nonEscaped, []) => nonEscaped.length
    | (nonEscaped, c :: rest) =>
      nonEscaped.length + escapedCharacterSize c + escapedSizeRounds rounds rest

def jsonEscapedStringSize (string : Text) : Nat :=
  escapedSizeRounds signedChar (string.length + 1) string

/-- Where the loop ends that has come to `start` with `size` bytes. -/
def subStringRounds (string : Text) (maxEscapedSize : Nat) : Nat → Nat → Nat → Nat
  | 0, start, _ => start
  | rounds + 1, start, size =>
    if start ≠ string.length ∧ size < maxEscapedSize then
      let nonEscaped := (nonEscapedSubString signedChar (string.drop start)).1
      let increment := min nonEscaped.length (maxEscapedSize - size)
      match string[start + increment]? with
      | none => start + increment
      | some c =>
        if maxEscapedSize - (size + increment) < escapedCharacterSize c then start + increment
        else
          subStringRounds string maxEscapedSize rounds (start + increment + 1)
            (size + increment + escapedCharacterSize c)
    else start

def jsonSubStringOfMaxEscapedSize (string : Text) (maxEscapedSize : Nat) : Text :=
  string.take (subStringRounds signedChar string maxEscapedSize (string.length + 1) 0 0)

/-- The substrings of consecutive calls, each on what the ones before have left. -/
def subStrings (maxEscapedSize : Nat) : Nat → Text → List Text
  | 0, _ => []
  | calls + 1, string =>
    let subString := jsonSubStringOfMaxEscapedSize signedChar string maxEscapedSize
    subString :: subStrings maxEscapedSize calls (string.drop subString.length)

variable {signedChar} {c : UInt8} {room : Nat} {string : Text}

theorem length_written_spec (signed : Bool) (c : UInt8) :
    (mustEscape signed c = true → (written signed c).length = escapedCharacterSize c) ∧
      0 < (written signed c).length ∧ (written signed c).length ≤ 6 := by
  revert signed c
  exact forall_byte (by decide +kernel)

theorem escapedSizeRounds_plain (plain : mustEscape signedChar c = false) (rounds : Nat)
    (rest : Text) :
    escapedSizeRounds signedChar (rounds + 1) (c :: rest) =
      escapedSizeRounds signedChar (rounds + 1) rest + 1 := by
  rw [escapedSizeRounds, escapedSizeRounds, nonEscapedSubString_plain plain]
  cases nonEscapedSubString signedChar rest with
  | mk nonEscaped remaining =>
    cases remaining with
    | nil => rfl
    | cons d others =>
      change nonEscaped.length + 1 + _ + _ = nonEscaped.length + _ + _ + 1
      omega

theorem escapedSizeRounds_eq (rounds : Nat) (string : Text) (enough : string.length < rounds) :
    escapedSizeRounds signedChar rounds string =
      (string.flatMap (written signedChar)).length := by
  induction string generalizing rounds with
  | nil =>
    cases rounds with
    | zero | succ rounds => rfl
  | cons c rest ih =>
    obtain ⟨rounds, rfl⟩ := Nat.exists_eq_add_one_of_ne_zero (Nat.ne_zero_of_lt enough)
    rw [length_cons] at enough
    rw [flatMap_cons, length_append]
    cases escaped : mustEscape signedChar c with
    | false =>
      rw [escapedSizeRounds_plain escaped, ih _ (Nat.lt_of_succ_lt enough),
        written_of_plain escaped, length_singleton, Nat.add_comm]
    | true =>
      rw [escapedSizeRounds, nonEscapedSubString_escaped escaped]
      change [].length + escapedCharacterSize c + escapedSizeRounds signedChar rounds rest = _
      rw [ih rounds (Nat.lt_of_succ_lt_succ enough), (length_written_spec signedChar c).1 escaped,
        length_nil, Nat.zero_add]

theorem jsonEscapedStringSize_eq (string : Text) :
    jsonEscapedStringSize signedChar string = (string.flatMap (written signedChar)).length :=
  escapedSizeRounds_eq _ string (Nat.lt_succ_self _)

/-- How many characters fit, one by one. -/
def fitting (signedChar : Bool) : Nat → Text → Nat
  | _, [] => 0
  | room, c :: rest =>
    if (written signedChar c).length ≤ room then
      fitting signedChar (room - (written signedChar c).length) rest + 1
    else 0

theorem fitting_le (room : Nat) (string : Text) : fitting signedChar room string ≤ string.length := by
  induction string generalizing room with
  | nil => exact le_rfl
  | cons c rest ih =>
    rw [fitting]
    split
    · exact Nat.succ_le_succ (ih _)
    · exact Nat.zero_le _

theorem size_fitting (room : Nat) (string : Text) :
    ((string.take (fitting signedChar room string)).flatMap (written signedChar)).length ≤ room := by
  induction string generalizing room with
  | nil => exact Nat.zero_le _
  | cons c rest ih =>
    rw [fitting]
    split
    next fits =>
      have := ih (room - (written signedChar c).length)
      rw [take_succ_cons, flatMap_cons, length_append]
      omega
    next => exact Nat.zero_le _

theorem le_fitting (room count : Nat) (string : Text) (inside : count ≤ string.length)
    (fits : ((string.take count).flatMap (written signedChar)).length ≤ room) :
    count ≤ fitting signedChar room string := by
  induction string generalizing room count with
  | nil => exact inside
  | cons c rest ih =>
    cases count with
    | zero => exact Nat.zero_le _
    | succ count =>
      rw [take_succ_cons, flatMap_cons, length_append] at fits
      rw [fitting, if_pos (by omega)]
      exact Nat.succ_le_succ (ih _ count (Nat.le_of_succ_le_succ inside) (by omega))

theorem fitting_zero (string : Text) : fitting signedChar 0 string = 0 := by
  cases string with
  | nil => rfl
  | cons c rest => exact if_neg (Nat.not_le.mpr (length_written_spec signedChar c).2.1)

theorem fitting_round (room : Nat) (string : Text) {increment : Nat}
    (reached : increment = min (nonEscapedSubString signedChar string).1.length room) :
    fitting signedChar room string =
      match string[increment]? with
      | none => increment
      | some c =>
        if room - increment < escapedCharacterSize c then increment
        else
          increment + 1 +
            fitting signedChar (room - increment - escapedCharacterSize c)
              (string.drop (increment + 1)) := by
  subst reached
  induction string generalizing room with
  | nil => rfl
  | cons c rest ih =>
    cases escaped : mustEscape signedChar c with
    | false =>
      rw [nonEscapedSubString_plain escaped, fitting, written_of_plain escaped]
      cases room with
      | zero =>
        have positive : 0 < escapedCharacterSize c := by
          rw [escapedCharacterSize]
          split <;> omega
        rw [Nat.min_zero, getElem?_cons_zero]
        exact (if_pos positive).symm
      | succ room =>
        rw [if_pos (by simp), length_singleton, Nat.add_sub_cancel, ih room,
          length_cons, Nat.add_min_add_right, getElem?_cons_succ, drop_succ_cons,
          Nat.add_sub_add_right]
        generalize min (nonEscapedSubString signedChar rest).1.length room = increment
        cases rest[increment]? with
        | none => rfl
        | some d =>
          change (if _ then _ else _) + 1 = _
          split
          next full => exact (if_pos full).symm
          next fits => exact (Nat.add_right_comm _ _ _).trans (if_neg fits).symm
    | true =>
      rw [nonEscapedSubString_escaped escaped, fitting, (length_written_spec _ c).1 escaped]
      simp only [length_nil, Nat.zero_min, getElem?_cons_zero, Nat.sub_zero, zero_add,
        drop_succ_cons, drop_zero]
      split
      next fits => rw [if_neg (Nat.not_lt.mpr fits), Nat.add_comm]
      next full => rw [if_pos (Nat.not_le.mp full)]

theorem subStringRounds_eq (string : Text) (maxEscapedSize rounds start size : Nat)
    (enough : string.length < start + rounds) (inside : start ≤ string.length)
    (below : size ≤ maxEscapedSize) :
    subStringRounds signedChar string maxEscapedSize rounds start size =
      start + fitting signedChar (maxEscapedSize - size) (string.drop start) := by
  induction rounds generalizing start size with
  | zero => omega
  | succ rounds ih =>
    rw [subStringRounds]
    split
    next goesOn =>
      rw [fitting_round _ _ rfl]
      generalize reached : min (nonEscapedSubString signedChar (string.drop start)).1.length
        (maxEscapedSize - size) = increment
      have short : increment ≤ maxEscapedSize - size := reached ▸ min_le_right _ _
      simp only [reached, getElem?_drop, drop_drop]
      cases found : string[start + increment]? with
      | none => rfl
      | some c =>
        dsimp only
        have within := (List.getElem?_eq_some_iff.mp found).1
        rw [Nat.sub_sub, Nat.sub_sub]
        split
        next => rfl
        next fits =>
          exact (ih _ _ (by omega) within (by omega)).trans (Nat.add_assoc start (increment + 1) _)
    next ends =>
      rcases Classical.em (start = string.length) with all | more
      · rw [all, drop_length]
        rfl
      · have full : size = maxEscapedSize := by omega
        rw [full, Nat.sub_self, fitting_zero, Nat.add_zero]

theorem jsonSubString_eq (string : Text) (maxEscapedSize : Nat) :
    jsonSubStringOfMaxEscapedSize signedChar string maxEscapedSize =
      string.take (fitting signedChar maxEscapedSize string) := by
  rw [jsonSubStringOfMaxEscapedSize, subStringRounds_eq _ _ _ _ _ (by omega) (Nat.zero_le _)
    (Nat.zero_le _), Nat.zero_add, drop_zero, Nat.sub_zero]

theorem length_jsonSubString (string : Text) (maxEscapedSize : Nat) :
    (jsonSubStringOfMaxEscapedSize signedChar string maxEscapedSize).length =
      fitting signedChar maxEscapedSize string := by
  rw [jsonSubString_eq, length_take, min_eq_left (fitting_le _ _)]

theorem flatten_subStrings {maxEscapedSize : Nat} (enough : 6 ≤ maxEscapedSize) (calls : Nat)
    (string : Text) (reached : string.length ≤ calls) :
    (subStrings signedChar maxEscapedSize calls string).flatten = string := by
  induction calls generalizing string with
  | zero => exact (length_eq_zero_iff.mp (Nat.le_zero.mp reached)).symm
  | succ calls ih =>
    have advances : string.length - fitting signedChar maxEscapedSize string ≤ calls := by
      cases string with
      | nil => exact Nat.zero_le _
      | cons c rest =>
        have short := (length_written_spec signedChar c).2.2
        rw [fitting, if_pos (short.trans enough), length_cons]
        rw [length_cons] at reached
        omega
    rw [subStrings, flatten_cons, length_jsonSubString, ih _ (by rwa [length_drop]),
      jsonSubString_eq, take_append_drop]

/-- The escaped size is what the formatters write; the substring is the longest prefix of the rest
of a string that has at most the given one, and consecutive ones make up the string. -/
theorem jsonSubString_longest (signedChar : Bool) (string : Text) :
    (∀ stream, ((Content.string string).write signedChar stream).length =
      stream.length + (jsonEscapedStringSize signedChar string + 2)) ∧
    (∀ start maxEscapedSize,
      let subString := jsonSubStringOfMaxEscapedSize signedChar (string.drop start) maxEscapedSize
      subString <+: string.drop start ∧ jsonEscapedStringSize signedChar subString ≤ maxEscapedSize ∧
        ∀ part, part <+: string.drop start → jsonEscapedStringSize signedChar part ≤ maxEscapedSize →
          part <+: subString) ∧
    ∀ maxEscapedSize, 6 ≤ maxEscapedSize →
      (subStrings signedChar maxEscapedSize string.length string).flatten = string := by
  refine ⟨fun stream => ?_, fun start maxEscapedSize => ⟨?_, ?_, fun part isPrefix fits => ?_⟩,
    fun maxEscapedSize enough => flatten_subStrings enough _ string le_rfl⟩
  · rw [Content.write, insertEscapedContent_eq, jsonEscapedStringSize_eq]
    simp only [length_append, length_singleton]
    omega
  · rw [jsonSubString_eq]
    exact List.take_prefix _ _
  · rw [jsonEscapedStringSize_eq, jsonSubString_eq]
    exact size_fitting _ _
  · rw [List.prefix_iff_eq_take.mp isPrefix, jsonEscapedStringSize_eq] at fits
    rw [jsonSubString_eq, List.prefix_iff_eq_take.mp isPrefix]
    exact List.take_prefix_take_left (le_fitting _ _ _ isPrefix.length_le fits)

end Json
