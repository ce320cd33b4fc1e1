import EmbeddedInfra.Json.TokenTexts

/-! Tokens of what the formatters write: separations, tag names, numbers and strings, and the
search for the end of an object or an array. -/

namespace Json

open JsonTokenizer List

namespace JsonTokenizer

structure Step (tokenizer : JsonTokenizer) (result : Token × JsonTokenizer) : Prop where
  advances : ∃ count, result.2 = tokenizer.advance count ∧
    (result.1 ≠ .finished → result.1 ≠ .error → 0 < count ∧ tokenizer.rest ≠ [])
  index : ∀ pairing index, Pairing.closes pairing result.1 = some index →
    index = tokenizer.parseIndex

theorem step_token (tokenizer : JsonTokenizer) :
    Step tokenizer.skipWhitespace tokenizer.token where
  advances := by
    obtain ⟨count, same, progress⟩ := tokenizer.accounted_token.advances
    refine ⟨count, same, fun notFinished notError => ?_⟩
    obtain ⟨positive, within, -⟩ := progress (not_or.mpr ⟨notFinished, notError⟩)
    exact ⟨positive, length_pos_iff.mp (positive.trans_le within)⟩
  index := tokenizer.accounted_token.index

theorem skipWhitespace_eq (tokenizer : JsonTokenizer) :
    ∃ count, tokenizer.skipWhitespace = tokenizer.advance count := ⟨_, rfl⟩

theorem parseIndex_token (tokenizer : JsonTokenizer) :
    tokenizer.parseIndex ≤ tokenizer.token.2.parseIndex := by
  obtain ⟨count, same, -⟩ := (step_token tokenizer).advances
  rw [same]
  exact (Nat.le_add_right _ _).trans (Nat.le_add_right _ _)

theorem index_token (tokenizer : JsonTokenizer) {pairing : Pairing} {index : Nat}
    (closes : pairing.closes tokenizer.token.1 = some index) : tokenizer.parseIndex ≤ index := by
  rw [(step_token tokenizer).index pairing index closes]
  exact Nat.le_add_right _ _

theorem length_token (tokenizer : JsonTokenizer) (notFinished : tokenizer.token.1 ≠ .finished)
    (notError : tokenizer.token.1 ≠ .error) :
    tokenizer.token.2.rest.length < tokenizer.rest.length := by
  obtain ⟨count, same, progress⟩ := (step_token tokenizer).advances
  obtain ⟨positive, nonempty⟩ := progress notFinished notError
  have some_left := length_pos_iff.mpr nonempty
  obtain ⟨skipped, whitespace⟩ := skipWhitespace_eq tokenizer
  rw [whitespace, length_advance] at some_left
  rw [same, length_advance, whitespace, length_advance]
  omega

end JsonTokenizer

namespace Pairing

variable (pairing : Pairing)

theorem searchTokens_of_lt (tokens more : Nat) (nested : Int) (tokenizer : JsonTokenizer)
    (first : tokenizer.rest.length < tokens) (second : tokenizer.rest.length < more) :
    pairing.searchTokens tokens nested tokenizer = pairing.searchTokens more nested tokenizer := by
  induction tokens generalizing more nested tokenizer with
  | zero => cases Nat.not_lt_zero _ first
  | succ tokens ih =>
    obtain ⟨more, rfl⟩ := Nat.exists_eq_add_one_of_ne_zero (Nat.ne_zero_of_lt second)
    rw [searchTokens, searchTokens]
    simp only
    split
    next goesOn =>
      have shorter := tokenizer.length_token goesOn.2.1 goesOn.2.2
      exact ih more _ _ (by omega) (by omega)
    next => rfl

theorem searchFrom_eq (nested : Int) (tokenizer : JsonTokenizer) :
    pairing.searchFrom nested tokenizer =
      if (nested ≠ 0 ∨ pairing.closes tokenizer.token.1 = none) ∧
          tokenizer.token.1 ≠ .finished ∧ tokenizer.token.1 ≠ .error then
        pairing.searchFrom (pairing.count tokenizer.token.1 nested) tokenizer.token.2
      else (pairing.closes tokenizer.token.1, tokenizer.token.2) := by
  rw [searchFrom, searchTokens]
  simp only
  split
  next goesOn =>
    have shorter := tokenizer.length_token goesOn.2.1 goesOn.2.2
    exact pairing.searchTokens_of_lt _ _ _ _ shorter (Nat.lt_succ_self _)
  next => rfl

theorem index_searchTokens (tokens : Nat) (nested : Int) (tokenizer : JsonTokenizer) (index : Nat)
    (found : (pairing.searchTokens tokens nested tokenizer).1 = some index) :
    tokenizer.parseIndex ≤ index := by
  induction tokens generalizing nested tokenizer with
  | zero => cases found
  | succ tokens ih =>
    rw [searchTokens] at found
    simp only at found
    split at found
    next => exact tokenizer.parseIndex_token.trans (ih _ _ found)
    next => exact tokenizer.index_token found

theorem index_searchFrom {nested : Int} {tokenizer : JsonTokenizer} {index : Nat}
    (found : (pairing.searchFrom nested tokenizer).1 = some index) :
    tokenizer.parseIndex ≤ index :=
  pairing.index_searchTokens _ _ _ _ found

end Pairing

theorem isDigit_hexChar {digit : Nat} (small : digit < 10) : isDigit (hexChar digit) = true := by
  have all : ∀ n : Fin 10, isDigit (hexChar n) = true := by decide
  exact all ⟨digit, small⟩

theorem toNat_hexChar {digit : Nat} (small : digit < 10) :
    (hexChar digit).toNat = 48 + digit := by
  have all : ∀ n : Fin 10, (hexChar n).toNat = 48 + n := by decide
  exact all ⟨digit, small⟩

theorem outputDigits_spec (v : BitVec 64) :
    (∀ c ∈ outputDigits 10 v, isDigit c = true) ∧ outputDigits 10 v ≠ [] ∧
      toInt 64 (outputDigits 10 v) = v := by
  obtain ⟨digits, same, nonempty, small, value, -⟩ := outputDigits_digits 10 (by omega) v
  have all : ∀ c ∈ outputDigits 10 v, isDigit c = true := by
    rw [same]
    exact forall_mem_map.mpr fun digit member => isDigit_hexChar (small digit member)
  refine ⟨all, by simp [same, nonempty], ?_⟩
  have whole : magnitude (outputDigits 10 v) = v.toNat := by
    rw [same, magnitude, foldl_map, ← value]
    apply foldl_ext
    intro sum digit member
    rw [toNat_hexChar (small digit member), Nat.add_sub_cancel_left]
  rw [toInt_eq_magnitude all, whole]
  exact BitVec.eq_of_toNat_eq (by rw [BitVec.toNat_ofNat, Nat.mod_eq_of_lt v.isLt])

namespace Integer

theorem toInt_eq (integer : Integer) : integer.toInt =
    if integer.negative = true then -(integer.value.toNat : Int) else integer.value.toNat := by
  cases integer with
  | int64 v =>
    change v.toInt = if v.slt 0 = true then -((if v.slt 0 = true then -v else v).toNat : Int)
      else (if v.slt 0 = true then -v else v).toNat
    by_cases negative : v.slt 0 = true
    · rw [if_pos negative, if_pos negative]
      have below : v.toInt < 0 := BitVec.slt_iff_toInt_lt.mp negative
      have bound := v.isLt
      rw [BitVec.toInt_eq_toNat_cond] at below ⊢
      rw [BitVec.toNat_neg]
      split at below
      next => omega
      next => omega
    · rw [if_neg negative, if_neg negative]
      have above : ¬ v.toInt < 0 := fun below => negative (BitVec.slt_iff_toInt_lt.mpr below)
      have bound := v.isLt
      rw [BitVec.toInt_eq_toNat_cond] at above ⊢
      split at above
      next => omega
      next => omega
  | uint64 v | bigger value negative => rfl

theorem readsAs_readInteger (integer : Integer) :
    (Content.integer integer).ReadsAs (readInteger integer.value integer.negative) := by
  have value := integer.toInt_eq
  have bound := integer.value.isLt
  rw [readInteger]
  split
  next small =>
    rw [Content.ReadsAs, value]
    cases negative : integer.negative with
    | false =>
      rw [negative] at small
      have le := small.resolve_right fun wrong => Bool.false_ne_true wrong.1
      rw [if_neg Bool.false_ne_true, if_neg Bool.false_ne_true, mul_one,
        BitVec.toInt_eq_toNat_cond, BitVec.toNat_setWidth]
      omega
    | true =>
      rw [negative] at small
      have le := small.resolve_left fun wrong => Bool.false_ne_true wrong.1.symm
      rw [if_pos rfl, if_pos rfl, BitVec.toInt_eq_toNat_cond, BitVec.toNat_setWidth,
        BitVec.mul_neg, mul_one, BitVec.toNat_neg]
      omega
  next => exact value.symm

end Integer

def Delimited (text : Text) : Prop := ∃ rest, text = comma :: rest ∨ text = space :: rest

namespace JsonTokenizer

variable (index : Nat) (rest : Text)

theorem token_space : token ⟨index, space :: rest⟩ = token ⟨index + 1, rest⟩ := by
  have same : skipWhitespace ⟨index, space :: rest⟩ = skipWhitespace ⟨index + 1, rest⟩ := by
    rw [skipWhitespace, skipWhitespace, advance, advance]
    change JsonTokenizer.mk (index + ((rest.takeWhile isSpace).length + 1)) _ = _
    rw [Nat.add_right_comm, Nat.add_assoc]
    rfl
  rw [token, token, same]

theorem token_colon : token ⟨index, colon :: rest⟩ = (.colon, ⟨index + 1, rest⟩) := rfl

theorem token_comma : token ⟨index, comma :: rest⟩ = (.comma, ⟨index + 1, rest⟩) := rfl

theorem token_leftBrace :
    token ⟨index, leftBrace :: rest⟩ = (.leftBrace index, ⟨index + 1, rest⟩) := rfl

theorem token_rightBrace :
    token ⟨index, rightBrace :: rest⟩ = (.rightBrace index, ⟨index + 1, rest⟩) := rfl

theorem token_leftBracket :
    token ⟨index, leftBracket :: rest⟩ = (.leftBracket index, ⟨index + 1, rest⟩) := rfl

theorem token_rightBracket :
    token ⟨index, rightBracket :: rest⟩ = (.rightBracket index, ⟨index + 1, rest⟩) := rfl

theorem token_boolean (value : Bool) (delimited : Delimited rest) :
    token ⟨index, (if value = true then [char 't', char 'r', char 'u', char 'e']
        else [char 'f', char 'a', char 'l', char 's', char 'e']) ++ rest⟩ =
      (.boolean value, ⟨index + (if value = true then [char 't', char 'r', char 'u', char 'e']
        else [char 'f', char 'a', char 'l', char 's', char 'e']).length, rest⟩) := by
  obtain ⟨others, rfl | rfl⟩ := delimited
  · cases value <;> rfl
  · cases value <;> rfl

variable {text : Text}

theorem token_closed {length : Nat} (closed : closingQuotes false text = some length) :
    token ⟨index, quotes :: text⟩ =
      (.string (text.take length), ⟨index + (length + 2), text.drop (length + 1)⟩) := by
  change tryCreateStringToken ⟨index, quotes :: text⟩ = _
  simp only [tryCreateStringToken, advance, drop_succ_cons, drop_zero, closed,
    Nat.add_assoc, Nat.add_comm 1]

theorem token_unclosed (unclosed : closingQuotes false text = none) :
    (token ⟨index, quotes :: text⟩).1 = .error := by
  change (tryCreateStringToken ⟨index, quotes :: text⟩).1 = _
  simp only [tryCreateStringToken, advance, drop_succ_cons, drop_zero, unclosed]

theorem token_string (string : rawString (text ++ quotes :: rest) = some text) :
    token ⟨index, quotes :: (text ++ quotes :: rest)⟩ =
      (.string text, ⟨index + (text.length + 2), rest⟩) := by
  obtain ⟨length, closed, same⟩ := Option.map_eq_some_iff.mp string
  have short := length_of_closed false _ length closed
  have whole : length = text.length := by
    have sizes := congrArg List.length same
    rw [length_take] at sizes
    omega
  subst whole
  have ends : (text ++ quotes :: rest).drop (text.length + 1) = rest := by
    rw [← drop_drop, drop_left]
    rfl
  rw [token_closed index closed, take_left, ends]

theorem token_unread {tag : Text} (unread : Unread tag text) :
    (token ⟨index, quotes :: text⟩).1 = .error ∨
      ∃ raw, (token ⟨index, quotes :: text⟩).1 = .string raw ∧ JsonString.decode raw ≠ some tag := by
  cases closed : closingQuotes false text with
  | none => exact Or.inl (token_unclosed index closed)
  | some length =>
    refine Or.inr ⟨text.take length, congrArg Prod.fst (token_closed index closed), unread _ ?_⟩
    rw [rawString, closed]
    rfl

theorem takeWhile_digits {digits : Text} (all : ∀ c ∈ digits, isDigit c = true)
    (delimited : Delimited rest) : (digits ++ rest).takeWhile isDigit = digits := by
  rw [takeWhile_append_of_pos all]
  obtain ⟨others, rfl | rfl⟩ := delimited
  · exact append_nil digits
  · exact append_nil digits

theorem not_mark_of_digit {c : UInt8} : isDigit c = true →
    (isSpace c = false ∧ c ≠ quotes ∧ c ≠ colon ∧ c ≠ comma ∧ c ≠ dot ∧ c ≠ leftBrace ∧
      c ≠ rightBrace ∧ c ≠ leftBracket ∧ c ≠ rightBracket) ∧ c ≠ minus := by
  apply forall_byte (p := fun _ c => isDigit c = true →
    (isSpace c = false ∧ c ≠ quotes ∧ c ≠ colon ∧ c ≠ comma ∧ c ≠ dot ∧ c ≠ leftBrace ∧
      c ≠ rightBrace ∧ c ≠ leftBracket ∧ c ≠ rightBracket) ∧ c ≠ minus) _ true
  decide +kernel

theorem token_of_digit {c : UInt8} (digit : isDigit c = true) (text : Text)
    (starts : text.head? = some c) :
    token ⟨index, text⟩ = tryCreateIntegerOrFloatToken ⟨index, text⟩ := by
  obtain ⟨⟨notSpace, notQuotes, notColon, notComma, notDot, notLeftBrace, notRightBrace,
    notLeftBracket, notRightBracket⟩, -⟩ := not_mark_of_digit digit
  cases text with
  | nil => cases starts
  | cons d rest =>
    obtain rfl := Option.some.inj starts
    have here : skipWhitespace ⟨index, d :: rest⟩ = ⟨index, d :: rest⟩ := by
      rw [skipWhitespace, takeWhile_cons_of_neg (Bool.eq_false_iff.mp notSpace)]
      rfl
    rw [token, here]
    simp only [if_neg notQuotes, if_neg notColon, if_neg notComma, if_neg notDot,
      if_neg notLeftBrace, if_neg notRightBrace, if_neg notLeftBracket, if_neg notRightBracket,
      if_pos (Or.inl digit : isDigit d = true ∨ d = minus)]

theorem token_digits (negative : Bool) {digits : Text} (all : ∀ c ∈ digits, isDigit c = true)
    (nonempty : digits ≠ []) (ends : (digits ++ rest).takeWhile isDigit = digits)
    (notDot : rest.head? ≠ some dot) :
    token ⟨index, (if negative = true then [minus] else []) ++ digits ++ rest⟩ =
      (.biggerInt (toInt 64 digits) negative,
        ⟨index + ((if negative = true then [minus] else []) ++ digits).length, rest⟩) := by
  cases negative with
  | true =>
    change tryCreateIntegerOrFloatToken ⟨index, minus :: (digits ++ rest)⟩ = _
    have signed : decide ((minus :: (digits ++ rest)).head? = some minus) = true := rfl
    rw [tryCreateIntegerOrFloatToken]
    simp only [signed, if_pos, advance, drop_succ_cons, drop_zero, ends, drop_left,
      if_neg notDot, Nat.add_assoc, Nat.add_comm 1, length_append, length_singleton]
  | false =>
    obtain ⟨c, others, shape⟩ := exists_cons_of_ne_nil nonempty
    have digit : isDigit c = true := all c (shape ▸ mem_cons_self)
    have head : (digits ++ rest).head? = some c := by
      rw [shape]
      rfl
    have unsigned : decide ((digits ++ rest).head? = some minus) = false := by
      rw [head]
      exact decide_eq_false fun same => (not_mark_of_digit digit).2 (Option.some.inj same)
    rw [if_neg Bool.false_ne_true, nil_append, token_of_digit index digit _ head,
      tryCreateIntegerOrFloatToken]
    simp only [unsigned, if_neg Bool.false_ne_true, advance, drop_zero, ends, drop_left,
      if_neg notDot, Nat.add_zero]

theorem token_integer (integer : Integer) (delimited : Delimited rest) :
    token ⟨index, integer.output ++ rest⟩ =
      (.biggerInt integer.value integer.negative, ⟨index + integer.output.length, rest⟩) := by
  obtain ⟨all, nonempty, value⟩ := outputDigits_spec integer.value
  have notDot : rest.head? ≠ some dot := by
    obtain ⟨others, rfl | rfl⟩ := delimited
    · exact fun same => absurd (Option.some.inj same) (by decide)
    · exact fun same => absurd (Option.some.inj same) (by decide)
  rw [Integer.output, outputAsDecimal,
    token_digits index rest integer.negative all nonempty (takeWhile_digits rest all delimited) notDot,
    value]

end JsonTokenizer

end Json
