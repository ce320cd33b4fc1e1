import EmbeddedInfra.Json.Grammar
import EmbeddedInfra.Json.StreamingTokenizer
import Mathlib.Tactic.FinCases

/-! The tokens that a streaming parser finds in JSON of the standard. -/

namespace Json.Streaming

open Grammar List Character
open Option (getD_none getD_some map_none map_some)

variable {maxValueLength : Nat} {saveValue : Bool} {tokenizer : Tokenizer}

/-- A tokenizer between two tokens. -/
structure Tokenizer.Ready (tokenizer : Tokenizer) : Prop where
  state : tokenizer.tokenState = .open
  value : tokenizer.valueBuffer = []
  index : tokenizer.unicodeIndex = 0
  unicode : tokenizer.unicode = 0

variable {c : UInt8} {characters rest : Text}

theorem feedToken_taken (taken : (tokenizer.step maxValueLength saveValue c).2 = true)
    (rest : Text) :
    FeedToken maxValueLength saveValue tokenizer (c :: rest) =
      FeedToken maxValueLength saveValue (tokenizer.step maxValueLength saveValue c).1 rest := by
  rw [feedToken_cons, if_pos taken]

theorem feedToken_kept (kept : (tokenizer.step maxValueLength saveValue c).2 = false)
    (rest : Text) :
    FeedToken maxValueLength saveValue tokenizer (c :: rest) =
      ((tokenizer.step maxValueLength saveValue c).1, c :: rest) := by
  rw [feedToken_cons, if_neg (by simp [kept])]

theorem isSpace_character (blank : Space) : isSpace blank.character = true := by
  cases blank <;> rfl

theorem feedToken_spacing (open_ : tokenizer.tokenState = .open) (spaces : List Space) (rest : Text) :
    FeedToken maxValueLength saveValue tokenizer (spaces.map Space.character ++ rest) =
      FeedToken maxValueLength saveValue tokenizer rest := by
  induction spaces with
  | nil => rfl
  | cons blank spaces ih =>
    rw [map_cons, cons_append, feedToken_cons]
    simp only [Tokenizer.step, open_, isSpace_character, if_true]
    exact ih

/-- A tokenizer that has found a token. -/
structure Tokenizer.Found (tokenizer : Tokenizer) (token : Token) (value : Text) : Prop where
  state : tokenizer.tokenState = .done
  token : tokenizer.token = token
  value : tokenizer.valueBuffer = value
  index : tokenizer.unicodeIndex = 0
  unicode : tokenizer.unicode = 0

/-! ### Strings -/

/-- Whether a string meets no unicode value once the value buffer is full. -/
def stringFits (maxValueLength : Nat) (characters : List Character) : Prop :=
  ∀ character ∈ characters.drop maxValueLength, character.isUnicode = false

instance (characters : List Character) : Decidable (stringFits maxValueLength characters) :=
  inferInstanceAs (Decidable (∀ _ ∈ _, _))

structure Tokenizer.InString (maxValueLength : Nat) (tokenizer : Tokenizer) (characters : Text) :
    Prop where
  state : tokenizer.tokenState =
    if characters.length ≤ maxValueLength then .stringOpen else .stringOverflowOpen
  value : tokenizer.valueBuffer = characters.take maxValueLength
  index : tokenizer.unicodeIndex = 0
  unicode : tokenizer.unicode = 0

/-- A tokenizer in a string that is skipped. -/
structure Tokenizer.InSkippedString (tokenizer : Tokenizer) : Prop where
  state : tokenizer.tokenState = .stringOpen
  value : tokenizer.valueBuffer = []
  index : tokenizer.unicodeIndex = 0
  unicode : tokenizer.unicode = 0

theorem inString_added (inside : tokenizer.InString maxValueLength characters) (state : TokenState)
    (c : UInt8) (open_ : characters.length < maxValueLength → state = .stringOpen) :
    ({ tokenizer with tokenState := state }.AddToValueBuffer maxValueLength true c true).InString
      maxValueLength (characters ++ [c]) := by
  have length : tokenizer.valueBuffer.length = min maxValueLength characters.length := by
    rw [inside.value, length_take]
  simp only [Tokenizer.AddToValueBuffer, Tokenizer.full, decide_eq_true_eq]
  by_cases room : characters.length < maxValueLength
  · rw [if_neg (by omega)]
    constructor
    · simp only [if_true, length_append, length_cons, length_nil]
      rw [if_pos (by omega)]
      exact open_ room
    · simp only [if_true, inside.value]
      rw [take_of_length_le (by omega), take_of_length_le (by simp; omega)]
    · exact inside.index
    · exact inside.unicode
  · rw [if_pos (by omega)]
    constructor
    · simp only [if_true, length_append, length_cons, length_nil]
      rw [if_neg (by omega)]
    · simp only [if_true, inside.value]
      rw [take_append_of_le_length (by omega)]
    · exact inside.index
    · exact inside.unicode

theorem processEscapedData_escape (escape : Escape) (tokenizer : Tokenizer) :
    tokenizer.ProcessEscapedData maxValueLength saveValue escape.character =
      tokenizer.AddToValueBuffer maxValueLength saveValue escape.value true := by
  cases escape <;> rfl

theorem processEscapedData_unicode (tokenizer : Tokenizer) :
    tokenizer.ProcessEscapedData maxValueLength saveValue (char 'u') =
      { tokenizer with tokenState := .unicodeValueOpen } := rfl

theorem feedToken_hexDigits (maxValueLength : Nat) (saveValue : Bool) (tokenizer : Tokenizer)
    (digits : List HexDigit) (index : Nat) (code : BitVec 16) (rest : Text)
    (few : index + digits.length < 4) :
    FeedToken maxValueLength saveValue
        { tokenizer with tokenState := .unicodeValueOpen, unicodeIndex := index, unicode := code }
        (digits.map HexDigit.character ++ rest) =
      FeedToken maxValueLength saveValue
        { tokenizer with
          tokenState := .unicodeValueOpen
          unicodeIndex := index + digits.length
          unicode := digits.foldl (fun code digit => code * 16 + BitVec.ofNat 16 digit.value.toNat) code }
        rest := by
  induction digits generalizing index code with
  | nil => rfl
  | cons digit digits ih =>
    rw [length_cons] at few
    rw [map_cons, cons_append, feedToken_cons]
    simp only [Tokenizer.step, Tokenizer.unicodeCharacter, digit.isDigit, if_true]
    rw [if_neg (by omega), ih _ _ (by omega)]
    simp only [length_cons, foldl_cons, Nat.add_assoc, Nat.add_comm 1]

theorem unicodeCharacter_fourth (tokenizer : Tokenizer) (digit : HexDigit) (code : BitVec 16) :
    { tokenizer with
        tokenState := .unicodeValueOpen
        unicodeIndex := 3
        unicode := code }.unicodeCharacter maxValueLength saveValue digit.character =
      if tokenizer.full maxValueLength then
        { tokenizer with tokenState := .done, token := .error, unicodeIndex := 0, unicode := 0 }
      else
        { tokenizer with tokenState := .stringOpen, unicodeIndex := 0, unicode := 0 }.AddToValueBuffer
          maxValueLength saveValue
          (UInt8.ofNat (code * 16 + BitVec.ofNat 16 digit.value.toNat).toNat) true := by
  simp only [Tokenizer.unicodeCharacter, digit.isDigit, if_true, Tokenizer.AddToValueBuffer,
    Tokenizer.full, Tokenizer.FoundToken]
  split
  · rfl
  · cases saveValue <;> rfl

theorem feedToken_unicode (maxValueLength : Nat) (saveValue : Bool) (tokenizer : Tokenizer)
    (first second third fourth : HexDigit) (rest : Text) :
    FeedToken maxValueLength saveValue
        { tokenizer with tokenState := .stringOpenAndEscaped, unicodeIndex := 0, unicode := 0 }
        (char 'u' :: first.character :: second.character :: third.character :: fourth.character :: rest) =
      FeedToken maxValueLength saveValue
        (if tokenizer.full maxValueLength then
          { tokenizer with tokenState := .done, token := .error, unicodeIndex := 0, unicode := 0 }
        else
          { tokenizer with tokenState := .stringOpen, unicodeIndex := 0, unicode := 0 }.AddToValueBuffer
            maxValueLength saveValue (Character.unicode first second third fourth).value true) rest := by
  have three := feedToken_hexDigits maxValueLength saveValue tokenizer
    [first, second, third] 0 0 (fourth.character :: rest) (show 3 < 4 by decide)
  rw [feedToken_cons]
  simp only [Tokenizer.step, processEscapedData_unicode, if_true]
  refine three.trans ?_
  rw [feedToken_cons]
  simp only [Tokenizer.step, if_true]
  congr 1
  exact unicodeCharacter_fourth ..

theorem feedToken_escaped (open_ : tokenizer.tokenState = .stringOpenAndEscaped) (rest : Text) :
    FeedToken maxValueLength saveValue tokenizer (c :: rest) =
      FeedToken maxValueLength saveValue
        ({ tokenizer with tokenState := .stringOpen }.ProcessEscapedData maxValueLength saveValue c) rest := by
  rw [feedToken_cons]
  simp only [Tokenizer.step, open_, if_true]

theorem feedToken_stringCharacter
    (open_ : tokenizer.tokenState = .stringOpen ∨ tokenizer.tokenState = .stringOverflowOpen)
    (rest : Text) :
    FeedToken maxValueLength saveValue tokenizer (c :: rest) =
      FeedToken maxValueLength saveValue
        (tokenizer.stringCharacter maxValueLength saveValue c) rest := by
  rw [feedToken_cons]
  rcases open_ with open_ | open_ <;> simp only [Tokenizer.step, open_, if_true]

theorem inString_open (inside : tokenizer.InString maxValueLength characters) :
    tokenizer.tokenState = .stringOpen ∨ tokenizer.tokenState = .stringOverflowOpen := by
  rw [inside.state]
  split
  · exact .inl rfl
  · exact .inr rfl

theorem inString_character (inside : tokenizer.InString maxValueLength characters)
    (character : Character)
    (fits : character.isUnicode = true → characters.length < maxValueLength) :
    ∃ next : Tokenizer, next.InString maxValueLength (characters ++ [character.value]) ∧
      ∀ rest, FeedToken maxValueLength true tokenizer (character.text ++ rest) =
        FeedToken maxValueLength true next rest := by
  have open_ := inString_open inside
  have escaped : tokenizer.stringCharacter maxValueLength true backslash =
      { tokenizer with tokenState := .stringOpenAndEscaped } := rfl
  cases character with
  | unescaped c permitted =>
    refine ⟨_, inString_added inside tokenizer.tokenState c fun room => ?_, fun rest => ?_⟩
    · rw [inside.state, if_pos room.le]
    · rw [text, singleton_append, feedToken_stringCharacter open_,
        Tokenizer.stringCharacter, if_neg permitted.2.2, if_neg permitted.2.1]
  | escaped escape =>
    refine ⟨_, inString_added inside .stringOpen escape.value fun _ => rfl, fun rest => ?_⟩
    rw [text, cons_append, feedToken_stringCharacter open_, escaped,
      singleton_append, feedToken_escaped rfl, processEscapedData_escape]
  | unicode first second third fourth =>
    have room := fits rfl
    refine ⟨_, inString_added inside .stringOpen
      (Character.unicode first second third fourth).value fun _ => rfl, fun rest => ?_⟩
    have unfilled : tokenizer.full maxValueLength = false := by
      simp only [Tokenizer.full, inside.value, decide_eq_false_iff_not, length_take]
      omega
    have fed := feedToken_unicode maxValueLength true tokenizer
      first second third fourth rest
    rw [unfilled, ← inside.index, ← inside.unicode] at fed
    simp only [text, cons_append, nil_append]
    rw [feedToken_stringCharacter open_, escaped]
    exact fed

theorem inString_broken (inside : tokenizer.InString maxValueLength characters)
    {character : Character} (isUnicode : character.isUnicode = true)
    (full : maxValueLength ≤ characters.length) :
    ∃ (last : Tokenizer) (value : Text), last.Found .error value ∧
      ∀ rest, FeedToken maxValueLength true tokenizer (character.text ++ rest) = (last, rest) := by
  have open_ := inString_open inside
  have filled : tokenizer.full maxValueLength = true := by
    simp only [Tokenizer.full, inside.value, decide_eq_true_eq, length_take]
    omega
  cases character with
  | unescaped | escaped => cases isUnicode
  | unicode first second third fourth =>
    refine ⟨{ tokenizer with tokenState := .done, token := .error, unicodeIndex := 0, unicode := 0 },
      tokenizer.valueBuffer, ⟨rfl, rfl, rfl, rfl, rfl⟩, fun rest => ?_⟩
    have fed := feedToken_unicode maxValueLength true tokenizer
      first second third fourth rest
    rw [filled, if_pos rfl] at fed
    have fed := fed.trans (feedToken_done rfl rest)
    simp only [text, cons_append, nil_append]
    rw [feedToken_stringCharacter open_, ← fed]
    congr 1
    rw [← inside.index, ← inside.unicode]
    rfl

theorem inString_rest {read : Text} (inside : tokenizer.InString maxValueLength read)
    (characters : List Character) :
    (stringFits (maxValueLength - read.length) characters →
      ∃ next : Tokenizer, next.InString maxValueLength (read ++ characters.map value) ∧
        ∀ rest, FeedToken maxValueLength true tokenizer (characters.flatMap text ++ rest) =
          FeedToken maxValueLength true next rest) ∧
    (¬ stringFits (maxValueLength - read.length) characters →
      ∃ (last : Tokenizer) (value : Text), last.Found .error value ∧ ∀ rest, ∃ left,
        FeedToken maxValueLength true tokenizer (characters.flatMap text ++ rest) =
          (last, left)) := by
  induction characters generalizing tokenizer read with
  | nil =>
    refine ⟨fun _ => ⟨tokenizer, ?_, fun rest => rfl⟩, fun broken => absurd ?_ broken⟩
    · rw [map_nil, append_nil]
      exact inside
    · intro character member
      simp at member
  | cons character characters ih =>
    have length : (read ++ [character.value]).length = read.length + 1 := by simp
    have others (fits : character.isUnicode = true → read.length < maxValueLength) :
        stringFits (maxValueLength - read.length) (character :: characters) ↔
          stringFits (maxValueLength - (read ++ [character.value]).length) characters := by
      rw [length]
      by_cases room : read.length < maxValueLength
      · obtain ⟨more, left⟩ : ∃ more, maxValueLength - read.length = more + 1 :=
          ⟨maxValueLength - read.length - 1, by omega⟩
        rw [Nat.sub_add_eq, left, stringFits, drop_succ_cons]
        rfl
      · have plain : character.isUnicode = false := by simpa [room] using fits
        rw [Nat.sub_add_eq, Nat.sub_eq_zero_of_le (by omega)]
        simp [stringFits, plain]
    simp only [flatMap_cons, append_assoc]
    by_cases fits : character.isUnicode = true → read.length < maxValueLength
    · obtain ⟨next, inside', fed⟩ := inString_character inside character fits
      obtain ⟨whole, broken⟩ := ih inside'
      rw [others fits]
      constructor
      · intro fit
        obtain ⟨last, inside'', fed'⟩ := whole fit
        refine ⟨last, ?_, fun rest => (fed _).trans (fed' rest)⟩
        rw [append_assoc] at inside''
        exact inside''
      · intro unfit
        obtain ⟨last, value, found, fed'⟩ := broken unfit
        refine ⟨last, value, found, fun rest => ?_⟩
        obtain ⟨left, fed'⟩ := fed' rest
        exact ⟨left, (fed _).trans fed'⟩
    · rw [Classical.not_imp, not_lt] at fits
      obtain ⟨isUnicode, full⟩ := fits
      constructor
      · intro fit
        rw [Nat.sub_eq_zero_of_le full] at fit
        have plain := fit character (by simp)
        rw [isUnicode] at plain
        cases plain
      · intro _
        obtain ⟨last, value, found, fed⟩ := inString_broken inside isUnicode full
        exact ⟨last, value, found, fun rest => ⟨_, fed _⟩⟩

def stringValue (characters : List Character) : Text := characters.map Character.value

def stringToken (maxValueLength : Nat) (characters : List Character) : Token :=
  if characters.length ≤ maxValueLength then .string else .stringOverflow

theorem ready_quotes (maxValueLength : Nat) (saveValue : Bool) (ready : tokenizer.Ready) (rest : Text) :
    ∃ opened : Tokenizer, opened.InString maxValueLength [] ∧
      FeedToken maxValueLength saveValue tokenizer (quotes :: rest) =
        FeedToken maxValueLength saveValue opened rest := by
  refine ⟨{ tokenizer with tokenState := .stringOpen }, ⟨rfl, ?_, ready.index, ready.unicode⟩, ?_⟩
  · rw [take_nil]
    exact ready.value
  · rw [feedToken_cons]
    simp only [Tokenizer.step, ready.state, if_true]
    rfl

theorem inString_quotes (saveValue : Bool) (inside : tokenizer.InString maxValueLength characters)
    (rest : Text) :
    ∃ last : Tokenizer,
      last.Found (if characters.length ≤ maxValueLength then .string else .stringOverflow)
        (characters.take maxValueLength) ∧
      FeedToken maxValueLength saveValue tokenizer (quotes :: rest) = (last, rest) := by
  have open_ := inString_open inside
  have closed : tokenizer.stringCharacter maxValueLength saveValue quotes =
      tokenizer.FoundToken (if tokenizer.tokenState = .stringOpen then .string else .stringOverflow) :=
    rfl
  rw [feedToken_stringCharacter open_, closed, feedToken_done rfl]
  refine ⟨tokenizer.FoundToken _, ⟨rfl, ?_, inside.value, inside.index, inside.unicode⟩, rfl⟩
  simp only [Tokenizer.FoundToken, inside.state]
  split <;> rfl

theorem feedToken_string_fits (ready : tokenizer.Ready) {characters : List Character}
    (fits : stringFits maxValueLength characters) (rest : Text) :
    ∃ last : Tokenizer,
      last.Found (stringToken maxValueLength characters)
        ((stringValue characters).take maxValueLength) ∧
      FeedToken maxValueLength true tokenizer ((Lexeme.string characters).text ++ rest) =
        (last, rest) := by
  simp only [Lexeme.text, cons_append, append_assoc, nil_append]
  obtain ⟨opened, inside, fed⟩ := ready_quotes maxValueLength true ready (characters.flatMap text ++ quotes :: rest)
  obtain ⟨next, inside', fed'⟩ := (inString_rest inside characters).1 fits
  obtain ⟨last, found, fed''⟩ := inString_quotes true inside' rest
  refine ⟨last, ?_, fed.trans ((fed' _).trans fed'')⟩
  simpa [stringToken, stringValue] using found

theorem feedToken_string_broken (ready : tokenizer.Ready) {characters : List Character}
    (broken : ¬ stringFits maxValueLength characters) (rest : Text) :
    ∃ (last : Tokenizer) (value left : Text), last.Found .error value ∧
      FeedToken maxValueLength true tokenizer ((Lexeme.string characters).text ++ rest) =
        (last, left) := by
  simp only [Lexeme.text, cons_append, append_assoc, nil_append]
  obtain ⟨opened, inside, fed⟩ := ready_quotes maxValueLength true ready (characters.flatMap text ++ quotes :: rest)
  obtain ⟨last, value, found, fed'⟩ := (inString_rest inside characters).2 broken
  obtain ⟨left, fed'⟩ := fed' (quotes :: rest)
  exact ⟨last, value, left, found, fed.trans fed'⟩

theorem inSkippedString_character (inside : tokenizer.InSkippedString) (room : 0 < maxValueLength)
    (character : Character) (rest : Text) :
    FeedToken maxValueLength false tokenizer (character.text ++ rest) =
      FeedToken maxValueLength false tokenizer rest := by
  have unfilled : tokenizer.full maxValueLength = false := by
    simp only [Tokenizer.full, inside.value, decide_eq_false_iff_not, length_nil]
    omega
  have unchanged : { tokenizer with tokenState := .stringOpen } = tokenizer := by
    rw [← inside.state]
  have skipped (c : UInt8) : tokenizer.AddToValueBuffer maxValueLength false c true = tokenizer := by
    simp [Tokenizer.AddToValueBuffer, unfilled]
  have escaped : tokenizer.stringCharacter maxValueLength false backslash =
      { tokenizer with tokenState := .stringOpenAndEscaped } := rfl
  cases character with
  | unescaped c permitted =>
    rw [text, singleton_append, feedToken_stringCharacter (.inl inside.state),
      Tokenizer.stringCharacter, if_neg permitted.2.2, if_neg permitted.2.1, skipped]
  | escaped escape =>
    rw [text, cons_append, feedToken_stringCharacter (.inl inside.state), escaped,
      singleton_append, feedToken_escaped rfl, processEscapedData_escape, unchanged, skipped]
  | unicode first second third fourth =>
    have fed := feedToken_unicode maxValueLength false tokenizer
      first second third fourth rest
    rw [unfilled, ← inside.index, ← inside.unicode, if_neg (by simp)] at fed
    simp only [text, cons_append, nil_append]
    rw [feedToken_stringCharacter (.inl inside.state), escaped]
    refine fed.trans ?_
    rw [unchanged, skipped]

theorem feedToken_string_skipped (ready : tokenizer.Ready) (room : 0 < maxValueLength)
    (characters : List Character) (rest : Text) :
    ∃ last : Tokenizer, last.Found .string [] ∧
      FeedToken maxValueLength false tokenizer ((Lexeme.string characters).text ++ rest) =
        (last, rest) := by
  simp only [Lexeme.text, cons_append, append_assoc, nil_append]
  obtain ⟨opened, inside, fed⟩ := ready_quotes maxValueLength false ready (characters.flatMap text ++ quotes :: rest)
  rw [fed]
  have skipped : opened.InSkippedString := ⟨inside.state, by simpa using inside.value, inside.index, inside.unicode⟩
  obtain ⟨last, found, closed⟩ := inString_quotes false inside rest
  refine ⟨last, by simpa using found, ?_⟩
  rw [← closed]
  clear fed inside found closed
  induction characters with
  | nil => rfl
  | cons character characters ih =>
    rw [flatMap_cons, append_assoc, inSkippedString_character skipped room]
    exact ih

/-! ### Numbers -/

/-- A character that ends numbers and identifiers. -/
structure Delimits (c : UInt8) : Prop where
  digit : isDigit c = false
  alpha : isAlpha c = false
  dot : c ≠ dot
  plus : c ≠ char '+'
  minus : c ≠ minus

def Delimited (rest : Text) : Prop := ∃ c left, rest = c :: left ∧ Delimits c

theorem Delimits.exponent (delimits : Delimits c) : ¬ (c = char 'e' ∨ c = char 'E') := by
  have alpha := delimits.alpha
  rintro (rfl | rfl) <;> exact absurd alpha (by decide)

theorem toNat_digit (value : Digit) : (digit value).toNat = 48 + value.val := by
  fin_cases value <;> rfl

theorem isDigit_digit (value : Digit) : isDigit (digit value) = true := by
  fin_cases value <;> rfl

theorem isAlpha_digit (value : Digit) : isAlpha (digit value) = false := by
  fin_cases value <;> rfl

def wholeNumber (number : BitVec 64) (digits : List Digit) : BitVec 64 :=
  digits.foldl (fun number digit => number * 10 + BitVec.ofNat 64 digit.val) number

theorem feedToken_whole (tokenizer : Tokenizer) (number : BitVec 64) (digits : List Digit)
    (rest : Text) :
    FeedToken maxValueLength saveValue { tokenizer with tokenState := .numberOpen, tokenNumber := number }
        (digits.map digit ++ rest) =
      FeedToken maxValueLength saveValue
        { tokenizer with tokenState := .numberOpen, tokenNumber := wholeNumber number digits } rest := by
  induction digits generalizing number with
  | nil => rfl
  | cons first digits ih =>
    rw [map_cons, cons_append, feedToken_cons]
    simp only [Tokenizer.step, isDigit_digit, if_true, toNat_digit, Nat.add_sub_cancel_left, ih]
    rfl

theorem feedToken_fractional (open_ : tokenizer.tokenState = .numberFractionalOpen)
    (digits : List Digit) (rest : Text) :
    FeedToken maxValueLength saveValue tokenizer (digits.map digit ++ rest) =
      FeedToken maxValueLength saveValue tokenizer rest := by
  induction digits with
  | nil => rfl
  | cons first digits ih =>
    rw [map_cons, cons_append, feedToken_cons]
    simp only [Tokenizer.step, open_, isDigit_digit, if_true, ih]

theorem feedToken_exponential (open_ : tokenizer.tokenState = .numberExponentOpen) (text : Text)
    (all : ∀ c ∈ text, isDigit c = true ∨ c = char '+' ∨ c = minus) (rest : Text) :
    FeedToken maxValueLength saveValue tokenizer (text ++ rest) =
      FeedToken maxValueLength saveValue tokenizer rest := by
  induction text with
  | nil => rfl
  | cons c text ih =>
    rw [cons_append, feedToken_cons]
    have takes := all c (by simp)
    simp only [Tokenizer.step, open_, takes, if_true]
    exact ih fun c member => all c (mem_cons_of_mem _ member)

theorem feedToken_begin (ready : tokenizer.Ready) (negative : Bool) (whole : Whole) (rest : Text) :
    FeedToken maxValueLength saveValue tokenizer
        ((if negative then [minus] else []) ++ (whole.digits.map digit ++ rest)) =
      FeedToken maxValueLength saveValue
        { tokenizer with
          tokenState := .numberOpen
          tokenSign := if negative then -1 else 1
          tokenNumber := wholeNumber 0 whole.digits } rest := by
  obtain ⟨first, others, digits⟩ : ∃ first others, whole.digits = first :: others := by
    cases whole <;> exact ⟨_, _, rfl⟩
  cases negative with
  | true =>
    rw [if_pos rfl, singleton_append, feedToken_cons]
    simp only [Tokenizer.step, ready.state, if_true]
    exact feedToken_whole { tokenizer with tokenSign := -1 } 0 whole.digits rest
  | false =>
    have begun : tokenizer.beginToken maxValueLength (digit first) =
        { tokenizer with
          tokenState := .numberOpen
          tokenNumber := BitVec.ofNat 64 first.val
          tokenSign := 1 } := by
      fin_cases first <;> rfl
    have blank : isSpace (digit first) = false := by fin_cases first <;> rfl
    rw [digits, if_neg (by simp), nil_append, map_cons, cons_append, feedToken_cons]
    simp only [Tokenizer.step, ready.state, if_true, begun, blank, Bool.false_eq_true, if_false]
    refine (feedToken_whole { tokenizer with tokenSign := 1 } _ others rest).trans ?_
    simp [wholeNumber]

def Tokenizer.foundNumber (tokenizer : Tokenizer) (number : Number) : Tokenizer :=
  { tokenizer with
    tokenState := .done
    token := .number
    tokenSign := if number.negative then -1 else 1
    tokenNumber := wholeNumber 0 number.whole.digits }

theorem foundNumber_found (ready : tokenizer.Ready) (number : Number) :
    (tokenizer.foundNumber number).Found .number [] :=
  ⟨rfl, rfl, ready.value, ready.index, ready.unicode⟩

theorem wholeNumber_ofNat (digits : List Digit) (number : Nat) :
    wholeNumber (BitVec.ofNat 64 number) digits =
      BitVec.ofNat 64 (digits.foldl (fun whole digit => whole * 10 + digit.val) number) := by
  induction digits generalizing number with
  | nil => rfl
  | cons first digits ih =>
    rw [foldl_cons, ← ih, wholeNumber, foldl_cons, ← wholeNumber]
    congr 1
    apply BitVec.eq_of_toNat_eq
    simp

theorem foundNumber_value (tokenizer : Tokenizer) (number : Number) :
    (tokenizer.foundNumber number).tokenSign * (tokenizer.foundNumber number).tokenNumber =
      BitVec.ofInt 64 number.value := by
  have whole := wholeNumber_ofNat number.whole.digits 0
  simp only [Tokenizer.foundNumber, Number.value]
  have one : (1 : BitVec 64) = 1#64 := rfl
  rw [show (0 : BitVec 64) = BitVec.ofNat 64 0 from rfl, whole]
  cases number.negative with
  | true =>
    simp only [if_true]
    rw [BitVec.neg_mul, one, BitVec.one_mul, BitVec.ofInt_neg, BitVec.ofInt_natCast]
  | false =>
    simp only [Bool.false_eq_true, if_false]
    rw [one, BitVec.one_mul, BitVec.ofInt_natCast]

theorem exponent_digits (exponent : Exponent) :
    ∃ c text, exponent.text = c :: text ∧ (c = char 'e' ∨ c = char 'E') ∧
      (∀ c ∈ text, isDigit c = true ∨ c = char '+' ∨ c = minus) := by
  refine ⟨_, _, rfl, ?_, ?_⟩
  · cases exponent.capital
    · exact .inl rfl
    · exact .inr rfl
  · intro c member
    rw [mem_append, mem_cons, mem_map] at member
    rcases member with sign | rfl | ⟨other, -, rfl⟩
    · cases signed : exponent.sign with
      | none => simp [signed] at sign
      | some plusOrMinus =>
        rw [signed, map_some, Option.toList_some, mem_singleton] at sign
        cases plusOrMinus
        · exact .inr (.inl sign)
        · exact .inr (.inr sign)
    · exact .inl (isDigit_digit _)
    · exact .inl (isDigit_digit _)

theorem feedToken_fraction (open_ : tokenizer.tokenState = .numberOpen) (fraction : Fraction)
    (exponent : Option Exponent) (delimited : Delimited rest) :
    FeedToken maxValueLength saveValue tokenizer
        (fraction.text ++ ((exponent.map Exponent.text).getD [] ++ rest)) =
      (tokenizer.FoundToken .number, rest) := by
  obtain ⟨c, left, rfl, delimits⟩ := delimited
  have dotStep : FeedToken maxValueLength saveValue tokenizer
      (fraction.text ++ ((exponent.map Exponent.text).getD [] ++ c :: left)) =
        FeedToken maxValueLength saveValue { tokenizer with tokenState := .numberFractionalOpen }
          ((exponent.map Exponent.text).getD [] ++ c :: left) := by
    rw [Fraction.text, cons_append, feedToken_cons]
    simp only [Tokenizer.step, open_]
    exact feedToken_fractional rfl (fraction.first :: fraction.others) _
  rw [dotStep]
  cases exponent with
  | none =>
    have kept : ¬ (c = char 'e' ∨ c = char 'E') := delimits.exponent
    simp only [map_none, getD_none, nil_append]
    rw [feedToken_cons]
    simp only [Tokenizer.step, delimits.digit, kept, Bool.false_eq_true, if_false]
    rfl
  | some exponent =>
    obtain ⟨e, text, exponential, capital, all⟩ := exponent_digits exponent
    have undigit : isDigit e = false := by rcases capital with rfl | rfl <;> rfl
    simp only [map_some, getD_some, exponential, cons_append]
    rw [feedToken_cons]
    simp only [Tokenizer.step, undigit, capital, Bool.false_eq_true, if_false, if_true]
    rw [feedToken_exponential rfl text all, feedToken_cons]
    have kept : ¬ (isDigit c = true ∨ c = char '+' ∨ c = minus) := by
      rintro (isDigit | plus | minus)
      · simp [delimits.digit] at isDigit
      · exact delimits.plus plus
      · exact delimits.minus minus
    simp only [Tokenizer.step, kept, if_false]
    rfl

theorem feedToken_number (ready : tokenizer.Ready) {number : Number}
    (covered : number.bareExponent = false) (delimited : Delimited rest) :
    FeedToken maxValueLength saveValue tokenizer (number.text ++ rest) =
      (tokenizer.foundNumber number, rest) := by
  simp only [Number.text, append_assoc]
  rw [feedToken_begin ready]
  cases fractional : number.fraction with
  | some fraction =>
    simp only [map_some, getD_some]
    refine (feedToken_fraction ?_ fraction number.exponent delimited).trans ?_
    · rfl
    · rfl
  | none =>
    have whole : number.exponent = none := by
      simpa [Number.bareExponent, fractional] using covered
    obtain ⟨c, left, rfl, delimits⟩ := delimited
    simp only [whole, map_none, getD_none, nil_append]
    rw [feedToken_cons]
    simp only [Tokenizer.step, delimits.digit, delimits.dot, Bool.false_eq_true, if_false]
    rfl

theorem feedToken_bare (ready : tokenizer.Ready) {number : Number} {exponent : Exponent}
    (fraction : number.fraction = none) (bare : number.exponent = some exponent) (rest : Text) :
    FeedToken maxValueLength saveValue tokenizer (number.text ++ rest) =
      (tokenizer.foundNumber number, exponent.text ++ rest) := by
  obtain ⟨e, text, exponential, capital, all⟩ := exponent_digits exponent
  have undigit : isDigit e = false := by rcases capital with rfl | rfl <;> rfl
  have undotted : e ≠ dot := by rcases capital with rfl | rfl <;> decide
  simp only [Number.text, append_assoc]
  rw [feedToken_begin ready]
  simp only [fraction, bare, map_none, map_some, getD_none, getD_some,
    nil_append, exponential, cons_append]
  rw [feedToken_cons]
  simp only [Tokenizer.step, undigit, undotted, Bool.false_eq_true, if_false]
  rfl

/-! ### Identifiers -/

theorem feedToken_letters (tokenizer : Tokenizer) (letters : Text) (read rest : Text)
    (alpha : ∀ c ∈ letters, isAlpha c = true) (room : read.length + letters.length ≤ maxValueLength) :
    FeedToken maxValueLength true { tokenizer with tokenState := .identifierOpen, valueBuffer := read }
        (letters ++ rest) =
      FeedToken maxValueLength true
        { tokenizer with tokenState := .identifierOpen, valueBuffer := read ++ letters } rest := by
  induction letters generalizing read with
  | nil => rw [nil_append, append_nil]
  | cons c letters ih =>
    rw [length_cons] at room
    have unfilled : ¬ maxValueLength ≤ read.length := by omega
    rw [cons_append, feedToken_cons]
    simp only [Tokenizer.step, alpha c (by simp), if_true, Tokenizer.AddToValueBuffer, Tokenizer.full,
      decide_eq_true_eq, unfilled, if_false]
    rw [ih _ (fun c member => alpha c (mem_cons_of_mem _ member)) (by simp; omega)]
    simp

theorem feedToken_letters_full (tokenizer : Tokenizer) (letters : Text) (read rest : Text)
    (alpha : ∀ c ∈ letters, isAlpha c = true) (fits : read.length ≤ maxValueLength)
    (full : maxValueLength < read.length + letters.length) :
    ∃ (last : Tokenizer) (left : Text), last.tokenState = .done ∧ last.token = .error ∧
      last.unicodeIndex = tokenizer.unicodeIndex ∧ last.unicode = tokenizer.unicode ∧
      FeedToken maxValueLength true
        { tokenizer with tokenState := .identifierOpen, valueBuffer := read } (letters ++ rest) =
          (last, left) := by
  induction letters generalizing read with
  | nil => simp at full; omega
  | cons c letters ih =>
    rw [length_cons] at full
    rw [cons_append, feedToken_cons]
    by_cases filled : maxValueLength ≤ read.length
    · simp only [Tokenizer.step, alpha c (by simp), if_true, Tokenizer.AddToValueBuffer,
        Tokenizer.full, decide_eq_true_eq, filled, Bool.false_eq_true, if_false]
      rw [feedToken_done rfl]
      refine ⟨_, letters ++ rest, ?_, ?_, ?_, ?_, rfl⟩ <;> rfl
    · simp only [Tokenizer.step, alpha c (by simp), if_true, Tokenizer.AddToValueBuffer,
        Tokenizer.full, decide_eq_true_eq, filled, if_false]
      exact ih (read ++ [c]) (fun c member => alpha c (mem_cons_of_mem _ member))
        (by simp; omega) (by simp; omega)

def literalToken : Literal → Token
  | .true_ => .true_
  | .false_ => .false_
  | .null => .null

theorem literal_letters (maxValueLength : Nat) (saveValue : Bool) (literal : Literal) :
    ∃ first letters, literal.text = first :: letters ∧ (∀ c ∈ letters, isAlpha c = true) ∧
      ∀ (tokenizer : Tokenizer), 0 < maxValueLength → tokenizer.tokenState = .open →
        ∀ rest, FeedToken maxValueLength saveValue tokenizer (first :: rest) =
          FeedToken maxValueLength saveValue
            { tokenizer with tokenState := .identifierOpen, valueBuffer := [first] } rest := by
  have begun (first : UInt8) (letter : first = char 't' ∨ first = char 'f' ∨ first = char 'n')
      (tokenizer : Tokenizer) (room : 0 < maxValueLength) (open_ : tokenizer.tokenState = .open)
      (rest : Text) :
      FeedToken maxValueLength saveValue tokenizer (first :: rest) =
        FeedToken maxValueLength saveValue
          { tokenizer with tokenState := .identifierOpen, valueBuffer := [first] } rest := by
    have some : maxValueLength ≠ 0 := by omega
    rw [feedToken_cons]
    rcases letter with rfl | rfl | rfl
    all_goals
      simp only [Tokenizer.step, open_, if_true]
      congr 1
      simp only [Tokenizer.beginToken, some, if_false]
      rfl
  cases literal with
  | true_ | false_ | null => exact ⟨_, _, rfl, all_eq_true.mp (by decide), begun _ (by simp)⟩

theorem feedToken_literal (ready : tokenizer.Ready) {literal : Literal}
    (fits : literal.text.length ≤ maxValueLength) (delimited : Delimited rest) :
    ∃ last : Tokenizer, last.Found (literalToken literal) literal.text ∧
      FeedToken maxValueLength true tokenizer (literal.text ++ rest) = (last, rest) := by
  obtain ⟨first, letters, text, alpha, begun⟩ :=
    literal_letters maxValueLength true literal
  obtain ⟨c, left, rfl, delimits⟩ := delimited
  have token : { tokenizer with tokenState := .identifierOpen, valueBuffer := literal.text }.identifier =
      literalToken literal := by
    cases literal <;> rfl
  rw [text, length_cons] at fits
  rw [text, cons_append, begun tokenizer (by omega) ready.state,
    feedToken_letters tokenizer letters [first] _ alpha (by simp; omega), singleton_append, ← text,
    feedToken_cons]
  simp only [Tokenizer.step, delimits.alpha, Bool.false_eq_true, if_false, token]
  refine ⟨_, ?_, rfl⟩
  exact ⟨rfl, rfl, rfl, ready.index, ready.unicode⟩

theorem feedToken_literal_full (ready : tokenizer.Ready) (room : 0 < maxValueLength) {literal : Literal}
    (full : maxValueLength < literal.text.length) (rest : Text) :
    ∃ (last : Tokenizer) (value left : Text), last.Found .error value ∧
      FeedToken maxValueLength true tokenizer (literal.text ++ rest) = (last, left) := by
  obtain ⟨first, letters, text, alpha, begun⟩ :=
    literal_letters maxValueLength true literal
  rw [text, length_cons] at full
  rw [text, cons_append, begun tokenizer room ready.state]
  obtain ⟨last, left, done, token, index, unicode, fed⟩ :=
    feedToken_letters_full tokenizer letters [first] rest alpha room (by simp; omega)
  exact ⟨last, _, left, ⟨done, token, rfl, index.trans ready.index, unicode.trans ready.unicode⟩, fed⟩

theorem feedToken_exponent (ready : tokenizer.Ready) (room : 0 < maxValueLength) (exponent : Exponent)
    (rest : Text) :
    ∃ (last : Tokenizer) (value left : Text), last.Found .error value ∧
      FeedToken maxValueLength true tokenizer (exponent.text ++ rest) = (last, left) := by
  obtain ⟨e, c, text, exponential, capital, ends⟩ :
      ∃ e c text, exponent.text = e :: c :: text ∧ (e = char 'e' ∨ e = char 'E') ∧ isAlpha c = false := by
    have capital : (if exponent.capital then char 'E' else char 'e') = char 'e' ∨
        (if exponent.capital then char 'E' else char 'e') = char 'E' := by
      cases exponent.capital
      · exact .inl rfl
      · exact .inr rfl
    cases signed : exponent.sign with
    | none =>
      refine ⟨_, _, exponent.others.map digit, ?_, capital, isAlpha_digit exponent.first⟩
      rw [Exponent.text, signed]
      rfl
    | some sign =>
      refine ⟨_, sign.character, digit exponent.first :: exponent.others.map digit, ?_, capital,
        by cases sign <;> rfl⟩
      rw [Exponent.text, signed]
      rfl
  have some : maxValueLength ≠ 0 := by omega
  have begun : tokenizer.beginToken maxValueLength e =
      { tokenizer with tokenState := .identifierOpen, valueBuffer := [e] } := by
    rcases capital with rfl | rfl
    all_goals
      simp only [Tokenizer.beginToken, some, if_false]
      rfl
  have blank : isSpace e = false := by rcases capital with rfl | rfl <;> rfl
  have unknown : { tokenizer with tokenState := .identifierOpen, valueBuffer := [e] }.identifier =
      .error := by
    rcases capital with rfl | rfl <;> rfl
  rw [exponential, cons_append, cons_append, feedToken_cons]
  simp only [Tokenizer.step, ready.state, blank, Bool.false_eq_true, if_false, if_true, begun]
  rw [feedToken_cons]
  simp only [Tokenizer.step, ends, Bool.false_eq_true, if_false, unknown]
  refine ⟨_, [e], _, ?_, rfl⟩
  exact ⟨rfl, rfl, rfl, ready.index, ready.unicode⟩

end Json.Streaming
