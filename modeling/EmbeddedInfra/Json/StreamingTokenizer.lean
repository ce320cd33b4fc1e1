import EmbeddedInfra.Json.JsonTokenizer

/-! The tokens of a parser that is fed JSON piece by piece. -/

namespace Json.Streaming

/-- A parser that has failed an assertion is `aborted` and does nothing any more. -/
inductive TokenState
  | open
  | done
  | stringOpen
  | stringOpenAndEscaped
  | stringOverflowOpen
  | unicodeValueOpen
  | numberOpen
  | numberFractionalOpen
  | numberExponentOpen
  | identifierOpen
  | aborted
  deriving DecidableEq

inductive Token
  | error
  | colon
  | comma
  | leftBrace
  | rightBrace
  | leftBracket
  | rightBracket
  | string
  | stringOverflow
  | number
  | true_
  | false_
  | null
  deriving DecidableEq

/-- What a `JsonSubParser` knows of the token that it is in. -/
structure Tokenizer where
  valueBuffer : Text := []
  tokenState : TokenState := .open
  token : Token := .error
  tokenNumber : BitVec 64 := 0
  tokenSign : BitVec 64 := 1
  unicodeIndex : Nat := 0
  unicode : BitVec 16 := 0
  deriving DecidableEq

namespace Tokenizer

variable (maxValueLength : Nat) (saveValue : Bool) (tokenizer : Tokenizer)

def FoundToken (found : Token) : Tokenizer := { tokenizer with token := found, tokenState := .done }

def full : Bool := decide (maxValueLength ≤ tokenizer.valueBuffer.length)

variable (c : UInt8)

def AddToValueBuffer (inString : Bool) : Tokenizer :=
  if tokenizer.full maxValueLength then
    if inString then { tokenizer with tokenState := .stringOverflowOpen }
    else tokenizer.FoundToken .error
  else if saveValue then { tokenizer with valueBuffer := tokenizer.valueBuffer ++ [c] }
  else tokenizer

def ProcessEscapedData : Tokenizer :=
  if c = quotes then tokenizer.AddToValueBuffer maxValueLength saveValue quotes true
  else if c = backslash then tokenizer.AddToValueBuffer maxValueLength saveValue backslash true
  else if c = char 'b' then tokenizer.AddToValueBuffer maxValueLength saveValue 8 true
  else if c = char 'f' then tokenizer.AddToValueBuffer maxValueLength saveValue 12 true
  else if c = char 'n' then tokenizer.AddToValueBuffer maxValueLength saveValue 10 true
  else if c = char 'r' then tokenizer.AddToValueBuffer maxValueLength saveValue 13 true
  else if c = char 't' then tokenizer.AddToValueBuffer maxValueLength saveValue 9 true
  else if c = char 'u' then { tokenizer with tokenState := .unicodeValueOpen }
  else tokenizer.AddToValueBuffer maxValueLength saveValue c true

/-- The first character of a token, which is not a space. The assertion of `valueBuffer = c`
fails for a buffer of no characters. -/
def beginToken : Tokenizer :=
  if c = colon then tokenizer.FoundToken .colon
  else if c = comma then tokenizer.FoundToken .comma
  else if c = leftBrace then tokenizer.FoundToken .leftBrace
  else if c = rightBrace then tokenizer.FoundToken .rightBrace
  else if c = leftBracket then tokenizer.FoundToken .leftBracket
  else if c = rightBracket then tokenizer.FoundToken .rightBracket
  else if c = quotes then { tokenizer with tokenState := .stringOpen }
  else if c = minus then { tokenizer with tokenState := .numberOpen, tokenNumber := 0, tokenSign := -1 }
  else if isAlpha c then
    if maxValueLength = 0 then { tokenizer with tokenState := .aborted }
    else { tokenizer with tokenState := .identifierOpen, valueBuffer := [c] }
  else if isDigit c then
    { tokenizer with
      tokenState := .numberOpen
      tokenNumber := BitVec.ofNat 64 (c.toNat - 48)
      tokenSign := 1 }
  else tokenizer.FoundToken .error

def stringCharacter : Tokenizer :=
  if c = backslash then { tokenizer with tokenState := .stringOpenAndEscaped }
  else if c = quotes then
    tokenizer.FoundToken (if tokenizer.tokenState = .stringOpen then .string else .stringOverflow)
  else tokenizer.AddToValueBuffer maxValueLength saveValue c true

def stringLoop (tokenizer : Tokenizer) (c : UInt8) : Text → Tokenizer × Text
  | [] => (tokenizer.stringCharacter maxValueLength saveValue c, [])
  | next :: data =>
    let tokenizer := tokenizer.stringCharacter maxValueLength saveValue c
    if tokenizer.tokenState ≠ .stringOpen ∧ tokenizer.tokenState ≠ .stringOverflowOpen then
      (tokenizer, next :: data)
    else stringLoop tokenizer next data

/-- A hexadecimal digit of a unicode value, after the first `unicodeIndex` ones. -/
def unicodeCharacter : Tokenizer :=
  let tokenizer := match JsonString.hexDigit c with
    | some digit =>
      { tokenizer with
        unicodeIndex := tokenizer.unicodeIndex + 1
        unicode := tokenizer.unicode * 16 + BitVec.ofNat 16 digit.toNat }
    | none => { tokenizer with unicodeIndex := 0, unicode := 0 }.FoundToken .error
  if tokenizer.unicodeIndex = 4 then
    let tokenizer' := { tokenizer with tokenState := .stringOpen }
    let added :=
      if tokenizer'.full maxValueLength then tokenizer'.FoundToken .error
      else tokenizer'.AddToValueBuffer maxValueLength saveValue (UInt8.ofNat tokenizer.unicode.toNat) true
    { added with unicodeIndex := 0, unicode := 0 }
  else tokenizer

def identifier : Token :=
  if tokenizer.valueBuffer = [char 't', char 'r', char 'u', char 'e'] then .true_
  else if tokenizer.valueBuffer = [char 'f', char 'a', char 'l', char 's', char 'e'] then .false_
  else if tokenizer.valueBuffer = [char 'n', char 'u', char 'l', char 'l'] then .null
  else .error

end Tokenizer

theorem length_stringLoop (maxValueLength : Nat) (saveValue : Bool) (tokenizer : Tokenizer) (c : UInt8)
    (data : Text) :
    (tokenizer.stringLoop maxValueLength saveValue c data).2.length ≤ data.length := by
  induction data generalizing tokenizer c with
  | nil => simp [Tokenizer.stringLoop]
  | cons next data ih =>
    simp only [Tokenizer.stringLoop]
    split
    · exact le_rfl
    · exact (ih _ _).trans (Nat.le_succ _)

/-- Feed characters until a token is found: the token, and the characters after it. A number
or an identifier ends before a character that is not part of it. -/
def FeedToken (maxValueLength : Nat) (saveValue : Bool) (tokenizer : Tokenizer) (data : Text) :
    Tokenizer × Text :=
  match data with
  | [] => (tokenizer, [])
  | c :: rest =>
    match tokenizer.tokenState with
    | .done => (tokenizer, c :: rest)
    | .numberOpen =>
      if isDigit c then
        FeedToken maxValueLength saveValue
          { tokenizer with
            tokenNumber := tokenizer.tokenNumber * 10 + BitVec.ofNat 64 (c.toNat - 48) } rest
      else if c = dot then
        FeedToken maxValueLength saveValue { tokenizer with tokenState := .numberFractionalOpen } rest
      else (tokenizer.FoundToken .number, c :: rest)
    | .numberFractionalOpen =>
      if isDigit c then FeedToken maxValueLength saveValue tokenizer rest
      else if c = char 'e' ∨ c = char 'E' then
        FeedToken maxValueLength saveValue { tokenizer with tokenState := .numberExponentOpen } rest
      else (tokenizer.FoundToken .number, c :: rest)
    | .numberExponentOpen =>
      if isDigit c ∨ c = char '+' ∨ c = minus then FeedToken maxValueLength saveValue tokenizer rest
      else (tokenizer.FoundToken .number, c :: rest)
    | .identifierOpen =>
      if isAlpha c then
        FeedToken maxValueLength saveValue
          (tokenizer.AddToValueBuffer maxValueLength saveValue c false) rest
      else (tokenizer.FoundToken tokenizer.identifier, c :: rest)
    | .open =>
      if isSpace c then FeedToken maxValueLength saveValue tokenizer (rest.dropWhile isSpace)
      else FeedToken maxValueLength saveValue (tokenizer.beginToken maxValueLength c) rest
    | .stringOpen | .stringOverflowOpen =>
      FeedToken maxValueLength saveValue
        (tokenizer.stringLoop maxValueLength saveValue c rest).1
        (tokenizer.stringLoop maxValueLength saveValue c rest).2
    | .stringOpenAndEscaped =>
      FeedToken maxValueLength saveValue
        ({ tokenizer with tokenState := .stringOpen }.ProcessEscapedData maxValueLength saveValue c)
        rest
    | .unicodeValueOpen =>
      FeedToken maxValueLength saveValue
        (tokenizer.unicodeCharacter maxValueLength saveValue c) rest
    | .aborted => FeedToken maxValueLength saveValue tokenizer rest
termination_by data.length
decreasing_by
  all_goals simp only [List.length_cons]
  all_goals
    first
      | omega
      | exact Nat.lt_succ_of_le (List.dropWhile_suffix _).length_le
      | exact Nat.lt_succ_of_le (length_stringLoop ..)

/-! ### One character at a time -/

namespace Tokenizer

variable (maxValueLength : Nat) (saveValue : Bool) (tokenizer : Tokenizer)

/-- What a character does to a token, and whether it is taken. -/
def step (c : UInt8) : Tokenizer × Bool :=
  match tokenizer.tokenState with
  | .done => (tokenizer, false)
  | .numberOpen =>
    if isDigit c then
      ({ tokenizer with
        tokenNumber := tokenizer.tokenNumber * 10 + BitVec.ofNat 64 (c.toNat - 48) }, true)
    else if c = dot then ({ tokenizer with tokenState := .numberFractionalOpen }, true)
    else (tokenizer.FoundToken .number, false)
  | .numberFractionalOpen =>
    if isDigit c then (tokenizer, true)
    else if c = char 'e' ∨ c = char 'E' then
      ({ tokenizer with tokenState := .numberExponentOpen }, true)
    else (tokenizer.FoundToken .number, false)
  | .numberExponentOpen =>
    if isDigit c ∨ c = char '+' ∨ c = minus then (tokenizer, true)
    else (tokenizer.FoundToken .number, false)
  | .identifierOpen =>
    if isAlpha c then (tokenizer.AddToValueBuffer maxValueLength saveValue c false, true)
    else (tokenizer.FoundToken tokenizer.identifier, false)
  | .open => (if isSpace c then tokenizer else tokenizer.beginToken maxValueLength c, true)
  | .stringOpen | .stringOverflowOpen =>
    (tokenizer.stringCharacter maxValueLength saveValue c, true)
  | .stringOpenAndEscaped =>
    ({ tokenizer with tokenState := .stringOpen }.ProcessEscapedData maxValueLength saveValue c, true)
  | .unicodeValueOpen => (tokenizer.unicodeCharacter maxValueLength saveValue c, true)
  | .aborted => (tokenizer, true)

end Tokenizer

variable {maxValueLength : Nat} {saveValue : Bool}

variable (tokenizer : Tokenizer)

theorem feedToken_nil : FeedToken maxValueLength saveValue tokenizer [] = (tokenizer, []) := by
  rw [FeedToken]

theorem feedToken_done {tokenizer : Tokenizer} (done : tokenizer.tokenState = .done) (data : Text) :
    FeedToken maxValueLength saveValue tokenizer data = (tokenizer, data) := by
  cases data with
  | nil => exact feedToken_nil tokenizer
  | cons c rest => rw [FeedToken, done]

theorem feedToken_spaces {tokenizer : Tokenizer} (open_ : tokenizer.tokenState = .open) (data : Text) :
    FeedToken maxValueLength saveValue tokenizer (data.dropWhile isSpace) =
      FeedToken maxValueLength saveValue tokenizer data := by
  cases data with
  | nil => rfl
  | cons c rest =>
    rw [List.dropWhile_cons]
    split
    next space =>
      conv_rhs => rw [FeedToken]
      simp only [open_, space, if_true]
    · rfl

theorem feedToken_string (c : UInt8) (data : Text) :
    FeedToken maxValueLength saveValue (tokenizer.stringLoop maxValueLength saveValue c data).1
        (tokenizer.stringLoop maxValueLength saveValue c data).2 =
      FeedToken maxValueLength saveValue (tokenizer.stringCharacter maxValueLength saveValue c) data := by
  induction data generalizing tokenizer c with
  | nil => rfl
  | cons next data ih =>
    simp only [Tokenizer.stringLoop]
    split
    · rfl
    next inside =>
      rw [ih]
      have open_ : (tokenizer.stringCharacter maxValueLength saveValue c).tokenState = .stringOpen ∨
          (tokenizer.stringCharacter maxValueLength saveValue c).tokenState = .stringOverflowOpen := by
        simpa only [not_and_or, not_not] using inside
      conv_rhs => rw [FeedToken]
      rcases open_ with open_ | open_ <;> simp only [open_, ih]

theorem feedToken_cons (c : UInt8) (rest : Text) :
    FeedToken maxValueLength saveValue tokenizer (c :: rest) =
      if (tokenizer.step maxValueLength saveValue c).2 then
        FeedToken maxValueLength saveValue (tokenizer.step maxValueLength saveValue c).1 rest
      else ((tokenizer.step maxValueLength saveValue c).1, c :: rest) := by
  rw [FeedToken]
  cases state : tokenizer.tokenState with
  | «open» =>
    simp only [Tokenizer.step, state, if_true]
    split
    · exact feedToken_spaces state rest
    · rfl
  | stringOpen | stringOverflowOpen =>
    simp only [Tokenizer.step, state, if_true]
    exact feedToken_string tokenizer c rest
  | numberOpen | numberFractionalOpen =>
    simp only [Tokenizer.step, state]
    split
    · rfl
    · split <;> rfl
  | numberExponentOpen | identifierOpen =>
    simp only [Tokenizer.step, state]
    split <;> rfl
  | done | stringOpenAndEscaped | unicodeValueOpen | aborted =>
    simp only [Tokenizer.step, state]
    rfl

theorem step_done {tokenizer : Tokenizer} {c : UInt8}
    (kept : (tokenizer.step maxValueLength saveValue c).2 = false) :
    (tokenizer.step maxValueLength saveValue c).1.tokenState = .done ∧ tokenizer.tokenState ≠ .open := by
  cases state : tokenizer.tokenState with
  | «open» | stringOpen | stringOverflowOpen | stringOpenAndEscaped | unicodeValueOpen | aborted =>
    simp [Tokenizer.step, state] at kept
  | done =>
    refine ⟨?_, by simp⟩
    simp only [Tokenizer.step, state]
  | numberOpen | numberFractionalOpen | numberExponentOpen | identifierOpen =>
    refine ⟨?_, by simp⟩
    revert kept
    simp only [Tokenizer.step, state]
    repeat' split
    all_goals simp [Tokenizer.FoundToken]

/-- Characters that are fed after others are taken after them, unless a token was found. -/
theorem feedToken_append (maxValueLength : Nat) (saveValue : Bool) (tokenizer : Tokenizer) (first second : Text) :
    FeedToken maxValueLength saveValue tokenizer (first ++ second) =
      if (FeedToken maxValueLength saveValue tokenizer first).1.tokenState = .done then
        ((FeedToken maxValueLength saveValue tokenizer first).1,
          (FeedToken maxValueLength saveValue tokenizer first).2 ++ second)
      else
        FeedToken maxValueLength saveValue (FeedToken maxValueLength saveValue tokenizer first).1 second := by
  induction first generalizing tokenizer with
  | nil =>
    rw [feedToken_nil, List.nil_append]
    split
    next done => rw [feedToken_done done]
    · rfl
  | cons c first ih =>
    rw [List.cons_append, feedToken_cons, feedToken_cons]
    cases taken : (tokenizer.step maxValueLength saveValue c).2 with
    | true => simp only [if_true, ih]
    | false => simp only [Bool.false_eq_true, if_false, (step_done taken).1, if_true, List.cons_append]

/-- Unless a token has been found all characters are taken; and the first one is taken
unless a token had begun before it. -/
theorem length_feedToken (maxValueLength : Nat) (saveValue : Bool) (tokenizer : Tokenizer) (data : Text) :
    (FeedToken maxValueLength saveValue tokenizer data).2.length ≤ data.length ∧
      (tokenizer.tokenState = .open → data ≠ [] →
        (FeedToken maxValueLength saveValue tokenizer data).2.length < data.length) ∧
      ((FeedToken maxValueLength saveValue tokenizer data).1.tokenState ≠ .done →
        (FeedToken maxValueLength saveValue tokenizer data).2 = []) := by
  induction data generalizing tokenizer with
  | nil =>
    rw [feedToken_nil]
    exact ⟨le_rfl, fun _ some => absurd rfl some, fun _ => rfl⟩
  | cons c rest ih =>
    rw [feedToken_cons]
    cases taken : (tokenizer.step maxValueLength saveValue c).2 with
    | true =>
      simp only [if_true, List.length_cons]
      obtain ⟨shorter, -, all⟩ := ih (tokenizer.step maxValueLength saveValue c).1
      exact ⟨by omega, fun _ _ => by omega, all⟩
    | false =>
      obtain ⟨done, begun⟩ := step_done taken
      simp only [Bool.false_eq_true, if_false]
      exact ⟨le_rfl, fun open_ => absurd open_ begun, fun undone => absurd done undone⟩

end Json.Streaming
