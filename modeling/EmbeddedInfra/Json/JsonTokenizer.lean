import EmbeddedInfra.Json.JsonFormatter

/-! Reading JSON: the characters of strings, the tokens of a text, and the iterators of objects
and arrays. -/

namespace Json

namespace JsonString

variable (c : UInt8)

def hexDigit : Option UInt8 :=
  if char '0' ≤ c ∧ c ≤ char '9' then some (c - char '0')
  else if char 'a' ≤ c ∧ c ≤ char 'f' then some (c - char 'a' + 10)
  else if char 'A' ≤ c ∧ c ≤ char 'F' then some (c - char 'A' + 10)
  else none

/-- Read at most a number of hexadecimal digits; also gives what comes after them. -/
def hexCode : Nat → UInt8 → Text → UInt8 × Text
  | 0, result, rest => (result, rest)
  | _ + 1, result, [] => (result, [])
  | digits + 1, result, c :: rest =>
    match hexDigit c with
    | some digit => hexCode digits (result * 16 + digit) rest
    | none => (result, c :: rest)

def unescape : UInt8 :=
  if c = char 'b' then 8
  else if c = char 'f' then 12
  else if c = char 'n' then 10
  else if c = char 'r' then 13
  else if c = char 't' then 9
  else c

/-- The character that an iterator refers to, unless an assertion fails, and the position of
the iterator after it is incremented. -/
def dereference (rest : Text) : Option (UInt8 × Text) :=
  if c = backslash then
    match rest with
    | [] => none
    | next :: rest =>
      if next = char 'u' then some (hexCode 4 0 rest) else some (unescape next, rest)
  else some (c, rest)

def characters : Nat → Text → Option Text
  | 0, _ => some []
  | _ + 1, [] => some []
  | increments + 1, c :: rest => do
      let (character, rest) ← dereference c rest
      let others ← characters increments rest
      pure (character :: others)

/-- The bytes that a `JsonString` with this source stands for. -/
def decode (source : Text) : Option Text := characters source.length source

end JsonString

inductive Token where
  | finished
  | error
  | colon
  | comma
  | dot
  | null
  | leftBrace (index : Nat)
  | rightBrace (index : Nat)
  | leftBracket (index : Nat)
  | rightBracket (index : Nat)
  | string (value : Text)
  | biggerInt (value : BitVec 64) (negative : Bool)
  | float (intValue : BitVec 64) (nanoFractionalValue : BitVec 32) (negative : Bool)
  | boolean (value : Bool)
  deriving DecidableEq

variable (c : UInt8)

def isSpace : Bool := decide (c = 32) || decide (9 ≤ c) && decide (c ≤ 13)

def isDigit : Bool := decide (char '0' ≤ c) && decide (c ≤ char '9')

def isAlpha : Bool :=
  decide (char 'A' ≤ c) && decide (c ≤ char 'Z') || decide (char 'a' ≤ c) && decide (c ≤ char 'z')

def toInt (width : Nat) (string : Text) : BitVec width :=
  string.foldl (fun value c => value * 10 + BitVec.ofNat width c.toNat - 48) 0

def closingQuotes (escape : Bool) : Text → Option Nat
  | [] => none
  | c :: rest =>
    if escape = true ∨ c ≠ quotes then
      (closingQuotes (!escape && decide (c = backslash)) rest).map (· + 1)
    else some 0

def nanoValueWidth : Nat := 9

/-- The text from `parseIndex` on is kept, in place of the whole one. -/
structure JsonTokenizer where
  parseIndex : Nat
  rest : Text

namespace JsonTokenizer

variable (tokenizer : JsonTokenizer)

def advance (count : Nat) : JsonTokenizer :=
  ⟨tokenizer.parseIndex + count, tokenizer.rest.drop count⟩

def skipWhitespace : JsonTokenizer :=
  tokenizer.advance (tokenizer.rest.takeWhile isSpace).length

def tryCreateStringToken : Token × JsonTokenizer :=
  let tokenizer := tokenizer.advance 1
  match closingQuotes false tokenizer.rest with
  | some length => (.string (tokenizer.rest.take length), tokenizer.advance (length + 1))
  | none => (.error, tokenizer.advance tokenizer.rest.length)

def tryCreateFloatToken (integer : BitVec 64) (sign : Bool) : Token × JsonTokenizer :=
  if tokenizer.rest.head? = some minus then (.error, tokenizer)
  else
    let digits := tokenizer.rest.takeWhile isDigit
    let fractional := digits.take nanoValueWidth
    (.float integer (toInt 32 fractional * 10 ^ (nanoValueWidth - fractional.length)) sign,
      tokenizer.advance digits.length)

def tryCreateIntegerOrFloatToken : Token × JsonTokenizer :=
  let sign := decide (tokenizer.rest.head? = some minus)
  let tokenizer := tokenizer.advance (if sign = true then 1 else 0)
  let digits := tokenizer.rest.takeWhile isDigit
  let tokenizer := tokenizer.advance digits.length
  if tokenizer.rest.head? = some dot then
    (tokenizer.advance 1).tryCreateFloatToken (toInt 64 digits) sign
  else (.biggerInt (toInt 64 digits) sign, tokenizer)

def tryCreateIdentifierToken : Token × JsonTokenizer :=
  let identifier := tokenizer.rest.takeWhile isAlpha
  let tokenizer := tokenizer.advance identifier.length
  if identifier = [char 't', char 'r', char 'u', char 'e'] then (.boolean true, tokenizer)
  else if identifier = [char 'f', char 'a', char 'l', char 's', char 'e'] then
    (.boolean false, tokenizer)
  else if identifier = [char 'n', char 'u', char 'l', char 'l'] then (.null, tokenizer)
  else (.error, tokenizer)

def token : Token × JsonTokenizer :=
  let tokenizer := tokenizer.skipWhitespace
  let index := tokenizer.parseIndex
  match tokenizer.rest with
  | [] => (.finished, tokenizer)
  | c :: _ =>
    if c = quotes then tokenizer.tryCreateStringToken
    else if c = colon then (.colon, tokenizer.advance 1)
    else if c = comma then (.comma, tokenizer.advance 1)
    else if c = dot then (.dot, tokenizer.advance 1)
    else if c = leftBrace then (.leftBrace index, tokenizer.advance 1)
    else if c = rightBrace then (.rightBrace index, tokenizer.advance 1)
    else if c = leftBracket then (.leftBracket index, tokenizer.advance 1)
    else if c = rightBracket then (.rightBracket index, tokenizer.advance 1)
    else if isDigit c = true ∨ c = minus then tokenizer.tryCreateIntegerOrFloatToken
    else if isAlpha c = true then tokenizer.tryCreateIdentifierToken
    else (.error, tokenizer)

end JsonTokenizer

inductive JsonValue where
  | boolean (value : Bool)
  | int32 (value : BitVec 32)
  | biggerInt (value : BitVec 64) (negative : Bool)
  | string (source : Text)
  | float (intValue : BitVec 64) (nanoFractionalValue : BitVec 32) (negative : Bool)
  | object (objectString : Text)
  | array (objectString : Text)
  deriving DecidableEq

/-- What an object or an array is enclosed in. -/
inductive Pairing where
  | braces
  | brackets
  deriving DecidableEq

def Pairing.opens : Pairing → Token → Bool
  | .braces, .leftBrace _ => true
  | .brackets, .leftBracket _ => true
  | _, _ => false

def Pairing.closes : Pairing → Token → Option Nat
  | .braces, .rightBrace index => some index
  | .brackets, .rightBracket index => some index
  | _, _ => none

/-- The number of pairs that are open counts down from zero, and up again. -/
def Pairing.count (pairing : Pairing) (token : Token) (nested : Int) : Int :=
  let nested := if pairing.opens token = true then nested - 1 else nested
  if (pairing.closes token).isSome = true then nested + 1 else nested

/-- `SearchObjectEnd` and `SearchArrayEnd`, with at most as many tokens as are given. -/
def Pairing.searchTokens (pairing : Pairing) :
    Nat → Int → JsonTokenizer → Option Nat × JsonTokenizer
  | 0, _, tokenizer => (none, tokenizer)
  | tokens + 1, nested, tokenizer =>
    let (token, tokenizer) := tokenizer.token
    if (nested ≠ 0 ∨ pairing.closes token = none) ∧ token ≠ .finished ∧ token ≠ .error then
      pairing.searchTokens tokens (pairing.count token nested) tokenizer
    else (pairing.closes token, tokenizer)

def Pairing.searchFrom (pairing : Pairing) (nested : Int) (tokenizer : JsonTokenizer) :
    Option Nat × JsonTokenizer :=
  pairing.searchTokens (tokenizer.rest.length + 1) nested tokenizer

def searchObjectEnd (tokenizer : JsonTokenizer) : Option Nat × JsonTokenizer :=
  Pairing.braces.searchFrom 0 tokenizer

def searchArrayEnd (tokenizer : JsonTokenizer) : Option Nat × JsonTokenizer :=
  Pairing.brackets.searchFrom 0 tokenizer

def between (objectString : Text) (first last : Nat) : Text :=
  (objectString.drop first).take (last + 1 - first)

def readInteger (value : BitVec 64) (negative : Bool) : JsonValue :=
  if (negative = false ∧ value.toNat ≤ 2 ^ 31 - 1) ∨ (negative = true ∧ value.toNat ≤ 2 ^ 31) then
    .int32 ((value * if negative = true then -1 else 1).setWidth 32)
  else .biggerInt value negative

def convertValue (objectString : Text) (tokenizer : JsonTokenizer) :
    Token → Option JsonValue × JsonTokenizer
  | .string value => (some (.string value), tokenizer)
  | .biggerInt value negative => (some (readInteger value negative), tokenizer)
  | .float intValue nanoFractionalValue negative =>
    (some (.float intValue nanoFractionalValue negative), tokenizer)
  | .boolean value => (some (.boolean value), tokenizer)
  | .leftBrace index =>
    let (objectEnd, tokenizer) := searchObjectEnd tokenizer
    (objectEnd.map fun last => .object (between objectString index last), tokenizer)
  | .leftBracket index =>
    let (arrayEnd, tokenizer) := searchArrayEnd tokenizer
    (arrayEnd.map fun last => .array (between objectString index last), tokenizer)
  | .null => (some (.object []), tokenizer)
  | _ => (none, tokenizer)

namespace JsonObjectIterator

inductive State where
  | readObjectStart
  | readKeyOrEnd
  | readKey
  | readColon
  | readValue
  | readCommaOrObjectEnd
  | finished
  deriving DecidableEq

end JsonObjectIterator

/-- An iterator of an object, with the error flag of its object. -/
structure JsonObjectIterator where
  objectString : Text
  tokenizer : JsonTokenizer
  key : Text
  value : JsonValue
  state : JsonObjectIterator.State
  error : Bool

namespace JsonObjectIterator

variable (iterator : JsonObjectIterator)

def setError : JsonObjectIterator :=
  { iterator with error := true, state := .finished }

def readKeyToken (token : Token) : JsonObjectIterator :=
  match token with
  | .string value => { iterator with key := value, state := .readColon }
  | _ => iterator.setError

def readValueToken (token : Token) : JsonObjectIterator :=
  let (value, tokenizer) := convertValue iterator.objectString iterator.tokenizer token
  let iterator := { iterator with tokenizer := tokenizer }
  match value with
  | some value => { iterator with value := value, state := .readCommaOrObjectEnd }
  | none => iterator.setError

def parseNextToken : JsonObjectIterator :=
  let (token, tokenizer) := iterator.tokenizer.token
  let iterator := { iterator with tokenizer := tokenizer }
  match iterator.state with
  | .readObjectStart =>
    match token with
    | .leftBrace _ => { iterator with state := .readKeyOrEnd }
    | _ => iterator.setError
  | .readKeyOrEnd =>
    match token with
    | .rightBrace _ => { iterator with state := .finished }
    | _ => iterator.readKeyToken token
  | .readKey => iterator.readKeyToken token
  | .readColon =>
    match token with
    | .colon => { iterator with state := .readValue }
    | _ => iterator.setError
  | .readValue => iterator.readValueToken token
  | .readCommaOrObjectEnd =>
    match token with
    | .comma => { iterator with state := .readKey }
    | .rightBrace _ => { iterator with state := .finished }
    | _ => iterator.setError
  | .finished => iterator

/-- Parse tokens until a key and a value have been read, at most as many as are given. -/
def parseTokens : Nat → JsonObjectIterator → JsonObjectIterator
  | 0, iterator => iterator
  | tokens + 1, iterator =>
    let iterator := iterator.parseNextToken
    if iterator.state ≠ .readCommaOrObjectEnd ∧ iterator.state ≠ .finished then
      parseTokens tokens iterator
    else iterator

def increment : JsonObjectIterator := parseTokens 4 iterator

def begin (objectString : Text) : JsonObjectIterator :=
  increment ⟨objectString, ⟨0, objectString⟩, [], .boolean false, .readObjectStart, false⟩

end JsonObjectIterator

namespace JsonArrayIterator

inductive State where
  | readArrayStart
  | readValueOrEnd
  | readValue
  | readCommaOrArrayEnd
  | finished
  deriving DecidableEq

end JsonArrayIterator

structure JsonArrayIterator where
  objectString : Text
  tokenizer : JsonTokenizer
  value : JsonValue
  state : JsonArrayIterator.State
  error : Bool

namespace JsonArrayIterator

variable (iterator : JsonArrayIterator)

def setError : JsonArrayIterator :=
  { iterator with error := true, state := .finished }

def readValueToken (token : Token) : JsonArrayIterator :=
  let (value, tokenizer) := convertValue iterator.objectString iterator.tokenizer token
  let iterator := { iterator with tokenizer := tokenizer }
  match value with
  | some value => { iterator with value := value, state := .readCommaOrArrayEnd }
  | none => iterator.setError

def parseNextToken : JsonArrayIterator :=
  let (token, tokenizer) := iterator.tokenizer.token
  let iterator := { iterator with tokenizer := tokenizer }
  match iterator.state with
  | .readArrayStart =>
    match token with
    | .leftBracket _ => { iterator with state := .readValueOrEnd }
    | _ => iterator.setError
  | .readValueOrEnd =>
    match token with
    | .rightBracket _ => { iterator with state := .finished }
    | _ => iterator.readValueToken token
  | .readValue => iterator.readValueToken token
  | .readCommaOrArrayEnd =>
    match token with
    | .comma => { iterator with state := .readValue }
    | .rightBracket _ => { iterator with state := .finished }
    | _ => iterator.setError
  | .finished => iterator

def parseTokens : Nat → JsonArrayIterator → JsonArrayIterator
  | 0, iterator => iterator
  | tokens + 1, iterator =>
    let iterator := iterator.parseNextToken
    if iterator.state ≠ .readCommaOrArrayEnd ∧ iterator.state ≠ .finished then
      parseTokens tokens iterator
    else iterator

def increment : JsonArrayIterator := parseTokens 2 iterator

def begin (objectString : Text) : JsonArrayIterator :=
  increment ⟨objectString, ⟨0, objectString⟩, .boolean false, .readArrayStart, false⟩

end JsonArrayIterator

mutual

/-- A value that is read is the one that was added, down to the last nested one. -/
def Content.ReadsAs : Content → JsonValue → Prop
  | .boolean tag, .boolean value => value = tag
  | .integer tag, .int32 value => value.toInt = tag.toInt
  | .integer tag, .biggerInt value negative =>
    (if negative = true then -(value.toNat : Int) else value.toNat) = tag.toInt
  | .string tag, .string source => JsonString.decode source = some tag
  | .subObject calls, .object objectString => calls.ReadsAs (.begin objectString)
  | .subArray calls, .array objectString => calls.ReadsAs (.begin objectString)
  | _, _ => False

/-- An iteration yields the keys and values that were added, in order, and ends without an
error. -/
def ObjectCalls.ReadsAs : ObjectCalls → JsonObjectIterator → Prop
  | .nil, iterator => iterator.state = .finished ∧ iterator.error = false
  | .add tagName content rest, iterator =>
    iterator.state ≠ .finished ∧ JsonString.decode iterator.key = some tagName.name ∧
      content.ReadsAs iterator.value ∧ rest.ReadsAs iterator.increment

def ArrayCalls.ReadsAs : ArrayCalls → JsonArrayIterator → Prop
  | .nil, iterator => iterator.state = .finished ∧ iterator.error = false
  | .add content rest, iterator =>
    iterator.state ≠ .finished ∧ content.ReadsAs iterator.value ∧ rest.ReadsAs iterator.increment

end

end Json
