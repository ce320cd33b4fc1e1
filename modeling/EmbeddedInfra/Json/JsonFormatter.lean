import Mathlib.Data.BitVec

/-! Writing JSON: the formatters of objects and arrays, and the escaping of strings. -/

namespace Json

abbrev Text := List UInt8

abbrev char (c : Char) : UInt8 := UInt8.ofNat c.toNat

abbrev space : UInt8 := 32
abbrev quotes : UInt8 := 34
abbrev apostrophe : UInt8 := 39
abbrev comma : UInt8 := 44
abbrev minus : UInt8 := 45
abbrev dot : UInt8 := 46
abbrev colon : UInt8 := 58
abbrev leftBracket : UInt8 := 91
abbrev backslash : UInt8 := 92
abbrev rightBracket : UInt8 := 93
abbrev leftBrace : UInt8 := 123
abbrev rightBrace : UInt8 := 125

/-- `'0'` is followed by the other digits, `'a'` by the other letters. -/
def hexChar (digit : Nat) : UInt8 := UInt8.ofNat (if digit < 10 then 48 + digit else 87 + digit)

/-- The weight of the first digit that is written, looking for it at most `bits` times. -/
def firstMask (radix : Nat) : Nat → Nat → Nat → Nat
  | 0, _, mask => mask
  | bits + 1, v, mask => if radix ≤ v / mask then firstMask radix bits v (mask * radix) else mask

def digitsFrom (radix : Nat) : Nat → Nat → Nat → Text
  | 0, _, _ => []
  | bits + 1, v, mask =>
    if mask ≠ 0 then hexChar (v / mask % radix) :: digitsFrom radix bits v (mask / radix) else []

def outputDigits (radix : Nat) (v : BitVec 64) : Text :=
  digitsFrom radix 65 v.toNat (firstMask radix 64 v.toNat 1)

def outputAsDecimal (v : BitVec 64) (negative : Bool) : Text :=
  (if negative = true then [minus] else []) ++ outputDigits 10 v

def outputAsHexadecimal (width : Nat) (v : BitVec 64) : Text :=
  let digits := outputDigits 16 v
  List.replicate (width - digits.length) (char '0') ++ digits

/-- An integer as it is given to `Add`; the smaller types are converted to these. -/
inductive Integer where
  | int64 (v : BitVec 64)
  | uint64 (v : BitVec 64)
  | bigger (value : BitVec 64) (negative : Bool)
  deriving DecidableEq

namespace Integer

def negative : Integer → Bool
  | int64 v => v.slt 0
  | uint64 _ => false
  | bigger _ negative => negative

/-- The absolute value; that of the smallest `int64_t` wraps. -/
def value : Integer → BitVec 64
  | int64 v => if v.slt 0 = true then -v else v
  | uint64 v => v
  | bigger value _ => value

def toInt : Integer → Int
  | int64 v => v.toInt
  | uint64 v => v.toNat
  | bigger value negative => if negative = true then -value.toNat else value.toNat

def output (integer : Integer) : Text := outputAsDecimal integer.value integer.negative

end Integer

def charactersToEscape : Text := [char '<', char '>', char '&', apostrophe, quotes]

variable (signedChar : Bool)

/-- Characters below a space; where `char` is signed, those from 0x80 on are negative. -/
def isControl (c : UInt8) : Bool :=
  decide (c < 0x20) || signedChar && decide (0x80 ≤ c)

def replaceEscapeCharacter (c : UInt8) : Text :=
  if c = quotes then [backslash, quotes]
  else if c = backslash then [backslash, backslash]
  else if c = 8 then [backslash, char 'b']
  else if c = 12 then [backslash, char 'f']
  else if c = 10 then [backslash, char 'n']
  else if c = 13 then [backslash, char 'r']
  else if c = 9 then [backslash, char 't']
  else [backslash, char 'u'] ++ outputAsHexadecimal 4 (BitVec.ofNat 64 c.toNat)

def nonEscapedSubString (string : Text) : Text × Text :=
  let upToListed := string.takeWhile fun c => !charactersToEscape.contains c
  let nonEscaped := upToListed.takeWhile fun c => !isControl signedChar c
  (nonEscaped, string.drop nonEscaped.length)

/-- Every round but the last one writes an escaped character. -/
def insertRounds (signedChar : Bool) : Nat → Text → Text
  | 0, _ => []
  | rounds + 1, content =>
    match nonEscapedSubString signedChar content with
    | (nonEscaped, []) => nonEscaped
    | (nonEscaped, c :: rest) =>
      nonEscaped ++ replaceEscapeCharacter c ++ insertRounds signedChar rounds rest

def insertEscapedContent (content : Text) : Text :=
  insertRounds signedChar (content.length + 1) content

/-- A tag name has no characters that need escaping. -/
structure TagName where
  name : Text
  no_quotes : quotes ∉ name
  no_backslash : backslash ∉ name

mutual

/-- What is added to an object or an array. -/
inductive Content where
  | boolean (tag : Bool)
  | integer (tag : Integer)
  | string (tag : Text)
  | subObject (calls : ObjectCalls)
  | subArray (calls : ArrayCalls)

/-- Calls of an object's formatter, in order; those of a formatter that one of them returns
come before the next one. -/
inductive ObjectCalls where
  | nil
  | add (tagName : TagName) (content : Content) (rest : ObjectCalls)

inductive ArrayCalls where
  | nil
  | add (content : Content) (rest : ArrayCalls)

end

/-- What has been written to the stream, and whether something has been added. -/
structure Formatter where
  stream : Text
  empty : Bool

namespace Formatter

def insertSeparation (formatter : Formatter) : Formatter where
  stream := if formatter.empty = true then formatter.stream else formatter.stream ++ [comma, space]
  empty := false

def insertTagName (formatter : Formatter) (tagName : TagName) : Formatter :=
  { formatter with stream := formatter.stream ++ [quotes] ++ tagName.name ++ [quotes, colon] }

end Formatter

namespace JsonObjectFormatter

def construct (stream : Text) : Formatter := ⟨stream ++ [leftBrace, space], true⟩

def destruct (formatter : Formatter) : Text := formatter.stream ++ [space, rightBrace]

end JsonObjectFormatter

namespace JsonArrayFormatter

def construct (stream : Text) : Formatter := ⟨stream ++ [leftBracket, space], true⟩

def destruct (formatter : Formatter) : Text := formatter.stream ++ [space, rightBracket]

end JsonArrayFormatter

mutual

/-- Write a value to the stream, after the separation and the tag name. -/
def Content.write (signedChar : Bool) : Content → Text → Text
  | .boolean tag, stream =>
    stream ++ if tag = true then [char 't', char 'r', char 'u', char 'e']
      else [char 'f', char 'a', char 'l', char 's', char 'e']
  | .integer tag, stream => stream ++ tag.output
  | .string tag, stream => stream ++ [quotes] ++ insertEscapedContent signedChar tag ++ [quotes]
  | .subObject calls, stream =>
    JsonObjectFormatter.destruct (calls.run signedChar (JsonObjectFormatter.construct stream))
  | .subArray calls, stream =>
    JsonArrayFormatter.destruct (calls.run signedChar (JsonArrayFormatter.construct stream))

def ObjectCalls.run (signedChar : Bool) : ObjectCalls → Formatter → Formatter
  | .nil, formatter => formatter
  | .add tagName content rest, formatter =>
    let formatter := formatter.insertSeparation.insertTagName tagName
    rest.run signedChar { formatter with stream := content.write signedChar formatter.stream }

def ArrayCalls.run (signedChar : Bool) : ArrayCalls → Formatter → Formatter
  | .nil, formatter => formatter
  | .add content rest, formatter =>
    let formatter := formatter.insertSeparation
    rest.run signedChar { formatter with stream := content.write signedChar formatter.stream }

end

/-- The output of a formatter that is constructed, called and destructed. -/
def ObjectCalls.output (calls : ObjectCalls) : Text :=
  JsonObjectFormatter.destruct (calls.run signedChar (JsonObjectFormatter.construct []))

def ArrayCalls.output (calls : ArrayCalls) : Text :=
  JsonArrayFormatter.destruct (calls.run signedChar (JsonArrayFormatter.construct []))

end Json
