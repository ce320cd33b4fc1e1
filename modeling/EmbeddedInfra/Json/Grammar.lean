import EmbeddedInfra.Json.JsonTokenizer

/-! JSON as its standard has it: trees of values, and the texts that stand for them. -/

namespace Json

inductive Kind
  | object
  | array
  deriving DecidableEq

namespace Grammar

inductive Space
  | space
  | tab
  | lineFeed
  | carriageReturn

def Space.character : Space → UInt8
  | .space => 32
  | .tab => 9
  | .lineFeed => 10
  | .carriageReturn => 13

abbrev Digit := Fin 10

def digit (digit : Digit) : UInt8 := UInt8.ofNat (48 + digit.val)

/-- The digits before a fraction; no other than a single one begins with 0. -/
inductive Whole
  | zero
  | nonzero (first : Fin 9) (others : List Digit)

def Whole.digits : Whole → List Digit
  | .zero => [0]
  | .nonzero first others => first.succ :: others

structure Fraction where
  first : Digit
  others : List Digit

def Fraction.text (fraction : Fraction) : Text :=
  dot :: digit fraction.first :: fraction.others.map digit

inductive Sign
  | plus
  | minus

def Sign.character : Sign → UInt8
  | .plus => char '+'
  | .minus => Json.minus

structure Exponent where
  capital : Bool
  sign : Option Sign
  first : Digit
  others : List Digit

def Exponent.text (exponent : Exponent) : Text :=
  (if exponent.capital then char 'E' else char 'e') ::
    ((exponent.sign.map Sign.character).toList ++ digit exponent.first :: exponent.others.map digit)

structure Number where
  negative : Bool
  whole : Whole
  fraction : Option Fraction
  exponent : Option Exponent

namespace Number

def text (number : Number) : Text :=
  (if number.negative then [minus] else []) ++ (number.whole.digits.map digit ++
    ((number.fraction.map Fraction.text).getD [] ++ (number.exponent.map Exponent.text).getD []))

/-- The number without its fraction and its exponent. -/
def value (number : Number) : Int :=
  let whole : Nat := number.whole.digits.foldl (fun whole digit => whole * 10 + digit.val) 0
  if number.negative then -whole else whole

def bareExponent (number : Number) : Bool := number.fraction.isNone && number.exponent.isSome

end Number

inductive Escape
  | quotationMark
  | reverseSolidus
  | solidus
  | backspace
  | formFeed
  | lineFeed
  | carriageReturn
  | tab

namespace Escape

def character : Escape → UInt8
  | .quotationMark => quotes
  | .reverseSolidus => backslash
  | .solidus => char '/'
  | .backspace => char 'b'
  | .formFeed => char 'f'
  | .lineFeed => char 'n'
  | .carriageReturn => char 'r'
  | .tab => char 't'

def value : Escape → UInt8
  | .quotationMark => quotes
  | .reverseSolidus => backslash
  | .solidus => char '/'
  | .backspace => 8
  | .formFeed => 12
  | .lineFeed => 10
  | .carriageReturn => 13
  | .tab => 9

end Escape

structure HexDigit where
  character : UInt8
  value : UInt8
  isDigit : JsonString.hexDigit character = some value

inductive Character
  | unescaped (character : UInt8) (permitted : 32 ≤ character ∧ character ≠ quotes ∧ character ≠ backslash)
  | escaped (escape : Escape)
  | unicode (first second third fourth : HexDigit)

namespace Character

def text : Character → Text
  | .unescaped character _ => [character]
  | .escaped escape => [backslash, escape.character]
  | .unicode first second third fourth =>
    [backslash, char 'u', first.character, second.character, third.character, fourth.character]

def code (digits : List HexDigit) : BitVec 16 :=
  digits.foldl (fun code digit => code * 16 + BitVec.ofNat 16 digit.value.toNat) 0

/-- A unicode value stands for the character of its last 8 bits. -/
def value : Character → UInt8
  | .unescaped character _ => character
  | .escaped escape => escape.value
  | .unicode first second third fourth => UInt8.ofNat (code [first, second, third, fourth]).toNat

def isUnicode : Character → Bool
  | .unicode .. => true
  | _ => false

end Character

inductive Literal
  | true_
  | false_
  | null

def Literal.text : Literal → Text
  | .true_ => [char 't', char 'r', char 'u', char 'e']
  | .false_ => [char 'f', char 'a', char 'l', char 's', char 'e']
  | .null => [char 'n', char 'u', char 'l', char 'l']

mutual

inductive Value
  | string (characters : List Character)
  | number (number : Number)
  | literal (literal : Literal)
  | object (members : Members)
  | array (elements : Elements)

inductive Members
  | nil
  | cons (tag : List Character) (value : Value) (members : Members)

inductive Elements
  | nil
  | cons (value : Value) (elements : Elements)

end

/-- The tokens of the standard. -/
inductive Lexeme
  | colon
  | comma
  | opening (kind : Kind)
  | closing (kind : Kind)
  | string (characters : List Character)
  | number (number : Number)
  | literal (literal : Literal)

def Lexeme.text : Lexeme → Text
  | .colon => [Json.colon]
  | .comma => [Json.comma]
  | .opening .object => [leftBrace]
  | .opening .array => [leftBracket]
  | .closing .object => [rightBrace]
  | .closing .array => [rightBracket]
  | .string characters => quotes :: (characters.flatMap Character.text ++ [quotes])
  | .number value => value.text
  | .literal value => value.text

mutual

def Value.lexemes : Value → List Lexeme
  | .string characters => [.string characters]
  | .number number => [.number number]
  | .literal literal => [.literal literal]
  | .object members => .opening .object :: (members.lexemes false ++ [.closing .object])
  | .array elements => .opening .array :: (elements.lexemes false ++ [.closing .array])

/-- The members of an object, `separated` from others before them by a comma or not. -/
def Members.lexemes (separated : Bool) : Members → List Lexeme
  | .nil => []
  | .cons tag value members =>
    (if separated then [.comma] else []) ++
      (.string tag :: .colon :: (value.lexemes ++ members.lexemes true))

def Elements.lexemes (separated : Bool) : Elements → List Lexeme
  | .nil => []
  | .cons value elements =>
    (if separated then [.comma] else []) ++ (value.lexemes ++ elements.lexemes true)

end

/-- The spaces before each lexeme. -/
abbrev Spacing := Nat → List Space

def textFrom (spacing : Spacing) : Nat → List Lexeme → Text
  | _, [] => []
  | written, lexeme :: lexemes =>
    (spacing written).map Space.character ++ (lexeme.text ++ textFrom spacing (written + 1) lexemes)

theorem textFrom_append (spacing : Spacing) (written : Nat) (first second : List Lexeme) :
    textFrom spacing written (first ++ second) =
      textFrom spacing written first ++ textFrom spacing (written + first.length) second := by
  induction first generalizing written with
  | nil => rfl
  | cons lexeme first ih =>
    simp only [List.cons_append, textFrom, ih, List.append_assoc, List.length_cons]
    rw [Nat.add_right_comm, Nat.add_assoc written]

mutual

def Value.nesting (kind : Kind) : Value → Nat
  | .object members => (if kind = .object then 1 else 0) + members.nesting kind
  | .array elements => (if kind = .array then 1 else 0) + elements.nesting kind
  | _ => 0

def Members.nesting (kind : Kind) : Members → Nat
  | .nil => 0
  | .cons _ value members => max (value.nesting kind) (members.nesting kind)

def Elements.nesting (kind : Kind) : Elements → Nat
  | .nil => 0
  | .cons value elements => max (value.nesting kind) (elements.nesting kind)

end

def Lexeme.nest (kinds : List Kind) : Lexeme → Option (List Kind)
  | .opening kind => some (kind :: kinds)
  | .closing kind =>
    match kinds with
    | [] => none
    | innermost :: kinds => if innermost = kind then some kinds else none
  | _ => some kinds

def nested (kinds : List Kind) (lexemes : List Lexeme) : Option (List Kind) :=
  lexemes.foldlM Lexeme.nest kinds

theorem nested_append (kinds : List Kind) (first second : List Lexeme) :
    nested kinds (first ++ second) = (nested kinds first).bind (nested · second) :=
  List.foldlM_append

theorem nested_outer {inner inner' : List Kind} (outer : List Kind) {lexemes : List Lexeme}
    (balanced : nested inner lexemes = some inner') :
    nested (inner ++ outer) lexemes = some (inner' ++ outer) := by
  induction lexemes generalizing inner with
  | nil =>
    obtain rfl : inner = inner' := Option.some.inj balanced
    rfl
  | cons lexeme lexemes ih =>
    obtain ⟨between, nest, others⟩ := Option.bind_eq_some_iff.mp balanced
    have nest' : lexeme.nest (inner ++ outer) = some (between ++ outer) := by
      cases lexeme with
      | colon | comma | string | number | literal | opening =>
        obtain rfl := Option.some.inj nest
        rfl
      | closing kind =>
        cases inner with
        | nil => cases nest
        | cons innermost inner =>
          simp only [List.cons_append, Lexeme.nest] at nest ⊢
          split at nest
          next same =>
            obtain rfl := Option.some.inj nest
            exact if_pos same
          · cases nest
    exact Option.bind_eq_some_iff.mpr ⟨between ++ outer, nest', ih others⟩

theorem nested_container (kind : Kind) {content : List Lexeme}
    (balanced : ∀ kinds, nested kinds content = some kinds) (kinds : List Kind) :
    nested kinds (.opening kind :: (content ++ [.closing kind])) = some kinds := by
  have closed : nested (kind :: kinds) [.closing kind] = some kinds := by
    simp [nested, Lexeme.nest]
  calc nested kinds (.opening kind :: (content ++ [.closing kind]))
      = nested (kind :: kinds) (content ++ [.closing kind]) := rfl
    _ = nested (kind :: kinds) [.closing kind] := by
        rw [nested_append, balanced, Option.bind_some]
    _ = some kinds := closed

mutual

theorem nested_value (value : Value) (kinds : List Kind) :
    nested kinds value.lexemes = some kinds := by
  cases value with
  | string | number | literal => rfl
  | object members =>
    exact nested_container .object (fun kinds => nested_members members false kinds) kinds
  | array elements =>
    exact nested_container .array (fun kinds => nested_elements elements false kinds) kinds

theorem nested_members (members : Members) (separated : Bool) (kinds : List Kind) :
    nested kinds (members.lexemes separated) = some kinds := by
  cases members with
  | nil => rfl
  | cons tag value members =>
    have others : nested kinds (value.lexemes ++ members.lexemes true) = some kinds := by
      rw [nested_append, nested_value, Option.bind_some, nested_members]
    cases separated <;> exact others

theorem nested_elements (elements : Elements) (separated : Bool) (kinds : List Kind) :
    nested kinds (elements.lexemes separated) = some kinds := by
  cases elements with
  | nil => rfl
  | cons value elements =>
    have others : nested kinds (value.lexemes ++ elements.lexemes true) = some kinds := by
      rw [nested_append, nested_value, Option.bind_some, nested_elements]
    cases separated <;> exact others

end

end Grammar

end Json
