import EmbeddedInfra.Json.Grammar
import EmbeddedInfra.Json.StreamingTokenizer

/-! The parser that is fed JSON piece by piece: the sub parsers of objects and arrays on its
stack, and the callbacks of their visitors. -/

namespace Json.Streaming

open List

/-- How many characters the buffers of a parser hold, and how many sub parsers its stack. -/
structure Buffers where
  maxTagLength : Nat
  maxValueLength : Nat
  maxObjectNesting : Nat

/-- The states of a sub parser; `tagClosed` and `valueExpected` are for objects only. -/
inductive State
  | init
  | initialOpen
  | open
  | tagClosed
  | valueExpected
  | closed
  | skipNestedObject
  | skipNestedArray
  | parseError
  | semanticError
  deriving DecidableEq

structure JsonSubParser where
  kind : Kind
  tagBuffer : Text
  tokenizer : Tokenizer
  state : State
  skipSubObjects : BitVec 32 := 0

/-- What a visitor is called with; a tag is for the visitor of an object only. -/
inductive Event
  | visitString (tag : Option Text) (value : Text)
  | visitNumber (tag : Option Text) (value : BitVec 64)
  | visitBoolean (tag : Option Text) (value : Bool)
  | visitNull (tag : Option Text)
  | visitObject (tag : Option Text)
  | visitArray (tag : Option Text)
  | close
  | stringOverflow
  | parseError
  | semanticError
  deriving DecidableEq

/-- A call of the visitor of the sub parser at this place on the stack, the first being 0. -/
structure Callback where
  subObject : Nat
  event : Event
  deriving DecidableEq

/-- What visitors do in a callback: return a visitor for a nested object or array or not, and
call `SemanticError` of the sub parsers at some places on the stack. -/
structure Reaction where
  nested : Bool
  semanticErrors : List Nat

/-- Visitors react according to all callbacks so far. -/
abbrev Visitors := List Callback → Reaction

/-- The last sub parser of `subObjects` comes first in the list. -/
structure StreamingParser where
  buffers : Buffers
  subObjects : List JsonSubParser
  callbacks : List Callback := []

namespace StreamingParser

variable (visitors : Visitors) (parser : StreamingParser)

/-- `SemanticError` of the sub parser at a place on the stack. -/
def SemanticError : List JsonSubParser → Nat → List JsonSubParser
  | [], _ => []
  | subParser :: subObjects, place =>
    if subObjects.length = place then { subParser with state := .semanticError } :: subObjects
    else subParser :: SemanticError subObjects place

/-- A callback, and what the visitors do in it. -/
def call (subObject : Nat) (event : Event) : StreamingParser :=
  let callbacks := parser.callbacks ++ [⟨subObject, event⟩]
  { parser with
    callbacks
    subObjects := (visitors callbacks).semanticErrors.foldl SemanticError parser.subObjects }

def returned : Bool := (visitors parser.callbacks).nested

def full : Bool := decide (parser.buffers.maxObjectNesting ≤ parser.subObjects.length)

def visit (event : Event) : StreamingParser :=
  parser.call visitors (parser.subObjects.length - 1) event

def modifyBack (change : JsonSubParser → JsonSubParser) : StreamingParser :=
  { parser with subObjects := parser.subObjects.modifyHead change }

def pop_back : StreamingParser := { parser with subObjects := parser.subObjects.tail }

def report (event : Event) : List Nat → StreamingParser → StreamingParser
  | [], parser => { parser with subObjects := [] }
  | subObject :: subObjects, parser =>
    report event subObjects (parser.call visitors subObject event)

def ReportParseError : StreamingParser :=
  report visitors .parseError (List.range parser.subObjects.length).reverse parser

def ReportSemanticError : StreamingParser :=
  report visitors .semanticError (List.range parser.subObjects.length).reverse.tail parser

end StreamingParser

/-- A token leaves the sub parser in its `Feed`, or makes it return. -/
inductive Outcome
  | goesOn (parser : StreamingParser)
  | returns (parser : StreamingParser)

namespace StreamingParser

variable (visitors : Visitors) (parser : StreamingParser)

def setState (state : State) : StreamingParser := parser.modifyBack ({ · with state })

def clearTag : StreamingParser := parser.modifyBack ({ · with tagBuffer := [] })

/-- The nested sub parser that is constructed for the visitor of a nested object or array. -/
def nestedParser (kind : Kind) (subParser : JsonSubParser) : JsonSubParser :=
  { kind
    tagBuffer := match kind with
      | .object => []
      | .array => subParser.tagBuffer
    tokenizer := { valueBuffer := subParser.tokenizer.valueBuffer }
    state := .initialOpen }

/-- A nested object or array begins: it is skipped if the stack is full or the visitor
returns no visitor for it. An object has given its tag to the visitor and clears it. -/
def nest (kind : Kind) (event : Event) (skip : State) (subParser : JsonSubParser) : StreamingParser :=
  let parser := parser.modifyBack fun subParser =>
    { subParser with
      tokenizer.tokenState := .open
      state := .closed
      tagBuffer := match subParser.kind with
        | .object => []
        | .array => subParser.tagBuffer }
  if parser.full then parser.setState skip
  else
    let parser := { parser with subObjects := nestedParser kind subParser :: parser.subObjects }
    let parser := parser.call visitors (parser.subObjects.length - 2) event
    if parser.returned visitors then parser else parser.pop_back.setState skip

/-- A token of skipped content, between these two tokens. -/
def skipToken (opening closing : Token) (subParser : JsonSubParser) : StreamingParser :=
  if subParser.tokenizer.token = closing then
    if subParser.skipSubObjects = 0 then parser.setState .closed
    else parser.modifyBack fun subParser =>
      { subParser with skipSubObjects := subParser.skipSubObjects - 1 }
  else if subParser.tokenizer.token = opening then
    parser.modifyBack fun subParser =>
      { subParser with skipSubObjects := subParser.skipSubObjects + 1 }
  else parser

/-- `JsonSubObjectParser::Feed` with a token. -/
def objectToken (subParser : JsonSubParser) : Outcome :=
  let tokenizer := subParser.tokenizer
  let tag := some subParser.tagBuffer
  match subParser.state, tokenizer.token with
  | .initialOpen, .string | .initialOpen, .stringOverflow | .open, .string | .open, .stringOverflow =>
    .goesOn (parser.modifyBack fun subParser =>
      { subParser with
        state := .tagClosed
        tagBuffer := tokenizer.valueBuffer.take parser.buffers.maxTagLength })
  | .tagClosed, .colon => .goesOn (parser.setState .valueExpected)
  | .valueExpected, .string =>
    .goesOn ((parser.setState .closed).clearTag.visit visitors (.visitString tag tokenizer.valueBuffer))
  | .valueExpected, .stringOverflow =>
    .goesOn ((parser.setState .closed).clearTag.visit visitors .stringOverflow)
  | .closed, .comma => .goesOn (parser.setState .open)
  | .init, .leftBrace => .goesOn (parser.setState .initialOpen)
  | .init, _ => .goesOn (parser.setState .parseError)
  | .valueExpected, .leftBrace =>
    .returns (parser.nest visitors .object (.visitObject tag) .skipNestedObject subParser)
  | .valueExpected, .leftBracket =>
    .returns (parser.nest visitors .array (.visitArray tag) .skipNestedArray subParser)
  | .valueExpected, .number =>
    .goesOn ((parser.setState .closed).clearTag.visit visitors
      (.visitNumber tag (tokenizer.tokenSign * tokenizer.tokenNumber)))
  | .valueExpected, .false_ =>
    .goesOn ((parser.setState .closed).clearTag.visit visitors (.visitBoolean tag false))
  | .valueExpected, .true_ =>
    .goesOn ((parser.setState .closed).clearTag.visit visitors (.visitBoolean tag true))
  | .valueExpected, .null =>
    .goesOn ((parser.setState .closed).clearTag.visit visitors (.visitNull tag))
  | .initialOpen, .rightBrace | .closed, .rightBrace => .returns (parser.visit visitors .close).pop_back
  | .skipNestedObject, _ => .goesOn (parser.skipToken .leftBrace .rightBrace subParser)
  | .skipNestedArray, _ => .goesOn (parser.skipToken .leftBracket .rightBracket subParser)
  | _, _ => .goesOn (parser.setState .parseError)

/-- `JsonSubArrayParser::Feed` with a token. -/
def arrayToken (subParser : JsonSubParser) : Outcome :=
  let tokenizer := subParser.tokenizer
  match subParser.state, tokenizer.token with
  | .initialOpen, .string | .open, .string =>
    .goesOn ((parser.setState .closed).visit visitors (.visitString none tokenizer.valueBuffer))
  | .initialOpen, .stringOverflow | .open, .stringOverflow =>
    .goesOn ((parser.setState .closed).visit visitors .stringOverflow)
  | .initialOpen, .false_ | .open, .false_ =>
    .goesOn ((parser.setState .closed).visit visitors (.visitBoolean none false))
  | .initialOpen, .true_ | .open, .true_ =>
    .goesOn ((parser.setState .closed).visit visitors (.visitBoolean none true))
  | .initialOpen, .null | .open, .null =>
    .goesOn ((parser.setState .closed).visit visitors (.visitNull none))
  | .initialOpen, .number | .open, .number =>
    .goesOn ((parser.setState .closed).clearTag.visit visitors
      (.visitNumber none (tokenizer.tokenSign * tokenizer.tokenNumber)))
  | .initialOpen, .rightBracket | .closed, .rightBracket =>
    .returns ((parser.setState .closed).visit visitors .close).pop_back
  | .initialOpen, .leftBrace | .open, .leftBrace =>
    .returns (parser.nest visitors .object (.visitObject none) .skipNestedObject subParser)
  | .initialOpen, .leftBracket | .open, .leftBracket =>
    .returns (parser.nest visitors .array (.visitArray none) .skipNestedArray subParser)
  | .init, .leftBracket => .goesOn (parser.setState .initialOpen)
  | .init, _ => .goesOn (parser.setState .parseError)
  | .skipNestedObject, _ => .goesOn (parser.skipToken .leftBrace .rightBrace subParser)
  | .skipNestedArray, _ => .goesOn (parser.skipToken .leftBracket .rightBracket subParser)
  | .closed, .comma => .goesOn (parser.setState .open)
  | _, _ => .goesOn (parser.setState .parseError)

def foundToken (subParser : JsonSubParser) : Outcome :=
  match subParser.kind with
  | .object => parser.objectToken visitors subParser
  | .array => parser.arrayToken visitors subParser

def nextToken : StreamingParser :=
  parser.modifyBack fun subParser =>
    { subParser with tokenizer.valueBuffer := [], tokenizer.tokenState := .open }

/-- After the loop of a `Feed`: errors are reported, and the rest of the data is dropped. -/
def afterLoop (data : Text) : StreamingParser × Text :=
  match parser.subObjects with
  | [] => (parser, data)
  | subParser :: _ =>
    match subParser.state with
    | .parseError => (parser.ReportParseError visitors, [])
    | .semanticError => (parser.ReportSemanticError visitors, [])
    | _ => (parser, data)

end StreamingParser

def pending (subObjects : List JsonSubParser) : Nat :=
  subObjects.countP (decide <| ·.tokenizer.tokenState ≠ .open)

/-- How many of the other sub parsers have begun a token, or of all of them when the sub
parser returns. -/
def Outcome.pending : Outcome → Nat
  | .goesOn parser => Streaming.pending parser.subObjects.tail
  | .returns parser => Streaming.pending parser.subObjects

namespace StreamingParser

variable {visitors : Visitors} {parser next : StreamingParser}

theorem pending_semanticError (subObjects : List JsonSubParser) (place : Nat) :
    pending (SemanticError subObjects place) = pending subObjects ∧
      pending (SemanticError subObjects place).tail = pending subObjects.tail ∧
      (SemanticError subObjects place).length = subObjects.length := by
  induction subObjects with
  | nil => exact ⟨rfl, rfl, rfl⟩
  | cons subParser subObjects ih =>
    simp only [SemanticError]
    split
    · exact ⟨rfl, rfl, rfl⟩
    · refine ⟨?_, ih.1, ?_⟩
      · simp only [pending, countP_cons] at ih ⊢
        rw [ih.1]
      · simp [ih.2.2]

theorem pending_call (visitors : Visitors) (parser : StreamingParser) (subObject : Nat)
    (event : Event) :
    pending (parser.call visitors subObject event).subObjects = pending parser.subObjects ∧
      pending (parser.call visitors subObject event).subObjects.tail = pending parser.subObjects.tail ∧
      (parser.call visitors subObject event).subObjects.length = parser.subObjects.length := by
  simp only [call]
  generalize (visitors _).semanticErrors = places
  generalize parser.subObjects = subObjects
  induction places generalizing subObjects with
  | nil => exact ⟨rfl, rfl, rfl⟩
  | cons place places ih =>
    obtain ⟨all, others, length⟩ := pending_semanticError subObjects place
    obtain ⟨allRest, othersRest, lengthRest⟩ := ih (SemanticError subObjects place)
    exact ⟨allRest.trans all, othersRest.trans others, lengthRest.trans length⟩

theorem tail_modifyBack (parser : StreamingParser) (change : JsonSubParser → JsonSubParser) :
    (parser.modifyBack change).subObjects.tail = parser.subObjects.tail := by
  simp only [modifyBack]
  cases parser.subObjects <;> rfl

theorem pending_open (parser : StreamingParser) {change : JsonSubParser → JsonSubParser}
    (opened : ∀ subParser, (change subParser).tokenizer.tokenState = .open) :
    pending (parser.modifyBack change).subObjects = pending parser.subObjects.tail := by
  simp only [modifyBack]
  cases parser.subObjects with
  | nil => rfl
  | cons subParser subObjects => simp [pending, opened]

theorem pending_modifyBack (parser : StreamingParser) {change : JsonSubParser → JsonSubParser}
    (keeps : ∀ subParser, (change subParser).tokenizer = subParser.tokenizer) :
    pending (parser.modifyBack change).subObjects = pending parser.subObjects := by
  simp only [modifyBack]
  cases parser.subObjects with
  | nil => rfl
  | cons subParser subObjects => simp [pending, countP_cons, keeps]

theorem pending_nest (parser : StreamingParser) (kind : Kind) (event : Event) (skip : State)
    (subParser : JsonSubParser) :
    pending (parser.nest visitors kind event skip subParser).subObjects =
      pending parser.subObjects.tail := by
  have opened (parser : StreamingParser) (state : State) :
      pending (parser.setState state).subObjects = pending parser.subObjects :=
    pending_modifyBack parser fun _ => rfl
  simp only [nest]
  split
  · rw [opened]
    exact pending_open parser fun _ => rfl
  · split
    · rw [(pending_call ..).1]
      simp only [pending, countP_cons]
      exact pending_open parser fun _ => rfl
    · rw [opened]
      refine (pending_call ..).2.1.trans ?_
      exact pending_open parser fun _ => rfl

theorem pending_foundToken (visitors : Visitors) (parser : StreamingParser)
    (subParser : JsonSubParser) :
    (parser.foundToken visitors subParser).pending = pending parser.subObjects.tail := by
  have visited (parser : StreamingParser) (event : Event) :
      pending (parser.visit visitors event).subObjects.tail = pending parser.subObjects.tail :=
    (pending_call ..).2.1
  have changed (parser : StreamingParser) (change : JsonSubParser → JsonSubParser) :
      pending (parser.modifyBack change).subObjects.tail = pending parser.subObjects.tail := by
    rw [tail_modifyBack]
  have skipped (opening closing : Token) :
      pending (parser.skipToken opening closing subParser).subObjects.tail =
        pending parser.subObjects.tail := by
    simp only [skipToken]
    split
    · split <;> exact changed ..
    · split
      · exact changed ..
      · rfl
  simp only [foundToken]
  split
  · simp only [objectToken]
    split <;> simp only [Outcome.pending, visited, setState, clearTag, changed, pending_nest, skipped,
      pop_back]
  · simp only [arrayToken]
    split <;> simp only [Outcome.pending, visited, setState, clearTag, changed, pending_nest, skipped,
      pop_back]

def passes (parser : StreamingParser) (data : Text) : Nat :=
  2 * data.length + pending parser.subObjects

theorem pending_nextToken (parser : StreamingParser) :
    pending parser.nextToken.subObjects = pending parser.subObjects.tail :=
  pending_open parser fun _ => rfl

variable {subParser : JsonSubParser} {subObjects : List JsonSubParser} {data : Text}

theorem passes_token (stack : parser.subObjects = subParser :: subObjects) (maxValueLength : Nat)
    (saveValue : Bool) (some : data ≠ []) :
    2 * (FeedToken maxValueLength saveValue subParser.tokenizer data).2.length + pending subObjects <
      parser.passes data := by
  obtain ⟨shorter, taken, -⟩ :=
    length_feedToken maxValueLength saveValue subParser.tokenizer data
  simp only [passes, stack, pending, countP_cons]
  by_cases open_ : subParser.tokenizer.tokenState = .open
  · have less := taken open_ some
    simp only [open_, ne_eq, not_true, decide_false]
    omega
  · simp only [ne_eq, open_, not_false_eq_true, decide_true, if_true]
    omega

/-- One pass of the loop in the `Feed` of the last sub parser, and the rest of the data. The
loop breaks when the data ends in a token; there is no error to report then. -/
def pass (visitors : Visitors) (parser : StreamingParser) (subParser : JsonSubParser) (data : Text) :
    Outcome × Text :=
  let saveValue := subParser.state ≠ .skipNestedObject ∧ subParser.state ≠ .skipNestedArray
  let (tokenizer, rest) :=
    FeedToken parser.buffers.maxValueLength saveValue subParser.tokenizer data
  let parser := parser.modifyBack ({ · with tokenizer })
  if tokenizer.tokenState ≠ .done then (.returns parser, rest)
  else
    match parser.foundToken visitors { subParser with tokenizer } with
    | .goesOn next => (.goesOn next.nextToken, rest)
    | .returns next => (.returns next, rest)

theorem pass_passes (stack : parser.subObjects = subParser :: subObjects) {rest : Text}
    (some : data ≠ [])
    (passed : parser.pass visitors subParser data = (.goesOn next, rest) ∨
      parser.pass visitors subParser data = (.returns next, rest)) :
    next.passes rest < parser.passes data := by
  have token := passes_token stack parser.buffers.maxValueLength
    (subParser.state ≠ .skipNestedObject ∧ subParser.state ≠ .skipNestedArray) some
  have all := (length_feedToken parser.buffers.maxValueLength
    (subParser.state ≠ .skipNestedObject ∧ subParser.state ≠ .skipNestedArray)
    subParser.tokenizer data).2.2
  revert token all passed
  simp only [pass]
  generalize FeedToken .. = fed
  obtain ⟨tokenizer, left⟩ := fed
  dsimp only
  intro passed token all
  have others : pending (parser.modifyBack ({ · with tokenizer })).subObjects.tail = pending subObjects := by
    rw [tail_modifyBack, stack, tail_cons]
  have found := pending_foundToken visitors (parser.modifyBack ({ · with tokenizer }))
    { subParser with tokenizer }
  rw [others] at found
  revert passed found
  split
  next undone =>
    intro passed _
    obtain ⟨rfl, rfl⟩ : parser.modifyBack ({ · with tokenizer }) = next ∧ left = rest := by
      simpa using passed
    have begun : pending (parser.modifyBack ({ · with tokenizer })).subObjects ≤ 1 + pending subObjects := by
      simp only [modifyBack, stack, modifyHead_cons, pending, countP_cons]
      split <;> omega
    have some := length_pos_of_ne_nil some
    rw [all undone]
    simp only [passes, stack, pending, countP_cons, length_nil] at begun ⊢
    omega
  · cases parser.modifyBack ({ · with tokenizer }) |>.foundToken visitors { subParser with tokenizer } with
    | goesOn after =>
      intro passed found
      obtain ⟨rfl, rfl⟩ : after.nextToken = next ∧ left = rest := by simpa using passed
      rw [passes, pending_nextToken]
      rw [Outcome.pending] at found
      omega
    | returns after =>
      intro passed found
      obtain ⟨rfl, rfl⟩ : after = next ∧ left = rest := by simpa using passed
      rw [passes]
      rw [Outcome.pending] at found
      omega

/-- The loop of the last sub parser's `Feed`, and the rest of the data. -/
def feedLoop (visitors : Visitors) (parser : StreamingParser) (data : Text) : StreamingParser × Text :=
  match _stack : parser.subObjects with
  | [] => (parser, data)
  | subParser :: _ =>
    if _ended : data = [] ∨ subParser.state = .parseError ∨ subParser.state = .semanticError then
      parser.afterLoop visitors data
    else
      match _passed : parser.pass visitors subParser data with
      | (.goesOn next, rest) => feedLoop visitors next rest
      | (.returns next, rest) => (next, rest)
termination_by parser.passes data
decreasing_by exact pass_passes _stack (fun none => _ended (.inl none)) (.inl _passed)

theorem report_subObjects (event : Event) (places : List Nat) (parser : StreamingParser) :
    (report visitors event places parser).subObjects = [] := by
  induction places generalizing parser with
  | nil => rfl
  | cons place places ih => exact ih _

theorem afterLoop_passes (parser : StreamingParser) (data : Text) :
    (parser.afterLoop visitors data).1.passes (parser.afterLoop visitors data).2 ≤ parser.passes data := by
  have reported (event : Event) (places : List Nat) :
      (report visitors event places parser).passes [] ≤ parser.passes data := by
    rw [passes, report_subObjects]
    exact Nat.zero_le _
  simp only [afterLoop]
  split
  · exact le_rfl
  · split
    · exact reported ..
    · exact reported ..
    · exact le_rfl

theorem afterLoop_error (visitors : Visitors) (stack : parser.subObjects = subParser :: subObjects)
    (error : subParser.state = .parseError ∨ subParser.state = .semanticError) :
    ∃ last : StreamingParser, last.subObjects = [] ∧
      ∀ data, parser.afterLoop visitors data = (last, []) := by
  rcases error with error | error
  · refine ⟨parser.ReportParseError visitors, report_subObjects .., fun data => ?_⟩
    simp only [afterLoop, stack, error]
  · refine ⟨parser.ReportSemanticError visitors, report_subObjects .., fun data => ?_⟩
    simp only [afterLoop, stack, error]

theorem feedLoop_empty (stack : parser.subObjects = []) (data : Text) :
    feedLoop visitors parser data = (parser, data) := by
  rw [feedLoop]
  split
  · rfl
  next subParser subObjects stack' => simp [stack] at stack'

theorem feedLoop_ended (stack : parser.subObjects = subParser :: subObjects)
    (ended : data = [] ∨ subParser.state = .parseError ∨ subParser.state = .semanticError) :
    feedLoop visitors parser data = parser.afterLoop visitors data := by
  rw [feedLoop]
  split
  next stack' => simp [stack] at stack'
  next subParser' subObjects' stack' =>
    obtain ⟨rfl, -⟩ := List.cons.inj (stack.symm.trans stack')
    rw [dif_pos ended]

theorem feedLoop_pass (stack : parser.subObjects = subParser :: subObjects)
    (continues : ¬ (data = [] ∨ subParser.state = .parseError ∨ subParser.state = .semanticError)) :
    feedLoop visitors parser data =
      match parser.pass visitors subParser data with
      | (.goesOn next, rest) => feedLoop visitors next rest
      | (.returns next, rest) => (next, rest) := by
  rw [feedLoop]
  split
  next stack' => simp [stack] at stack'
  next subParser' subObjects' stack' =>
    obtain ⟨rfl, -⟩ := List.cons.inj (stack.symm.trans stack')
    rw [dif_neg continues]
    split
    next next rest passed => rw [passed]
    next next rest passed => rw [passed]

theorem feedLoop_passes (visitors : Visitors) (parser : StreamingParser) (data : Text) :
    (feedLoop visitors parser data).1.passes (feedLoop visitors parser data).2 ≤ parser.passes data ∧
      (data ≠ [] → parser.subObjects ≠ [] →
        (feedLoop visitors parser data).1.passes (feedLoop visitors parser data).2 <
          parser.passes data) := by
  induction measure : parser.passes data using Nat.strong_induction_on generalizing parser data with
  | _ count ih =>
    cases stack : parser.subObjects with
    | nil =>
      rw [feedLoop_empty stack]
      exact ⟨measure.le, fun _ filled => absurd rfl filled⟩
    | cons subParser subObjects =>
      by_cases ended : data = [] ∨ subParser.state = .parseError ∨ subParser.state = .semanticError
      · rw [feedLoop_ended stack ended]
        refine ⟨measure ▸ afterLoop_passes parser data, fun some _ => ?_⟩
        obtain ⟨last, empty, reported⟩ :=
          afterLoop_error visitors stack (ended.resolve_left some)
        have some := length_pos_of_ne_nil some
        rw [reported data, ← measure]
        simp only [passes, empty, pending, countP_nil, length_nil]
        omega
      · rw [feedLoop_pass stack ended]
        have some : data ≠ [] := fun none => ended (.inl none)
        have less : ∀ next rest, parser.pass visitors subParser data = (.goesOn next, rest) ∨
            parser.pass visitors subParser data = (.returns next, rest) →
              next.passes rest < count :=
          fun next rest passed => measure ▸ pass_passes stack some passed
        revert less
        obtain ⟨outcome, rest⟩ := parser.pass visitors subParser data
        intro less
        cases outcome with
        | goesOn next =>
          have smaller := less next rest (.inl rfl)
          have weak := (ih _ smaller next rest rfl).1
          dsimp only
          exact ⟨by omega, fun _ _ => by omega⟩
        | returns next =>
          have smaller := less next rest (.inr rfl)
          exact ⟨smaller.le, fun _ _ => smaller⟩

/-- `JsonStreamingObjectParser::Feed`, and that of the parser of an array. -/
def Feed (visitors : Visitors) (parser : StreamingParser) (data : Text) : StreamingParser :=
  if _continues : data ≠ [] ∧ parser.subObjects ≠ [] then
    Feed visitors (feedLoop visitors parser data).1 (feedLoop visitors parser data).2
  else parser
termination_by parser.passes data
decreasing_by exact (feedLoop_passes visitors parser data).2 _continues.1 _continues.2

/-- A `JsonStreamingObjectParser` or a `JsonStreamingArrayParser` that has been constructed. -/
def constructed (buffers : Buffers) (kind : Kind) : StreamingParser :=
  { buffers, subObjects := [{ kind, tagBuffer := [], tokenizer := {}, state := .init }] }

end StreamingParser

end Json.Streaming
