import EmbeddedInfra.Json.StreamingChunks
import EmbeddedInfra.Json.StreamingLexemes

/-! How deep a streaming parser is in JSON, compared with how deep the JSON itself is. -/

namespace Json.Streaming

open Grammar List Tokenizer

/-- Visitors that find nothing wrong in what they are told. -/
def Quiet (visitors : Visitors) : Prop := ∀ callbacks, (visitors callbacks).semanticErrors = []

/-- A tokenizer outside strings. -/
structure Tokenizer.Neutral (tokenizer : Tokenizer) : Prop where
  state : tokenizer.tokenState = .open ∨ tokenizer.tokenState = .numberOpen ∨
    tokenizer.tokenState = .numberFractionalOpen ∨ tokenizer.tokenState = .numberExponentOpen ∨
    tokenizer.tokenState = .identifierOpen
  value : tokenizer.tokenState ≠ .identifierOpen → tokenizer.valueBuffer = []
  index : tokenizer.unicodeIndex = 0
  unicode : tokenizer.unicode = 0

theorem Tokenizer.Ready.neutral {tokenizer : Tokenizer} (ready : tokenizer.Ready) : tokenizer.Neutral :=
  ⟨.inl ready.state, fun _ => ready.value, ready.index, ready.unicode⟩

/-- Whether a token neither begins nor ends an object or an array. -/
def Token.Plain (token : Token) : Prop :=
  token ≠ .leftBrace ∧ token ≠ .rightBrace ∧ token ≠ .leftBracket ∧ token ≠ .rightBracket

instance (token : Token) : Decidable token.Plain := inferInstanceAs (Decidable (_ ∧ _))

/-- Whether a character outside strings neither begins a string nor begins or ends an object or
an array. -/
def Plain (c : UInt8) : Prop :=
  c ≠ quotes ∧ c ≠ leftBrace ∧ c ≠ rightBrace ∧ c ≠ leftBracket ∧ c ≠ rightBracket

instance (c : UInt8) : Decidable (Plain c) := inferInstanceAs (Decidable (_ ∧ _))

variable {maxValueLength : Nat} {saveValue : Bool} {tokenizer : Tokenizer}

theorem neutral_step (saveValue : Bool) (neutral : tokenizer.Neutral) (room : 0 < maxValueLength)
    {c : UInt8} (plain : Plain c) :
    ((tokenizer.step maxValueLength saveValue c).2 = true ∧
      (tokenizer.step maxValueLength saveValue c).1.Neutral) ∨
    ∃ token value, token.Plain ∧ (tokenizer.step maxValueLength saveValue c).1.Found token value ∧
      ((tokenizer.step maxValueLength saveValue c).2 = false → tokenizer.tokenState ≠ .open) := by
  obtain ⟨state, value, index, unicode⟩ := neutral
  obtain ⟨quotes_, leftBrace_, rightBrace_, leftBracket_, rightBracket_⟩ := plain
  have found (token : Token) (plain : token.Plain) :
      ∃ found value, found.Plain ∧ (tokenizer.FoundToken token).Found found value :=
    ⟨token, _, plain, rfl, rfl, rfl, index, unicode⟩
  have identified : tokenizer.identifier.Plain := by
    simp only [identifier]
    repeat' split
    all_goals decide
  rcases state with state | state | state | state | state
  · have empty := value (by simp [state])
    have some : maxValueLength ≠ 0 := by omega
    have open_ (state : TokenState) (sign number : BitVec 64) (pending : state = .numberOpen) :
        { tokenizer with tokenState := state, tokenSign := sign, tokenNumber := number }.Neutral :=
      ⟨.inr (.inl pending), fun _ => empty, index, unicode⟩
    simp only [step, state, beginToken, quotes_, leftBrace_, rightBrace_,
      leftBracket_, rightBracket_, some, if_false, Bool.true_eq_false, false_implies, and_true, true_and]
    repeat' split
    next => exact .inl ⟨.inl state, value, index, unicode⟩
    next => exact .inr (found .colon (by decide))
    next => exact .inr (found .comma (by decide))
    next => exact .inl (open_ .numberOpen _ _ rfl)
    next => exact .inl ⟨.inr (.inr (.inr (.inr rfl))), fun other => absurd rfl other, index, unicode⟩
    next => exact .inl (open_ .numberOpen _ _ rfl)
    next => exact .inr (found .error (by decide))
  · have empty := value (by simp [state])
    simp only [step, state]
    repeat' split
    next => exact .inl ⟨rfl, .inr (.inl rfl), fun _ => empty, index, unicode⟩
    next => exact .inl ⟨rfl, .inr (.inr (.inl rfl)), fun _ => empty, index, unicode⟩
    next =>
      obtain ⟨token, value, plain, found⟩ := found .number (by decide)
      exact .inr ⟨token, value, plain, found, fun _ => by simp⟩
  · have empty := value (by simp [state])
    simp only [step, state]
    repeat' split
    next => exact .inl ⟨rfl, .inr (.inr (.inl state)), value, index, unicode⟩
    next => exact .inl ⟨rfl, .inr (.inr (.inr (.inl rfl))), fun _ => empty, index, unicode⟩
    next =>
      obtain ⟨token, value, plain, found⟩ := found .number (by decide)
      exact .inr ⟨token, value, plain, found, fun _ => by simp⟩
  · simp only [step, state]
    repeat' split
    next => exact .inl ⟨rfl, .inr (.inr (.inr (.inl state))), value, index, unicode⟩
    next =>
      obtain ⟨token, value, plain, found⟩ := found .number (by decide)
      exact .inr ⟨token, value, plain, found, fun _ => by simp⟩
  · simp only [step, state, Tokenizer.AddToValueBuffer, Bool.false_eq_true, if_false]
    repeat' split
    next =>
      obtain ⟨token, value, plain, found⟩ := found .error (by decide)
      exact .inr ⟨token, value, plain, found, fun _ => by simp⟩
    next =>
      exact .inl ⟨rfl, .inr (.inr (.inr (.inr rfl))), fun other => absurd rfl other, index, unicode⟩
    next => exact .inl ⟨rfl, .inr (.inr (.inr (.inr state))), value, index, unicode⟩
    next =>
      obtain ⟨token, value, plain, found⟩ := found _ identified
      exact .inr ⟨token, value, plain, found, fun _ => by simp⟩

theorem neutral_delimits (maxValueLength : Nat) (saveValue : Bool) (neutral : tokenizer.Neutral)
    {c : UInt8} (delimits : Delimits c) :
    tokenizer.Ready ∨ ∃ token value last, token.Plain ∧ last.Found token value ∧
      ∀ rest, FeedToken maxValueLength saveValue tokenizer (c :: rest) = (last, c :: rest) := by
  obtain ⟨state, value, index, unicode⟩ := neutral
  have identified : tokenizer.identifier.Plain := by
    simp only [identifier]
    repeat' split
    all_goals decide
  have kept (token : Token) (plain : token.Plain)
      (step : tokenizer.step maxValueLength saveValue c = (tokenizer.FoundToken token, false)) :
      tokenizer.Ready ∨ ∃ token value last, token.Plain ∧ last.Found token value ∧
        ∀ rest, FeedToken maxValueLength saveValue tokenizer (c :: rest) = (last, c :: rest) := by
    refine .inr ⟨token, _, tokenizer.FoundToken token, plain, ⟨rfl, rfl, rfl, index, unicode⟩,
      fun rest => ?_⟩
    rw [feedToken_kept (by rw [step]), step]
  rcases state with state | state | state | state | state
  · exact .inl ⟨state, value (by simp [state]), index, unicode⟩
  · apply kept .number (by decide)
    simp only [step, state, delimits.digit, delimits.dot, Bool.false_eq_true, if_false]
  · apply kept .number (by decide)
    simp only [step, state, delimits.digit, delimits.exponent, Bool.false_eq_true, if_false]
  · apply kept .number (by decide)
    have delimited : ¬ (isDigit c = true ∨ c = char '+' ∨ c = minus) := by
      rintro (isDigit | plus | minus)
      · simp [delimits.digit] at isDigit
      · exact delimits.plus plus
      · exact delimits.minus minus
    simp only [step, state, delimited, if_false]
  · apply kept _ identified
    simp only [step, state, delimits.alpha, Bool.false_eq_true, if_false]

namespace StreamingParser

variable {visitors : Visitors} {buffers : Buffers} {s : JsonSubParser} {others : List JsonSubParser}
  {callbacks : List Callback}

theorem call_quiet (quiet : Quiet visitors) (parser : StreamingParser) (subObject : Nat)
    (event : Event) :
    parser.call visitors subObject event =
      { parser with callbacks := parser.callbacks ++ [⟨subObject, event⟩] } := by
  rw [call, quiet]
  rfl

theorem visit_quiet (quiet : Quiet visitors) (event : Event) :
    visit visitors ⟨buffers, s :: others, callbacks⟩ event =
      ⟨buffers, s :: others, callbacks ++ [⟨others.length, event⟩]⟩ :=
  call_quiet quiet ..

def Ended (parser : StreamingParser) : Prop :=
  parser.subObjects = [] ∧
    ∃ callback ∈ parser.callbacks, callback.event = .parseError ∨ callback = ⟨0, .close⟩

def saves (s : JsonSubParser) : Bool := s.state ≠ .skipNestedObject ∧ s.state ≠ .skipNestedArray

def Sound (s : JsonSubParser) : Prop := ¬ (s.state = .parseError ∨ s.state = .semanticError)

/-- What becomes of a token that the last sub parser has found, and of the data after it. -/
def tokenFed (visitors : Visitors) (parser : StreamingParser) (s : JsonSubParser) (rest : Text) :
    StreamingParser :=
  match parser.foundToken visitors s with
  | .goesOn next => drive visitors next.nextToken rest
  | .returns next => Feed visitors next rest

variable {tokenizer : Tokenizer} {c : UInt8} {parent kind : Kind} {depth : BitVec 32} {value : Text}
  {inner : List Kind} {lexeme : Lexeme}

theorem feed_token (sound : Sound s) {data rest : Text} (some : data ≠ [])
    (fed : FeedToken buffers.maxValueLength (saves s) s.tokenizer data = (tokenizer, rest))
    (done : tokenizer.tokenState = .done) :
    Feed visitors ⟨buffers, s :: others, callbacks⟩ data =
      tokenFed visitors ⟨buffers, { s with tokenizer } :: others, callbacks⟩ { s with tokenizer } rest := by
  have passed : pass visitors ⟨buffers, s :: others, callbacks⟩ s data =
      match foundToken visitors ⟨buffers, { s with tokenizer } :: others, callbacks⟩ { s with tokenizer } with
      | .goesOn next => (.goesOn next.nextToken, rest)
      | .returns next => (.returns next, rest) := by
    rw [saves] at fed
    simp only [pass, fed, done, ne_eq, not_true, if_false, modifyBack, modifyHead_cons] <;> rfl
  rw [feed_drive _ some, drive_pass rfl sound some, passed, tokenFed]
  cases foundToken visitors ⟨buffers, { s with tokenizer } :: others, callbacks⟩ { s with tokenizer } <;> rfl

theorem feed_pending (sound : Sound s) {data : Text} (some : data ≠ [])
    (fed : FeedToken buffers.maxValueLength (saves s) s.tokenizer data = (tokenizer, []))
    (pending : tokenizer.tokenState ≠ .done) :
    Feed visitors ⟨buffers, s :: others, callbacks⟩ data =
      ⟨buffers, { s with tokenizer } :: others, callbacks⟩ := by
  have passed : pass visitors ⟨buffers, s :: others, callbacks⟩ s data =
      (.returns ⟨buffers, { s with tokenizer } :: others, callbacks⟩, []) := by
    rw [saves] at fed
    simp only [pass, fed, pending, ne_eq, not_false_eq_true, if_true, modifyBack, modifyHead_cons]
  rw [feed_drive _ some, drive_pass rfl sound some, passed]
  exact feed_nil _

theorem drive_sound (sound : Sound s) (rest : Text) :
    drive visitors ⟨buffers, s :: others, callbacks⟩ rest =
      Feed visitors ⟨buffers, s :: others, callbacks⟩ rest := by
  by_cases rest = []
  next none => rw [none, drive_nil rfl sound, feed_nil]
  next some => rw [feed_drive _ some]

theorem report_told (quiet : Quiet visitors) (event : Event) (places : List Nat)
    (parser : StreamingParser) {callback : Callback}
    (told : callback ∈ parser.callbacks ∨ places ≠ [] ∧ ∃ place ∈ places, callback =
      ⟨place, event⟩) :
    callback ∈ (report visitors event places parser).callbacks := by
  induction places generalizing parser with
  | nil => simpa [report] using told
  | cons place places ih =>
    rw [report, call_quiet quiet]
    apply ih
    rcases told with before | ⟨-, other, member, rfl⟩
    · exact .inl (mem_append_left _ before)
    · rcases mem_cons.mp member with rfl | member
      · exact .inl (mem_append_right _ (mem_singleton_self _))
      · exact .inr ⟨ne_nil_of_mem member, other, member, rfl⟩

theorem drive_parseError (quiet : Quiet visitors) (error : s.state = .parseError) :
    ∃ last : StreamingParser, last.Ended ∧
      ∀ rest, drive visitors ⟨buffers, s :: others, callbacks⟩ rest = last := by
  refine ⟨ReportParseError visitors ⟨buffers, s :: others, callbacks⟩,
    ⟨report_subObjects .., ⟨0, .parseError⟩, ?_, .inl rfl⟩, fun rest => ?_⟩
  · apply report_told quiet
    exact .inr ⟨by simp, 0, by simp, rfl⟩
  · rw [drive, feedLoop_ended rfl (.inr (.inl error))]
    simp only [afterLoop, error, feed_nil]

/-! ### Outside objects and arrays that are skipped -/

/-- The sub parser is outside skipped content. -/
structure Visits (s : JsonSubParser) : Prop where
  sound : Sound s
  visited : saves s = true
  skips : s.skipSubObjects = 0

theorem visits_state (visits : Visits s) {state : State} {tagBuffer : Text}
    (visited : state ≠ .skipNestedObject ∧ state ≠ .skipNestedArray)
    (sound : state ≠ .parseError ∧ state ≠ .semanticError) :
    Visits { s with state, tagBuffer, tokenizer } :=
  ⟨fun error => error.elim sound.1 sound.2, by simpa [saves] using visited, visits.skips⟩

theorem visits_found (buffers : Buffers) (others : List JsonSubParser) (callbacks : List Callback)
    (quiet : Quiet visitors) (visits : Visits s) (plain : s.tokenizer.token.Plain) :
    ∃ state tagBuffer callbacks',
      foundToken visitors ⟨buffers, s :: others, callbacks⟩ s =
        .goesOn ⟨buffers, { s with state, tagBuffer } :: others, callbacks'⟩ ∧
      (state = .parseError ∨ s.tokenizer.token ≠ .error ∧
        (state ≠ .skipNestedObject ∧ state ≠ .skipNestedArray) ∧
          state ≠ .parseError ∧ state ≠ .semanticError) := by
  obtain ⟨unskippedObject, unskippedArray⟩ :
      s.state ≠ .skipNestedObject ∧ s.state ≠ .skipNestedArray := by
    simpa [saves] using visits.visited
  clear visits
  obtain ⟨leftBrace_, rightBrace_, leftBracket_, rightBracket_⟩ := plain
  simp only [foundToken]
  split
  all_goals
    simp only [objectToken, arrayToken]
    split
    all_goals
      first
        | exact absurd (by assumption) unskippedObject
        | exact absurd (by assumption) unskippedArray
        | exact absurd (by assumption) leftBrace_
        | exact absurd (by assumption) rightBrace_
        | exact absurd (by assumption) leftBracket_
        | exact absurd (by assumption) rightBracket_
        | exact ⟨.parseError, s.tagBuffer, callbacks, rfl, .inl rfl⟩
        | (simp only [setState, clearTag, modifyBack, modifyHead_cons, visit_quiet quiet]
           refine ⟨_, _, _, rfl, .inr ⟨?_, by simp, by simp⟩⟩
           simp [*])

/-! ### Lexemes that begin or end nothing -/

/-- What holds of the last sub parser and the callbacks as long as nothing begins or ends, unless
the parser stops. -/
structure Mode (visitors : Visitors) (buffers : Buffers) (others : List JsonSubParser)
    (holds : JsonSubParser → List Callback → Prop) (stops : StreamingParser → Prop) : Prop where
  sound : ∀ {last told}, holds last told → Sound last
  tokenizer : ∀ {last told} (tokenizer : Tokenizer), holds last told → holds { last with tokenizer } told
  ended : ∀ {parser}, stops parser → parser.subObjects = []
  plain : ∀ {last told token value}, holds last told → last.tokenizer.Found token value → token.Plain →
    (∃ next told', holds next told' ∧ next.tokenizer.Ready ∧
      ∀ rest, tokenFed visitors ⟨buffers, last :: others, told⟩ last rest =
        Feed visitors ⟨buffers, next :: others, told'⟩ rest) ∨
    ∃ stopped, stops stopped ∧
      ∀ rest, tokenFed visitors ⟨buffers, last :: others, told⟩ last rest = stopped
  error : ∀ {last told value}, holds last told → saves last = true → last.tokenizer.Found .error value →
    ∃ stopped, stops stopped ∧
      ∀ rest, tokenFed visitors ⟨buffers, last :: others, told⟩ last rest = stopped

def Within (buffers : Buffers) (others : List JsonSubParser)
    (holds : JsonSubParser → List Callback → Prop) (parser : StreamingParser) : Prop :=
  ∃ s callbacks, parser = ⟨buffers, s :: others, callbacks⟩ ∧ holds s callbacks ∧ s.tokenizer.Neutral

variable {holds : JsonSubParser → List Callback → Prop} {stops : StreamingParser → Prop}
  {parser : StreamingParser}

section

variable (mode : Mode visitors buffers others holds stops)

include mode

theorem feed_stopped (stopped : stops parser) (data : Text) :
    stops (Feed visitors parser data) := by
  rw [feed_empty (mode.ended stopped)]
  exact stopped

theorem ready_character (room : 0 < buffers.maxValueLength) (held : holds s callbacks)
    (ready : s.tokenizer.Ready) (plain : Plain c) :
    Within buffers others holds (Feed visitors ⟨buffers, s :: others, callbacks⟩ [c]) ∨
      stops (Feed visitors ⟨buffers, s :: others, callbacks⟩ [c]) := by
  rcases neutral_step (saves s) ready.neutral room plain with
    ⟨taken, neutral⟩ | ⟨token, value, plainToken, found, undone⟩
  · have fed := feedToken_taken taken []
    rw [feedToken_nil] at fed
    left
    rw [feed_pending (mode.sound held) (by simp) fed]
    · exact ⟨_, _, rfl, mode.tokenizer _ held, neutral⟩
    · rcases neutral.state with state | state | state | state | state <;> simp [state]
  · have taken : (s.tokenizer.step buffers.maxValueLength (saves s) c).2 = true := by
      by_contra kept
      exact undone (by simpa using kept) ready.state
    have fed := feedToken_taken taken []
    rw [feedToken_nil] at fed
    rw [feed_token (mode.sound held) (by simp) fed found.state]
    rcases mode.plain (mode.tokenizer _ held) found plainToken with
      ⟨s', callbacks', held', ready', next⟩ | ⟨last, stopped, next⟩
    · left
      rw [next, feed_nil]
      exact ⟨_, _, rfl, held', ready'.neutral⟩
    · right
      rw [next]
      exact stopped

theorem within_character (room : 0 < buffers.maxValueLength)
    (within : Within buffers others holds parser) (plain : Plain c) :
    Within buffers others holds (Feed visitors parser [c]) ∨ stops (Feed visitors parser [c]) := by
  obtain ⟨s, callbacks, rfl, held, neutral⟩ := within
  rcases neutral_step (saves s) neutral room plain with
    ⟨taken, neutral⟩ | ⟨token, value, plainToken, found, -⟩
  · have fed := feedToken_taken taken []
    rw [feedToken_nil] at fed
    left
    rw [feed_pending (mode.sound held) (by simp) fed]
    · exact ⟨_, _, rfl, mode.tokenizer _ held, neutral⟩
    · rcases neutral.state with state | state | state | state | state <;> simp [state]
  · obtain ⟨left, fed, few⟩ : ∃ left,
        FeedToken buffers.maxValueLength (saves s) s.tokenizer [c] =
          ((s.tokenizer.step buffers.maxValueLength (saves s) c).1, left) ∧ (left = [] ∨ left = [c]) := by
      cases taken : (s.tokenizer.step buffers.maxValueLength (saves s) c).2 with
      | true =>
        rw [feedToken_taken taken, feedToken_nil]
        exact ⟨[], rfl, .inl rfl⟩
      | false =>
        rw [feedToken_kept taken]
        exact ⟨[c], rfl, .inr rfl⟩
    rw [feed_token (mode.sound held) (by simp) fed found.state]
    rcases mode.plain (mode.tokenizer _ held) found plainToken with
      ⟨s', callbacks', held', ready, next⟩ | ⟨last, stopped, next⟩
    · rw [next]
      rcases few with rfl | rfl
      · left
        rw [feed_nil]
        exact ⟨_, _, rfl, held', ready.neutral⟩
      · exact ready_character mode room held' ready plain
    · right
      rw [next]
      exact stopped

theorem within_text (room : 0 < buffers.maxValueLength) {text : Text} (plain : ∀ c ∈ text, Plain c)
    (within : Within buffers others holds parser) :
    Within buffers others holds (Feed visitors parser text) ∨ stops (Feed visitors parser text) := by
  induction text generalizing parser with
  | nil =>
    rw [feed_nil]
    exact .inl within
  | cons c text ih =>
    rw [← singleton_append, feed_append]
    rcases within_character mode room within (plain c (by simp)) with within | stopped
    · exact ih (fun c member => plain c (mem_cons_of_mem _ member)) within
    · exact .inr (feed_stopped mode stopped text)

theorem within_delimits (within : Within buffers others holds parser) (delimits : Delimits c) :
    (∃ s callbacks, holds s callbacks ∧ s.tokenizer.Ready ∧
      ∀ rest, Feed visitors parser (c :: rest) =
        Feed visitors ⟨buffers, s :: others, callbacks⟩ (c :: rest)) ∨
    ∃ last, stops last ∧ ∀ rest, Feed visitors parser (c :: rest) = last := by
  obtain ⟨s, callbacks, rfl, held, neutral⟩ := within
  rcases neutral_delimits buffers.maxValueLength (saves s) neutral
    delimits with ready | ⟨token, value, last, plain, found, fed⟩
  · exact .inl ⟨s, callbacks, held, ready, fun _ => rfl⟩
  · have token (rest : Text) : Feed visitors ⟨buffers, s :: others, callbacks⟩ (c :: rest) = _ :=
      feed_token (mode.sound held) (cons_ne_nil c rest) (fed rest) found.state
    rcases mode.plain (mode.tokenizer last held) found plain with
      ⟨s', callbacks', held', ready, next⟩ | ⟨last, stopped, next⟩
    · exact .inl ⟨s', callbacks', held', ready, fun rest => (token rest).trans (next _)⟩
    · exact .inr ⟨last, stopped, fun rest => (token rest).trans (next _)⟩

end

theorem delimits_quotes : Delimits quotes := by constructor <;> decide

theorem within_string (mode : Mode visitors buffers others holds stops)
    (room : 0 < buffers.maxValueLength) (within : Within buffers others holds parser)
    (characters : List Character) :
    Within buffers others holds (Feed visitors parser (Lexeme.string characters).text) ∨
      stops (Feed visitors parser (Lexeme.string characters).text) := by
  have some : (Lexeme.string characters).text ≠ [] := cons_ne_nil _ _
  rcases within_delimits mode within delimits_quotes with
    ⟨s, callbacks, held, ready, begun⟩ | ⟨last, stopped, begun⟩
  swap
  · right
    rw [Lexeme.text, begun]
    exact stopped
  have found {token : Token} {value : Text} {last : Tokenizer} (found : last.Found token value)
      (plain : token.Plain)
      (fed : FeedToken buffers.maxValueLength (saves s) s.tokenizer (Lexeme.string characters).text =
        (last, [])) :
      Within buffers others holds (Feed visitors parser (Lexeme.string characters).text) ∨
        stops (Feed visitors parser (Lexeme.string characters).text) := by
    have token : Feed visitors ⟨buffers, s :: others, callbacks⟩ (Lexeme.string characters).text = _ :=
      feed_token (mode.sound held) some fed found.state
    rw [Lexeme.text, begun, ← Lexeme.text, token]
    rcases mode.plain (mode.tokenizer last held) found plain with
      ⟨s', callbacks', held', ready, next⟩ | ⟨last, stopped, next⟩
    · left
      rw [next, feed_nil]
      exact ⟨_, _, rfl, held', ready.neutral⟩
    · right
      rw [next]
      exact stopped
  cases saved : saves s with
  | false =>
    obtain ⟨last, foundString, fed⟩ := feedToken_string_skipped ready room characters []
    rw [append_nil, ← saved] at fed
    exact found foundString (by decide) fed
  | true =>
    by_cases fits : stringFits buffers.maxValueLength characters
    · obtain ⟨last, foundString, fed⟩ := feedToken_string_fits ready fits []
      rw [append_nil, ← saved] at fed
      refine found foundString ?_ fed
      rw [stringToken]
      split <;> decide
    · obtain ⟨last, value, left, foundError, fed⟩ := feedToken_string_broken ready fits []
      rw [append_nil, ← saved] at fed
      have token :
          Feed visitors ⟨buffers, s :: others, callbacks⟩ (Lexeme.string characters).text = _ :=
        feed_token (mode.sound held) some fed foundError.state
      obtain ⟨stopped, stops, next⟩ := mode.error (mode.tokenizer last held) saved foundError
      right
      rw [Lexeme.text, begun, ← Lexeme.text, token, next]
      exact stops

theorem plain_digit (value : Digit) : Plain (digit value) := by
  fin_cases value <;> decide

theorem plain_number (number : Number) : ∀ c ∈ number.text, Plain c := by
  have digits (others : List Digit) : ∀ c ∈ others.map digit, Plain c := by
    intro c member
    obtain ⟨other, -, rfl⟩ := mem_map.mp member
    exact plain_digit other
  intro c member
  rw [Number.text, mem_append, mem_append, mem_append] at member
  rcases member with member | member | member | member
  · split at member
    · rw [mem_singleton] at member
      rw [member]
      decide
    · simp at member
  · exact digits _ c member
  · cases fraction : number.fraction with
    | none => simp [fraction] at member
    | some fractional =>
      rw [fraction, Option.map_some, Option.getD_some, Fraction.text] at member
      rcases mem_cons.mp member with rfl | member
      · decide
      · exact digits (fractional.first :: fractional.others) c member
  · cases exponential : number.exponent with
    | none => simp [exponential] at member
    | some exponent =>
      obtain ⟨e, text, written, capital, all⟩ := exponent_digits exponent
      rw [exponential, Option.map_some, Option.getD_some, written] at member
      rcases mem_cons.mp member with rfl | member
      · rcases capital with rfl | rfl <;> decide
      · rcases all c member with isDigit | rfl | rfl
        · refine ⟨?_, ?_, ?_, ?_, ?_⟩ <;>
            exact fun other => absurd (other ▸ isDigit) (by decide)
        · decide
        · decide

theorem plain_of_all {text : Text} (all : text.all (decide <| Plain ·) = true) :
    ∀ c ∈ text, Plain c :=
  fun c member => of_decide_eq_true (all_eq_true.mp all c member)

theorem within_lexeme (mode : Mode visitors buffers others holds stops)
    (room : 0 < buffers.maxValueLength) (within : Within buffers others holds parser) (lexeme : Lexeme)
    (neither : ∀ kind, lexeme ≠ .opening kind ∧ lexeme ≠ .closing kind) :
    Within buffers others holds (Feed visitors parser lexeme.text) ∨
      stops (Feed visitors parser lexeme.text) := by
  cases lexeme with
  | colon | comma => exact within_text mode room (plain_of_all (by decide)) within
  | opening kind => exact absurd rfl (neither kind).1
  | closing kind => exact absurd rfl (neither kind).2
  | string characters => exact within_string mode room within characters
  | number number => exact within_text mode room (plain_number number) within
  | literal literal =>
    refine within_text mode room (plain_of_all ?_) within
    cases literal <;> decide

theorem plain_spaces (spaces : List Space) : ∀ c ∈ spaces.map Space.character, Plain c := by
  intro c member
  obtain ⟨blank, -, rfl⟩ := mem_map.mp member
  cases blank <;> decide

/-! ### Objects and arrays that begin and end -/

def openingToken : Kind → Token
  | .object => .leftBrace
  | .array => .leftBracket

def closingToken : Kind → Token
  | .object => .rightBrace
  | .array => .rightBracket

theorem ready_found (ready : tokenizer.Ready) (token : Token) :
    (tokenizer.FoundToken token).Found token [] :=
  ⟨rfl, rfl, ready.value, ready.index, ready.unicode⟩

theorem feedToken_opening (ready : tokenizer.Ready) (maxValueLength : Nat) (saveValue : Bool)
    (kind : Kind) (rest : Text) :
    FeedToken maxValueLength saveValue tokenizer ((Lexeme.opening kind).text ++ rest) =
      (tokenizer.FoundToken (openingToken kind), rest) := by
  cases kind
  all_goals
    rw [Lexeme.text, singleton_append, feedToken_cons]
    simp only [step, ready.state, if_true]
    exact feedToken_done rfl rest

theorem feedToken_closing (ready : tokenizer.Ready) (maxValueLength : Nat) (saveValue : Bool)
    (kind : Kind) (rest : Text) :
    FeedToken maxValueLength saveValue tokenizer ((Lexeme.closing kind).text ++ rest) =
      (tokenizer.FoundToken (closingToken kind), rest) := by
  cases kind
  all_goals
    rw [Lexeme.text, singleton_append, feedToken_cons]
    simp only [step, ready.state, if_true]
    exact feedToken_done rfl rest

def skipState : Kind → State
  | .object => .skipNestedObject
  | .array => .skipNestedArray

def openingEvent (tag : Option Text) : Kind → Event
  | .object => .visitObject tag
  | .array => .visitArray tag

/-- The sub parser is in skipped content, so many objects or arrays deep. -/
structure Skips (parent kind : Kind) (depth : BitVec 32) (s : JsonSubParser) : Prop where
  parent : s.kind = parent
  state : s.state = skipState kind
  depth : s.skipSubObjects = depth

theorem skips_found (skips : Skips parent kind depth s) :
    foundToken visitors ⟨buffers, s :: others, callbacks⟩ s =
      .goesOn (skipToken ⟨buffers, s :: others, callbacks⟩ (openingToken kind) (closingToken kind) s) := by
  have state := skips.state
  cases kind
  all_goals
    simp only [foundToken, objectToken, arrayToken]
    rw [skipState] at state
    split <;> split <;> simp_all [openingToken, closingToken]

theorem skips_sound (skips : Skips parent kind depth s) : Sound s := by
  have state := skips.state
  rintro (error | error) <;> cases kind <;> rw [error] at state <;> cases state

theorem skips_unsaved (skips : Skips parent kind depth s) : saves s = false := by
  have state := skips.state
  cases kind <;> simp [saves, state, skipState]

theorem nextToken_ready {token : Token} (found : tokenizer.Found token value) :
    { tokenizer with valueBuffer := [], tokenState := .open }.Ready :=
  ⟨rfl, rfl, found.index, found.unicode⟩

theorem skips_token (visitors : Visitors) (buffers : Buffers) (others : List JsonSubParser)
    (callbacks : List Callback) (skips : Skips parent kind depth s) {token : Token}
    (found : s.tokenizer.Found token value) (inside : token = closingToken kind → depth ≠ 0) :
    ∃ next : JsonSubParser,
      Skips parent kind (if token = closingToken kind then depth - 1
        else if token = openingToken kind then depth + 1 else depth) next ∧
      next.tokenizer.Ready ∧
      ∀ rest, tokenFed visitors ⟨buffers, s :: others, callbacks⟩ s rest =
        Feed visitors ⟨buffers, next :: others, callbacks⟩ rest := by
  have goesOn (next : JsonSubParser) (n : BitVec 32) (skips' : Skips parent kind n next)
      (kept : next.tokenizer = s.tokenizer)
      (fed : skipToken ⟨buffers, s :: others, callbacks⟩ (openingToken kind) (closingToken kind) s =
        ⟨buffers, next :: others, callbacks⟩) :
      ∃ next : JsonSubParser, Skips parent kind n next ∧ next.tokenizer.Ready ∧
        ∀ rest, tokenFed visitors ⟨buffers, s :: others, callbacks⟩ s rest =
          Feed visitors ⟨buffers, next :: others, callbacks⟩ rest := by
    refine ⟨{ next with tokenizer := { s.tokenizer with valueBuffer := [], tokenState := .open } },
      ⟨skips'.parent, skips'.state, skips'.depth⟩, nextToken_ready found, fun rest => ?_⟩
    have after : nextToken ⟨buffers, next :: others, callbacks⟩ =
        ⟨buffers, { next with
          tokenizer := { s.tokenizer with valueBuffer := [], tokenState := .open } } :: others, callbacks⟩ := by
      rw [← kept]
      rfl
    simp only [tokenFed, skips_found skips, fed, after]
    apply drive_sound
    have counts : Skips parent kind n { next with
        tokenizer := { s.tokenizer with valueBuffer := [], tokenState := .open } } :=
      ⟨skips'.parent, skips'.state, skips'.depth⟩
    exact skips_sound counts
  by_cases closing : token = closingToken kind
  · rw [if_pos closing]
    have some := inside closing
    apply goesOn { s with skipSubObjects := depth - 1 } _ ⟨skips.parent, skips.state, rfl⟩ rfl
    rw [skipToken, if_pos (found.token.trans closing), skips.depth, if_neg some, modifyBack,
      modifyHead_cons, skips.depth]
  rw [if_neg closing]
  by_cases opening : token = openingToken kind
  · rw [if_pos opening]
    apply goesOn { s with skipSubObjects := depth + 1 } _ ⟨skips.parent, skips.state, rfl⟩ rfl
    rw [skipToken, found.token, if_neg closing, if_pos opening, modifyBack, modifyHead_cons,
      skips.depth]
  · rw [if_neg opening]
    apply goesOn s _ skips rfl
    rw [skipToken, found.token, if_neg closing, if_neg opening]

theorem skips_end (visitors : Visitors) (buffers : Buffers) (others : List JsonSubParser)
    (callbacks : List Callback) (skips : Skips parent kind 0 s)
    (found : s.tokenizer.Found (closingToken kind) value) :
    ∃ next : JsonSubParser, next.kind = parent ∧ next.state = .closed ∧ next.skipSubObjects = 0 ∧
      next.tokenizer.Ready ∧
      ∀ rest, tokenFed visitors ⟨buffers, s :: others, callbacks⟩ s rest =
        Feed visitors ⟨buffers, next :: others, callbacks⟩ rest := by
  refine ⟨{ s with
      state := .closed
      tokenizer := { s.tokenizer with valueBuffer := [], tokenState := .open } },
    skips.parent, rfl, skips.depth, nextToken_ready found, fun rest => ?_⟩
  simp only [tokenFed, skips_found skips, skipToken, found.token, if_true, skips.depth, setState,
    modifyBack, modifyHead_cons, nextToken]
  apply drive_sound
  simp [Sound]

theorem skipping_mode (visitors : Visitors) (buffers : Buffers) (others : List JsonSubParser)
    (parent kind : Kind) (depth : BitVec 32) (told : List Callback) :
    Mode visitors buffers others (fun s callbacks => Skips parent kind depth s ∧ callbacks = told)
      fun _ => False where
  sound held := skips_sound held.1
  tokenizer _ held := ⟨⟨held.1.parent, held.1.state, held.1.depth⟩, held.2⟩
  ended stopped := stopped.elim
  plain := by
    rintro s callbacks token value ⟨skips, rfl⟩ found plain
    have closing : token ≠ closingToken kind := by
      cases kind
      · exact plain.2.1
      · exact plain.2.2.2
    have opening : token ≠ openingToken kind := by
      cases kind
      · exact plain.1
      · exact plain.2.2.1
    obtain ⟨next, skips', ready, fed⟩ :=
      skips_token visitors buffers others callbacks skips found fun other => absurd other closing
    rw [if_neg closing, if_neg opening] at skips'
    exact .inl ⟨next, callbacks, ⟨skips', rfl⟩, ready, fed⟩
  error held saved _ := by
    rw [skips_unsaved held.1] at saved
    cases saved

theorem visiting_mode (buffers : Buffers) (others : List JsonSubParser) (quiet : Quiet visitors) :
    Mode visitors buffers others (fun s _ => Visits s) Ended where
  sound held := held.sound
  tokenizer _ held := ⟨held.sound, held.visited, held.skips⟩
  ended stopped := stopped.1
  plain := by
    intro s callbacks token value visits found plain
    obtain ⟨state, tagBuffer, callbacks', outcome, visited⟩ := visits_found buffers others
      callbacks quiet visits (by rw [found.token]; exact plain)
    have after : nextToken ⟨buffers, { s with state, tagBuffer } :: others, callbacks'⟩ =
        ⟨buffers, { s with
          state
          tagBuffer
          tokenizer := { s.tokenizer with valueBuffer := [], tokenState := .open } } :: others,
          callbacks'⟩ := rfl
    simp only [tokenFed, outcome, after]
    rcases visited with error | ⟨-, visited, sound⟩
    · right
      exact drive_parseError quiet error
    · left
      have next : Visits { s with
          state
          tagBuffer
          tokenizer := { s.tokenizer with valueBuffer := [], tokenState := .open } } :=
        visits_state visits visited sound
      exact ⟨_, callbacks', next, nextToken_ready found, fun rest => drive_sound next.sound rest⟩
  error := by
    intro s callbacks value visits saved found
    obtain ⟨state, tagBuffer, callbacks', outcome, visited⟩ := visits_found buffers others
      callbacks quiet visits (by rw [found.token]; decide)
    have error : state = .parseError := visited.resolve_right fun other => other.1 found.token
    simp only [tokenFed, outcome]
    exact drive_parseError quiet error

theorem nest_outcome (s : JsonSubParser) (buffers : Buffers) (others : List JsonSubParser)
    (callbacks : List Callback) (quiet : Quiet visitors) (kind : Kind) (event : Event)
    (skip : State) :
    ∃ tagBuffer, nest visitors ⟨buffers, s :: others, callbacks⟩ kind event skip s =
      let parent : JsonSubParser := { s with tagBuffer, tokenizer.tokenState := .open, state := .closed }
      if buffers.maxObjectNesting ≤ others.length + 1 then
        ⟨buffers, { parent with state := skip } :: others, callbacks⟩
      else if (visitors (callbacks ++ [⟨others.length, event⟩])).nested then
        ⟨buffers, nestedParser kind s :: parent :: others, callbacks ++ [⟨others.length, event⟩]⟩
      else ⟨buffers, { parent with state := skip } :: others, callbacks ++ [⟨others.length, event⟩]⟩ := by
  refine ⟨match s.kind with
    | .object => []
    | .array => s.tagBuffer, ?_⟩
  simp only [nest, modifyBack, modifyHead_cons, full, length_cons, decide_eq_true_eq, setState]
  split
  · rfl
  · rw [call_quiet quiet]
    simp only [returned, pop_back, tail_cons, modifyHead_cons]
    rfl

theorem visits_opening (buffers : Buffers) (others : List JsonSubParser) (callbacks : List Callback)
    (quiet : Quiet visitors) (visits : Visits s) (kind : Kind)
    (found : s.tokenizer.Found (openingToken kind) []) :
    (∃ last : StreamingParser, last.Ended ∧
      ∀ rest, tokenFed visitors ⟨buffers, s :: others, callbacks⟩ s rest = last) ∨
    (∃ next callbacks', next.tokenizer.Ready ∧ (Visits next ∨ Skips s.kind kind 0 next) ∧
      ∀ rest, tokenFed visitors ⟨buffers, s :: others, callbacks⟩ s rest =
        Feed visitors ⟨buffers, next :: others, callbacks'⟩ rest) ∨
    ∃ next parent callbacks', next.tokenizer.Ready ∧ Visits next ∧
      parent.tokenizer.Ready ∧ Visits parent ∧
      ∀ rest, tokenFed visitors ⟨buffers, s :: others, callbacks⟩ s rest =
        Feed visitors ⟨buffers, next :: parent :: others, callbacks'⟩ rest := by
  obtain ⟨unskippedObject, unskippedArray⟩ :
      s.state ≠ .skipNestedObject ∧ s.state ≠ .skipNestedArray := by
    simpa [saves] using visits.visited
  have outcome :
      (∃ state, foundToken visitors ⟨buffers, s :: others, callbacks⟩ s =
          .goesOn ⟨buffers, { s with state } :: others, callbacks⟩ ∧
        (state = .parseError ∨ state = .initialOpen)) ∨
      ∃ event, foundToken visitors ⟨buffers, s :: others, callbacks⟩ s =
        .returns (nest visitors ⟨buffers, s :: others, callbacks⟩ kind event (skipState kind) s) := by
    have token := found.token
    clear found visits
    cases kind
    all_goals
      rw [openingToken] at token
      simp only [foundToken]
      split
      all_goals
        simp only [objectToken, arrayToken, token]
        split
        all_goals
          first
            | exact .inr ⟨_, rfl⟩
            | exact .inl ⟨_, rfl, .inl rfl⟩
            | exact .inl ⟨_, rfl, .inr rfl⟩
            | exact absurd (by assumption) unskippedObject
            | exact absurd (by assumption) unskippedArray
            | contradiction
  rcases outcome with ⟨state, outcome, error | entered⟩ | ⟨event, outcome⟩
  · left
    simp only [tokenFed, outcome]
    exact drive_parseError quiet error
  · right
    left
    have next : Visits { s with
        state
        tagBuffer := s.tagBuffer
        tokenizer := { s.tokenizer with valueBuffer := [], tokenState := .open } } :=
      visits_state visits (by rw [entered]; simp) (by rw [entered]; simp)
    refine ⟨_, callbacks, nextToken_ready found, .inl next, fun rest => ?_⟩
    simp only [tokenFed, outcome]
    exact drive_sound next.sound rest
  obtain ⟨tagBuffer, nested⟩ := nest_outcome s buffers others callbacks quiet kind event (skipState kind)
  have parent (state : State) :
      ({ s with tagBuffer, tokenizer.tokenState := .open, state } : JsonSubParser).tokenizer.Ready :=
    ⟨rfl, found.value, found.index, found.unicode⟩
  have skips (state : State) (tokenizer : Tokenizer) :
      Skips s.kind kind 0 { s with tagBuffer, tokenizer, state := skipState kind } :=
    ⟨rfl, rfl, visits.skips⟩
  simp only [tokenFed, outcome, nested]
  right
  split
  · exact .inl ⟨_, callbacks, parent _, .inr (skips .closed _), fun rest => rfl⟩
  · split
    · right
      refine ⟨nestedParser kind s, _, _, ⟨rfl, found.value, rfl, rfl⟩,
        ⟨by simp [nestedParser, Sound], by simp [nestedParser, saves], rfl⟩, parent .closed, ?_,
        fun rest => rfl⟩
      exact visits_state visits (by simp) (by simp)
    · exact .inl ⟨_, _, parent _, .inr (skips .closed _), fun rest => rfl⟩

theorem visits_closing (buffers : Buffers) (others : List JsonSubParser) (callbacks : List Callback)
    (quiet : Quiet visitors) (visits : Visits s) (kind : Kind)
    (found : s.tokenizer.Found (closingToken kind) []) :
    (∃ last : StreamingParser, last.Ended ∧
      ∀ rest, tokenFed visitors ⟨buffers, s :: others, callbacks⟩ s rest = last) ∨
    ∀ rest, tokenFed visitors ⟨buffers, s :: others, callbacks⟩ s rest =
      Feed visitors ⟨buffers, others, callbacks ++ [⟨others.length, .close⟩]⟩ rest := by
  obtain ⟨unskippedObject, unskippedArray⟩ :
      s.state ≠ .skipNestedObject ∧ s.state ≠ .skipNestedArray := by
    simpa [saves] using visits.visited
  have outcome :
      foundToken visitors ⟨buffers, s :: others, callbacks⟩ s =
          .goesOn ⟨buffers, { s with state := .parseError } :: others, callbacks⟩ ∨
      foundToken visitors ⟨buffers, s :: others, callbacks⟩ s =
        .returns ⟨buffers, others, callbacks ++ [⟨others.length, .close⟩]⟩ := by
    have token := found.token
    clear found visits
    cases kind
    all_goals
      rw [closingToken] at token
      simp only [foundToken]
      split
      all_goals
        simp only [objectToken, arrayToken, token, setState, modifyBack, modifyHead_cons,
          visit_quiet quiet, pop_back, tail_cons]
        split
        all_goals
          first
            | exact .inr rfl
            | exact .inl rfl
            | exact absurd (by assumption) unskippedObject
            | exact absurd (by assumption) unskippedArray
            | contradiction
  rcases outcome with outcome | outcome
  · left
    simp only [tokenFed, outcome]
    exact drive_parseError quiet rfl
  · right
    intro rest
    simp only [tokenFed, outcome]

/-! ### How deep the parser is -/

theorem opening_text (kind : Kind) : ∃ c, (Lexeme.opening kind).text = [c] ∧ Delimits c := by
  cases kind <;> exact ⟨_, rfl, by constructor <;> decide⟩

theorem closing_text (kind : Kind) : ∃ c, (Lexeme.closing kind).text = [c] ∧ Delimits c := by
  cases kind <;> exact ⟨_, rfl, by constructor <;> decide⟩

theorem within_mark (mode : Mode visitors buffers others holds stops)
    (within : Within buffers others holds parser) {mark : Text} {token : Token}
    (single : ∃ c, mark = [c] ∧ Delimits c)
    (taken : ∀ {tokenizer : Tokenizer} (saveValue : Bool), tokenizer.Ready →
      FeedToken buffers.maxValueLength saveValue tokenizer (mark ++ []) =
        (tokenizer.FoundToken token, [])) :
    (∃ s callbacks, holds s callbacks ∧ s.tokenizer.Found token [] ∧
      Feed visitors parser mark = tokenFed visitors ⟨buffers, s :: others, callbacks⟩ s []) ∨
    stops (Feed visitors parser mark) := by
  obtain ⟨c, rfl, delimits⟩ := single
  rcases within_delimits mode within delimits with ⟨s, callbacks, held, ready, begun⟩ | ⟨last, stopped, begun⟩
  · left
    have fed := taken (saves s) ready
    rw [append_nil] at fed
    refine ⟨{ s with tokenizer := s.tokenizer.FoundToken token }, callbacks,
      mode.tokenizer _ held, ready_found ready _, ?_⟩
    rw [begun, feed_token (mode.sound held) (cons_ne_nil _ _) fed rfl]
  · right
    rw [begun]
    exact stopped

/-- The last sub parser is in a skipped object or array in which these are open. -/
def Skipping (buffers : Buffers) (others : List JsonSubParser) (told : List Callback) (parent kind : Kind)
    (inner : List Kind) : StreamingParser → Prop :=
  Within buffers others fun s callbacks =>
    Skips parent kind (BitVec.ofNat 32 (inner.count kind)) s ∧ callbacks = told

/-- The last sub parser has been through a value. -/
structure Rests (parent : Kind) (state : State) (s : JsonSubParser) : Prop where
  parent : s.kind = parent
  state : s.state = state
  skips : s.skipSubObjects = 0
  ready : s.tokenizer.Ready

theorem Rests.visits (rests : Rests parent .closed s) : Visits s :=
  ⟨by simp [Sound, rests.state], by simp [saves, rests.state], rests.skips⟩

theorem skipping_end (visitors : Visitors) {told : List Callback}
    (skipping : Skipping buffers others told parent kind inner parser)
    (round : 2 ^ 32 ∣ inner.count kind) :
    ∃ next, Rests parent .closed next ∧
      Feed visitors parser (Lexeme.closing kind).text = ⟨buffers, next :: others, told⟩ := by
  have mode := skipping_mode visitors buffers others parent kind
    (BitVec.ofNat 32 (inner.count kind)) told
  obtain ⟨s, callbacks, ⟨skips, rfl⟩, found, fed⟩ :=
    (within_mark mode skipping (closing_text kind)
      fun _ ready => feedToken_closing ready _ _ kind []).resolve_right fun stopped => stopped
  have zero : BitVec.ofNat 32 (inner.count kind) = 0 := by
    apply BitVec.eq_of_toNat_eq
    rw [BitVec.toNat_ofNat, Nat.mod_eq_zero_of_dvd round]
    rfl
  rw [zero] at skips
  obtain ⟨next, parent', state, skipped, ready, after⟩ := skips_end visitors buffers others
    callbacks skips found
  refine ⟨next, ⟨parent', state, skipped, ready⟩, ?_⟩
  rw [fed, after, feed_nil]

/-- A lexeme in skipped content, unless it ends that: 32 bits count what is open, and are zero
again when they have counted round. -/
theorem skipping_lexeme (visitors : Visitors) {told : List Callback} {inner' : List Kind}
    (room : 0 < buffers.maxValueLength)
    (skipping : Skipping buffers others told parent kind inner parser)
    (nest : lexeme.nest inner = some inner') :
    Skipping buffers others told parent kind inner' (Feed visitors parser lexeme.text) ∨
    lexeme = .closing kind ∧ 2 ^ 32 ≤ inner.count kind ∧ ∃ next, Rests parent .closed next ∧
      Feed visitors parser lexeme.text = ⟨buffers, next :: others, told⟩ := by
  have mode := skipping_mode visitors buffers others parent kind
    (BitVec.ofNat 32 (inner.count kind)) told
  have neither (same : inner' = inner)
      (neither : ∀ kind, lexeme ≠ .opening kind ∧ lexeme ≠ .closing kind) :
      Skipping buffers others told parent kind inner' (Feed visitors parser lexeme.text) := by
    rw [same]
    exact (within_lexeme mode room skipping lexeme neither).resolve_right fun stopped => stopped
  cases lexeme with
  | colon | comma | string | number | literal =>
    exact .inl (neither (Option.some.inj nest).symm (by simp))
  | opening other =>
    left
    obtain rfl : other :: inner = inner' := Option.some.inj nest
    obtain ⟨s, callbacks, ⟨skips, rfl⟩, found, fed⟩ :=
      (within_mark mode skipping (opening_text other)
        fun _ ready => feedToken_opening ready _ _ other []).resolve_right fun stopped => stopped
    obtain ⟨next, skips', ready, after⟩ := skips_token visitors buffers others callbacks skips found
      fun closing => absurd closing (by cases other <;> cases kind <;> decide)
    rw [fed, after, feed_nil]
    refine ⟨next, callbacks, rfl, ⟨?_, rfl⟩, ready.neutral⟩
    rw [if_neg (by cases other <;> cases kind <;> decide)] at skips'
    by_cases same : other = kind
    · rw [if_pos (by rw [same])] at skips'
      rw [same, count_cons_self, BitVec.ofNat_add]
      exact skips'
    · rw [if_neg (by cases other <;> cases kind <;> simp_all [openingToken])] at skips'
      rw [count_cons_of_ne same]
      exact skips'
  | closing other =>
    obtain rfl : inner = other :: inner' := by
      cases inner with
      | nil => cases nest
      | cons innermost inner =>
        simp only [Lexeme.nest] at nest
        split at nest
        next same => rw [same, Option.some.inj nest]
        · cases nest
    by_cases round : other = kind ∧ 2 ^ 32 ∣ (other :: inner').count kind
    · right
      obtain ⟨rfl, round⟩ := round
      refine ⟨rfl, Nat.le_of_dvd ?_ round, skipping_end visitors skipping round⟩
      rw [count_cons_self]
      exact Nat.succ_pos _
    · left
      obtain ⟨s, callbacks, ⟨skips, rfl⟩, found, fed⟩ :=
        (within_mark mode skipping (closing_text other)
          fun _ ready => feedToken_closing ready _ _ other []).resolve_right fun stopped => stopped
      have same (closing : closingToken other = closingToken kind) : other = kind := by
        cases other <;> cases kind <;> simp_all [closingToken]
      obtain ⟨next, skips', ready, after⟩ :=
        skips_token visitors buffers others callbacks skips found fun closing zero => by
          apply round
          refine ⟨same closing, Nat.dvd_of_mod_eq_zero ?_⟩
          simpa using congrArg BitVec.toNat zero
      rw [fed, after, feed_nil]
      refine ⟨next, callbacks, rfl, ⟨?_, rfl⟩, ready.neutral⟩
      by_cases closing : closingToken other = closingToken kind
      · rw [if_pos closing, same closing, count_cons_self, BitVec.ofNat_add] at skips'
        have back : BitVec.ofNat 32 (inner'.count kind) + BitVec.ofNat 32 1 - 1 =
            BitVec.ofNat 32 (inner'.count kind) := BitVec.add_sub_cancel _ _
        rw [back] at skips'
        exact skips'
      · rw [if_neg closing, if_neg (by cases other <;> cases kind <;> decide)] at skips'
        rw [count_cons_of_ne fun other => closing (by rw [other])] at skips'
        exact skips'

theorem nest_inner {outer kinds : List Kind}
    (nest : lexeme.nest (inner ++ kind :: outer) = some kinds) :
    (∃ inner', lexeme.nest inner = some inner' ∧ kinds = inner' ++ kind :: outer) ∨
      inner = [] ∧ lexeme = .closing kind ∧ kinds = outer := by
  cases lexeme with
  | colon | comma | string | number | literal =>
    exact .inl ⟨inner, rfl, (Option.some.inj nest).symm⟩
  | opening other => exact .inl ⟨other :: inner, rfl, (Option.some.inj nest).symm⟩
  | closing other =>
    cases inner with
    | nil =>
      right
      simp only [nil_append, Lexeme.nest] at nest
      split at nest
      next same => exact ⟨rfl, by rw [same], (Option.some.inj nest).symm⟩
      · cases nest
    | cons innermost inner =>
      left
      simp only [cons_append, Lexeme.nest] at nest ⊢
      split at nest
      next same => exact ⟨inner, if_pos same, (Option.some.inj nest).symm⟩
      · cases nest

def Waiting (others : List JsonSubParser) : Prop := ∀ other ∈ others, Visits other ∧ other.tokenizer.Ready

/-- The parser has stopped, or fewer sub parsers are on its stack than objects and arrays are
open; those in skipped content do not count. -/
inductive Lost (buffers : Buffers) (kinds : List Kind) (parser : StreamingParser) : Prop
  | ended (ended : parser.Ended)
  | visiting {others : List JsonSubParser} (within : Within buffers others (fun s _ => Visits s) parser)
      (waiting : Waiting others) (fewer : others.length + 1 < kinds.length)
  | skipping {others : List JsonSubParser} {told : List Callback} {parent kind : Kind}
      {inner outer : List Kind} (skipping : Skipping buffers others told parent kind inner parser)
      (waiting : Waiting others) (nested : kinds = inner ++ kind :: outer)
      (fewer : others.length + 1 < outer.length)

variable {kinds kinds' : List Kind}

theorem lost_spaces (quiet : Quiet visitors) (room : 0 < buffers.maxValueLength)
    (lost : Lost buffers kinds parser) (spaces : List Space) :
    Lost buffers kinds (Feed visitors parser (spaces.map Space.character)) := by
  cases lost with
  | ended ended =>
    rw [feed_empty ended.1]
    exact .ended ended
  | visiting within waiting fewer =>
    rcases within_text (visiting_mode _ _ quiet) room (plain_spaces spaces) within with within | ended
    · exact .visiting within waiting fewer
    · exact .ended ended
  | skipping skipping waiting nested fewer =>
    have within := within_text (skipping_mode visitors ..) room (plain_spaces spaces) skipping
    exact .skipping (within.resolve_right fun stopped => stopped) waiting nested fewer

theorem lost_pop (waiting : Waiting others) (fewer : others.length < kinds.length) :
    Lost buffers kinds ⟨buffers, others, callbacks ++ [⟨others.length, .close⟩]⟩ := by
  cases others with
  | nil => exact .ended ⟨rfl, ⟨0, .close⟩, by simp, .inr rfl⟩
  | cons other others =>
    obtain ⟨visits, ready⟩ := waiting other (by simp)
    exact .visiting ⟨other, _, rfl, visits, ready.neutral⟩
      (fun other member => waiting other (mem_cons_of_mem _ member)) fewer

theorem lost_lexeme (quiet : Quiet visitors) (room : 0 < buffers.maxValueLength)
    (lost : Lost buffers kinds parser) (nest : lexeme.nest kinds = some kinds') :
    Lost buffers kinds' (Feed visitors parser lexeme.text) := by
  cases lost with
  | ended ended =>
    rw [feed_empty ended.1]
    exact .ended ended
  | @visiting others within waiting fewer =>
    have mode := visiting_mode buffers others quiet
    have neither (same : kinds' = kinds)
        (neither : ∀ kind, lexeme ≠ .opening kind ∧ lexeme ≠ .closing kind) :
        Lost buffers kinds' (Feed visitors parser lexeme.text) := by
      rw [same]
      rcases within_lexeme mode room within lexeme neither with within | ended
      · exact .visiting within waiting fewer
      · exact .ended ended
    cases lexeme with
    | colon | comma | string | number | literal =>
      exact neither (Option.some.inj nest).symm (by simp)
    | opening kind =>
      obtain rfl : kind :: kinds = kinds' := Option.some.inj nest
      rcases within_mark mode within (opening_text kind)
        fun _ ready => feedToken_opening ready _ _ kind [] with ⟨s, callbacks, visits, found, fed⟩ | ended
      swap
      · exact .ended ended
      rcases visits_opening buffers others callbacks quiet visits kind found with
        ⟨last, ended, after⟩ | ⟨next, callbacks', ready, mode, after⟩ |
          ⟨next, parent, callbacks', ready, visits, ready', visits', after⟩
      · rw [fed, after]
        exact .ended ended
      · rw [fed, after, feed_nil]
        rcases mode with visits | skips
        · exact .visiting ⟨next, _, rfl, visits, ready.neutral⟩ waiting
            (by rw [length_cons]; omega)
        · exact .skipping ⟨next, _, rfl, ⟨skips, rfl⟩, ready.neutral⟩ waiting
            (show kind :: kinds = [] ++ kind :: kinds from rfl) fewer
      · rw [fed, after, feed_nil]
        refine .visiting ⟨next, _, rfl, visits, ready.neutral⟩ ?_ (by simp; omega)
        intro other member
        rcases mem_cons.mp member with rfl | member
        · exact ⟨visits', ready'⟩
        · exact waiting other member
    | closing kind =>
      obtain rfl : kinds = kind :: kinds' := by
        cases kinds with
        | nil => cases nest
        | cons innermost kinds =>
          simp only [Lexeme.nest] at nest
          split at nest
          next same => rw [same, Option.some.inj nest]
          · cases nest
      rw [length_cons] at fewer
      rcases within_mark mode within (closing_text kind)
        fun _ ready => feedToken_closing ready _ _ kind [] with ⟨s, callbacks, visits, found, fed⟩ | ended
      swap
      · exact .ended ended
      rcases visits_closing buffers others callbacks quiet visits kind found with
        ⟨last, ended, after⟩ | after
      · rw [fed, after]
        exact .ended ended
      · rw [fed, after, feed_nil]
        exact lost_pop waiting (by omega)
  | skipping skipping waiting nested fewer =>
    rw [nested] at nest
    rcases nest_inner nest with ⟨inner', nest', rfl⟩ | ⟨rfl, rfl, rfl⟩
    · rcases skipping_lexeme visitors room skipping nest' with
        skipping | ⟨-, -, next, rests, fed⟩
      · exact .skipping skipping waiting rfl fewer
      · rw [fed]
        refine .visiting ⟨next, _, rfl, rests.visits, rests.ready.neutral⟩ waiting ?_
        rw [length_append, length_cons]
        omega
    · obtain ⟨next, rests, fed⟩ := skipping_end visitors skipping (dvd_zero _)
      rw [fed]
      exact .visiting ⟨next, _, rfl, rests.visits, rests.ready.neutral⟩ waiting fewer

theorem lost_text (quiet : Quiet visitors) (room : 0 < buffers.maxValueLength)
    (lost : Lost buffers kinds parser) (spacing : Spacing) (written : Nat) {lexemes : List Lexeme}
    (balanced : nested kinds lexemes = some kinds') :
    Lost buffers kinds' (Feed visitors parser (textFrom spacing written lexemes)) := by
  induction lexemes generalizing kinds parser written with
  | nil =>
    rw [textFrom, feed_nil]
    obtain rfl : kinds = kinds' := Option.some.inj balanced
    exact lost
  | cons lexeme lexemes ih =>
    obtain ⟨between, nest, others⟩ := Option.bind_eq_some_iff.mp balanced
    rw [textFrom, feed_append, feed_append]
    exact ih (lost_lexeme quiet room (lost_spaces quiet room lost _) nest) _ others

end StreamingParser

end Json.Streaming
