import EmbeddedInfra.Json.StreamingDepth

/-! What the visitors of a streaming parser are told of a JSON object of the standard, and when
the parser accepts it. -/

namespace Json.Streaming

open Grammar StreamingParser List Space

variable (visitors : Visitors) (buffers : Buffers)

/-! ### What visitors should be told -/

def keptTag (tag : List Character) : Text :=
  ((stringValue tag).take buffers.maxValueLength).take buffers.maxTagLength

def stringEvent (tag : Option Text) (characters : List Character) : Event :=
  if characters.length ≤ buffers.maxValueLength then .visitString tag (stringValue characters)
  else .stringOverflow

def numberEvent (tag : Option Text) (number : Number) : Event :=
  .visitNumber tag (BitVec.ofInt 64 number.value)

def literalEvent (tag : Option Text) : Literal → Event
  | .true_ => .visitBoolean tag true
  | .false_ => .visitBoolean tag false
  | .null => .visitNull tag

/-- The callbacks after a nested object or array, which is skipped if the stack is full or no
visitor is returned for it, and what is told of its content otherwise. -/
def visitNested (place : Nat) (event : Event) (callbacks : List Callback)
    (content : List Callback → List Callback) : List Callback :=
  if buffers.maxObjectNesting ≤ place + 1 then callbacks
  else if (visitors (callbacks ++ [⟨place, event⟩])).nested then
    content (callbacks ++ [⟨place, event⟩]) ++ [⟨place + 1, .close⟩]
  else callbacks ++ [⟨place, event⟩]

mutual

/-- The callbacks after a value in an object or array at a place on the stack. -/
def visitValue (place : Nat) (tag : Option Text) (callbacks : List Callback) : Value → List Callback
  | .string characters => callbacks ++ [⟨place, stringEvent buffers tag characters⟩]
  | .number number => callbacks ++ [⟨place, numberEvent tag number⟩]
  | .literal literal => callbacks ++ [⟨place, literalEvent tag literal⟩]
  | .object members =>
    visitNested visitors buffers place (.visitObject tag) callbacks fun callbacks =>
      visitMembers (place + 1) callbacks members
  | .array elements =>
    visitNested visitors buffers place (.visitArray tag) callbacks fun callbacks =>
      visitElements (place + 1) callbacks elements

def visitMembers (place : Nat) (callbacks : List Callback) : Members → List Callback
  | .nil => callbacks
  | .cons tag value members =>
    visitMembers place (visitValue place (some (keptTag buffers tag)) callbacks value) members

def visitElements (place : Nat) (callbacks : List Callback) : Elements → List Callback
  | .nil => callbacks
  | .cons value elements => visitElements place (visitValue place none callbacks value) elements

end

/-! ### What the parser can read -/

/-- A nested object or array can be read if its content can be where that is visited, and it is
not nested too deep where it is skipped. -/
def fitsNested (place : Nat) (event : Event) (callbacks : List Callback)
    (content : List Callback → Bool) (nesting : Nat) : Bool :=
  if buffers.maxObjectNesting ≤ place + 1 then decide (nesting < 2 ^ 32)
  else if (visitors (callbacks ++ [⟨place, event⟩])).nested then content (callbacks ++ [⟨place, event⟩])
  else decide (nesting < 2 ^ 32)

mutual

/-- What a visited value must be like to be read: no string that has a unicode value when the
value buffer is full, no exponent right after a whole number, no literal that is longer than the
value buffer. -/
def fitsValue (place : Nat) (tag : Option Text) (callbacks : List Callback) : Value → Bool
  | .string characters => decide (stringFits buffers.maxValueLength characters)
  | .number number => !number.bareExponent
  | .literal literal => decide (literal.text.length ≤ buffers.maxValueLength)
  | .object members =>
    fitsNested visitors buffers place (.visitObject tag) callbacks
      (fun callbacks => fitsMembers (place + 1) callbacks members) (members.nesting .object)
  | .array elements =>
    fitsNested visitors buffers place (.visitArray tag) callbacks
      (fun callbacks => fitsElements (place + 1) callbacks elements) (elements.nesting .array)

def fitsMembers (place : Nat) (callbacks : List Callback) : Members → Bool
  | .nil => true
  | .cons tag value members =>
    decide (stringFits buffers.maxValueLength tag) &&
      (fitsValue place (some (keptTag buffers tag)) callbacks value &&
        fitsMembers place
          (visitValue visitors buffers place (some (keptTag buffers tag)) callbacks value) members)

def fitsElements (place : Nat) (callbacks : List Callback) : Elements → Bool
  | .nil => true
  | .cons value elements =>
    fitsValue place none callbacks value &&
      fitsElements place (visitValue visitors buffers place none callbacks value) elements

end

variable {visitors : Visitors} {buffers : Buffers} {s : JsonSubParser} {others : List JsonSubParser}
  {callbacks told : List Callback} {parser : StreamingParser} {parent kind : Kind}

/-! ### Skipped content -/

/-- Skipped content leaves the parser in it, unless it counts round. -/
def SkipsUnless (fits : Prop) (buffers : Buffers) (others : List JsonSubParser) (told : List Callback)
    (parent kind : Kind) (inner outer : List Kind) (parser : StreamingParser) : Prop :=
  (fits → Skipping buffers others told parent kind inner parser) ∧
    (¬ fits → Lost buffers (inner ++ kind :: outer) parser)

variable {inner : List Kind} {lexemes : List Lexeme} {outer : List Kind} {tag : Option Text}
  {lexeme : Lexeme} {tokenizer : Tokenizer} {value : Text} {event : Event} {kinds : List Kind}
  {fits : Bool}

theorem skipping_text (visitors : Visitors) (room : 0 < buffers.maxValueLength)
    (skipping : Skipping buffers others told parent kind inner parser) (spacing : Spacing)
    (written : Nat)
    (neither : ∀ lexeme ∈ lexemes, ∀ kind, lexeme ≠ .opening kind ∧ lexeme ≠ .closing kind) :
    Skipping buffers others told parent kind inner
      (Feed visitors parser (textFrom spacing written lexemes)) := by
  have mode := skipping_mode visitors buffers others parent kind
    (BitVec.ofNat 32 (inner.count kind)) told
  induction lexemes generalizing parser written with
  | nil =>
    rw [textFrom, feed_nil]
    exact skipping
  | cons lexeme lexemes ih =>
    rw [textFrom, feed_append, feed_append]
    apply ih
    · have blank := within_text mode room (plain_spaces (spacing written)) skipping
      have next := within_lexeme mode room (blank.resolve_right fun stopped => stopped) lexeme
        (neither lexeme (by simp))
      exact next.resolve_right fun stopped => stopped
    · exact fun other member => neither other (mem_cons_of_mem _ member)

theorem skipping_lost (waiting : Waiting others) (inStep : others.length + 1 = outer.length)
    {next : JsonSubParser} (rests : Rests parent .closed next) :
    Lost buffers (inner ++ kind :: outer) ⟨buffers, next :: others, told⟩ := by
  refine .visiting ⟨next, told, rfl, rests.visits, rests.ready.neutral⟩ waiting ?_
  rw [length_append, length_cons]
  omega

theorem skipping_spaces (visitors : Visitors) (room : 0 < buffers.maxValueLength)
    (skipping : Skipping buffers others told parent kind inner parser) (spaces : List Space) :
    Skipping buffers others told parent kind inner
      (Feed visitors parser (spaces.map character)) :=
  (within_text (skipping_mode visitors ..) room (plain_spaces spaces) skipping).resolve_right
    fun stopped => stopped

section

variable (quiet : Quiet visitors) (room : 0 < buffers.maxValueLength) (waiting : Waiting others)
  (inStep : others.length + 1 = outer.length)
  (skipping : Skipping buffers others told parent kind inner parser)

include quiet room waiting inStep skipping

theorem skipping_nested {inner' : List Kind} (spacing : Spacing) (written : Nat)
    (balanced : nested inner lexemes = some inner') :
    Skipping buffers others told parent kind inner' (Feed visitors parser (textFrom spacing written lexemes)) ∨
      Lost buffers (inner' ++ kind :: outer) (Feed visitors parser (textFrom spacing written lexemes)) := by
  induction lexemes generalizing inner parser written with
  | nil =>
    rw [textFrom, feed_nil]
    obtain rfl : inner = inner' := Option.some.inj balanced
    exact .inl skipping
  | cons lexeme lexemes ih =>
    obtain ⟨between, nest, rest⟩ := Option.bind_eq_some_iff.mp balanced
    rw [textFrom, feed_append, feed_append]
    rcases skipping_lexeme visitors room (skipping_spaces visitors room skipping _) nest with
      skipping | ⟨-, -, next, rests, fed⟩
    · exact ih skipping _ rest
    · right
      rw [fed]
      have lost : Lost buffers (between ++ kind :: outer) ⟨buffers, next :: others, told⟩ :=
        skipping_lost waiting inStep rests
      exact lost_text quiet room lost spacing _ (nested_outer (kind :: outer) rest)

theorem skipping_container (small : inner.count kind < 2 ^ 32) (spacing : Spacing) (written : Nat)
    (other : Kind) {content : List Lexeme} (depth : Nat)
    (balanced : ∀ kinds, nested kinds content = some kinds)
    (inside : ∀ parser, Skipping buffers others told parent kind (other :: inner) parser →
      (other :: inner).count kind < 2 ^ 32 →
      SkipsUnless ((other :: inner).count kind + depth < 2 ^ 32) buffers others told parent kind
      (other :: inner) outer (Feed visitors parser (textFrom spacing (written + 1) content))) :
    SkipsUnless (inner.count kind + ((if kind = other then 1 else 0) + depth) < 2 ^ 32) buffers others
      told parent kind inner outer
      (Feed visitors parser
        (textFrom spacing written (.opening other :: (content ++ [.closing other])))) := by
  have count : (other :: inner).count kind = inner.count kind + if kind = other then 1 else 0 := by
    rw [count_cons]
    congr 1
    cases other <;> cases kind <;> rfl
  have opened : Skipping buffers others told parent kind (other :: inner)
      (Feed visitors parser
        ((spacing written).map character ++ (Lexeme.opening other).text)) := by
    rw [feed_append]
    have next := skipping_lexeme visitors room
      (skipping_spaces visitors room skipping (spacing written))
      (show (Lexeme.opening other).nest inner = some (other :: inner) from rfl)
    exact next.resolve_right fun ends => by cases ends.1
  have text : textFrom spacing written (.opening other :: (content ++ [.closing other])) =
      (spacing written).map character ++ (Lexeme.opening other).text ++
        (textFrom spacing (written + 1) content ++
          textFrom spacing (written + 1 + content.length) [.closing other]) := by
    rw [textFrom, textFrom_append, append_assoc]
  rw [text, feed_append, feed_append]
  generalize Feed visitors parser
    ((spacing written).map character ++ (Lexeme.opening other).text) = parser at opened ⊢
  -- the last lexeme from a parser that is lost, or still in skipped content
  have lose (lost : Lost buffers (other :: inner ++ kind :: outer)
      (Feed visitors parser (textFrom spacing (written + 1) content))) :
      Lost buffers (inner ++ kind :: outer)
        (Feed visitors (Feed visitors parser (textFrom spacing (written + 1) content))
          (textFrom spacing (written + 1 + content.length) [.closing other])) := by
    apply lost_text quiet room lost
    simp [nested, Lexeme.nest]
  by_cases deep : (other :: inner).count kind < 2 ^ 32
  · obtain ⟨stays, loses⟩ := inside parser opened deep
    rw [count, Nat.add_assoc] at stays loses
    constructor
    · intro fits
      rw [textFrom, textFrom, append_nil, feed_append]
      have next := skipping_lexeme visitors room
        (skipping_spaces visitors room (stays fits) (spacing (written + 1 + content.length)))
        (show (Lexeme.closing other).nest (other :: inner) = some inner from if_pos rfl)
      exact next.resolve_right fun ends => absurd ends.2.1 (by omega)
    · intro unfit
      exact lose (loses unfit)
  · -- the counter is zero in it, so that its own end is taken for that of the skipped content
    have same : kind = other := by
      by_contra differs
      rw [count, if_neg differs] at deep
      omega
    subst same
    rw [if_pos rfl] at count
    refine ⟨fun fits => absurd fits (by rw [if_pos rfl]; omega), fun _ => ?_⟩
    rcases skipping_nested quiet room waiting inStep opened spacing (written + 1)
      (balanced (kind :: inner)) with skipping | lost
    · rw [textFrom, textFrom, append_nil, feed_append]
      have full : (kind :: inner).count kind = 2 ^ 32 := by omega
      obtain ⟨next, rests, fed⟩ := skipping_end visitors
        (skipping_spaces visitors room skipping (spacing (written + 1 + content.length)))
        (by rw [full])
      rw [fed]
      exact skipping_lost waiting inStep rests
    · exact lose lost

end

theorem skipsUnless_then (quiet : Quiet visitors) (room : 0 < buffers.maxValueLength)
    {first second : Nat}
    (skips : SkipsUnless (inner.count kind + first < 2 ^ 32) buffers others told parent kind inner
      outer parser) (balanced : ∀ kinds, nested kinds lexemes = some kinds) (spacing : Spacing)
    (written : Nat)
    (after : Skipping buffers others told parent kind inner parser →
      SkipsUnless (inner.count kind + second < 2 ^ 32) buffers others told parent kind inner outer
      (Feed visitors parser (textFrom spacing written lexemes))) :
    SkipsUnless (inner.count kind + max first second < 2 ^ 32) buffers others told parent kind inner outer
      (Feed visitors parser (textFrom spacing written lexemes)) := by
  by_cases fits : inner.count kind + first < 2 ^ 32
  · obtain ⟨stays, loses⟩ := after (skips.1 fits)
    exact ⟨fun small => stays (by omega), fun deep => loses (by omega)⟩
  · exact ⟨fun small => absurd (show inner.count kind + first < 2 ^ 32 by omega) fits,
      fun _ => lost_text quiet room (skips.2 fits) spacing written (balanced _)⟩

mutual

theorem skipping_value (quiet : Quiet visitors) (room : 0 < buffers.maxValueLength)
    (waiting : Waiting others) {inner outer : List Kind} (inStep : others.length + 1 = outer.length)
    {parser : StreamingParser}
    (skipping : Skipping buffers others told parent kind inner parser)
    (small : inner.count kind < 2 ^ 32) (spacing : Spacing) (written : Nat) (value : Value) :
    SkipsUnless (inner.count kind + value.nesting kind < 2 ^ 32) buffers others told parent kind inner
      outer (Feed visitors parser (textFrom spacing written value.lexemes)) := by
  cases value with
  | string | number | literal =>
    refine ⟨fun _ => skipping_text visitors room skipping spacing written ?_, fun unfit => absurd small unfit⟩
    simp [Value.lexemes]
  | object members =>
    exact skipping_container quiet room waiting inStep skipping small spacing written .object
      (members.nesting kind) (nested_members members false) fun parser skipping small =>
        skipping_members quiet room waiting inStep skipping small spacing (written + 1) false members
  | array elements =>
    exact skipping_container quiet room waiting inStep skipping small spacing written .array
      (elements.nesting kind) (nested_elements elements false) fun parser skipping small =>
        skipping_elements quiet room waiting inStep skipping small spacing (written + 1) false elements

theorem skipping_members (quiet : Quiet visitors) (room : 0 < buffers.maxValueLength)
    (waiting : Waiting others) {inner outer : List Kind} (inStep : others.length + 1 = outer.length)
    {parser : StreamingParser}
    (skipping : Skipping buffers others told parent kind inner parser)
    (small : inner.count kind < 2 ^ 32) (spacing : Spacing) (written : Nat) (separated : Bool)
    (members : Members) :
    SkipsUnless (inner.count kind + members.nesting kind < 2 ^ 32) buffers others told parent kind inner
      outer (Feed visitors parser (textFrom spacing written (members.lexemes separated))) := by
  cases members with
  | nil =>
    refine ⟨fun _ => ?_, fun unfit => absurd small unfit⟩
    rw [Members.lexemes, textFrom, feed_nil]
    exact skipping
  | cons tag value members =>
    obtain ⟨before, text, neither⟩ : ∃ before : List Lexeme,
        (Members.cons tag value members).lexemes separated =
          before ++ (value.lexemes ++ members.lexemes true) ∧
        ∀ lexeme ∈ before, ∀ kind, lexeme ≠ .opening kind ∧ lexeme ≠ .closing kind := by
      refine ⟨(if separated then [.comma] else []) ++ [.string tag, .colon], ?_, ?_⟩
      · rw [Members.lexemes, append_assoc]
        rfl
      · cases separated <;> simp
    rw [text, textFrom_append, feed_append, textFrom_append, feed_append]
    have skipping := skipping_text visitors room skipping spacing written neither
    apply skipsUnless_then quiet room
      (skipping_value quiet room waiting inStep skipping small spacing _ value)
      (nested_members members true)
    intro skipping
    exact skipping_members quiet room waiting inStep skipping small spacing _ true members

theorem skipping_elements (quiet : Quiet visitors) (room : 0 < buffers.maxValueLength)
    (waiting : Waiting others) {inner outer : List Kind} (inStep : others.length + 1 = outer.length)
    {parser : StreamingParser} (skipping : Skipping buffers others told parent kind inner parser)
    (small : inner.count kind < 2 ^ 32) (spacing : Spacing) (written : Nat) (separated : Bool)
    (elements : Elements) :
    SkipsUnless (inner.count kind + elements.nesting kind < 2 ^ 32) buffers others told parent kind inner
      outer (Feed visitors parser (textFrom spacing written (elements.lexemes separated))) := by
  cases elements with
  | nil =>
    refine ⟨fun _ => ?_, fun unfit => absurd small unfit⟩
    rw [Elements.lexemes, textFrom, feed_nil]
    exact skipping
  | cons value elements =>
    rw [Elements.lexemes, textFrom_append, feed_append, textFrom_append, feed_append]
    have neither : ∀ lexeme ∈ (if separated then [Lexeme.comma] else []),
        ∀ kind, lexeme ≠ .opening kind ∧ lexeme ≠ .closing kind := by
      cases separated <;> simp
    have skipping := skipping_text visitors room skipping spacing written neither
    apply skipsUnless_then quiet room
      (skipping_value quiet room waiting inStep skipping small spacing _ value)
      (nested_elements elements true)
    intro skipping
    exact skipping_elements quiet room waiting inStep skipping small spacing _ true elements

end

/-! ### Visited content -/

/-- The sub parser waits for a value: that of a member with this tag, or an element. -/
structure Slot (tag : Option Text) (s : JsonSubParser) : Prop where
  skips : s.skipSubObjects = 0
  ready : s.tokenizer.Ready
  place : s.kind = .object ∧ s.state = .valueExpected ∧ tag = some s.tagBuffer ∨
    s.kind = .array ∧ (s.state = .initialOpen ∨ s.state = .open) ∧ tag = none

theorem Slot.visits (slot : Slot tag s) : Visits s := by
  rcases slot.place with ⟨-, state, -⟩ | ⟨-, state | state, -⟩ <;>
    exact ⟨by simp [Sound, state], by simp [saves, state], slot.skips⟩

/-- The callback for a token that is a whole value. -/
def tokenEvent (tag : Option Text) (tokenizer : Tokenizer) : Option Event :=
  match tokenizer.token with
  | .string => some (.visitString tag tokenizer.valueBuffer)
  | .stringOverflow => some .stringOverflow
  | .number => some (.visitNumber tag (tokenizer.tokenSign * tokenizer.tokenNumber))
  | .true_ => some (.visitBoolean tag true)
  | .false_ => some (.visitBoolean tag false)
  | .null => some (.visitNull tag)
  | _ => none

variable {token : Token} {continues : Text → Prop} {ends : JsonSubParser → Prop} {rest : Text}
  {place : Nat} {members : Members}

theorem feed_lexeme (visits : Visits s) (ready : s.tokenizer.Ready) (spaces : List Space)
    {data left : Text} (some : lexeme.text ++ data ≠ [])
    (fed : FeedToken buffers.maxValueLength true s.tokenizer (lexeme.text ++ data) =
      (tokenizer, left)) (found : tokenizer.Found token value) :
    Feed visitors ⟨buffers, s :: others, callbacks⟩
        (spaces.map character ++ (lexeme.text ++ data)) =
      tokenFed visitors ⟨buffers, { s with tokenizer } :: others, callbacks⟩ { s with tokenizer } left := by
  apply feed_token visits.sound
  · intro none
    exact some (append_eq_nil_iff.mp none).2
  · rw [visits.visited, feedToken_spacing ready.state, fed]
  · exact found.state

theorem slot_token (buffers : Buffers) (others : List JsonSubParser) (callbacks : List Callback)
    (quiet : Quiet visitors) (slot : Slot tag s) (found : tokenizer.Found token value)
    (told : tokenEvent tag tokenizer = some event) :
    ∃ next, Rests s.kind .closed next ∧
      ∀ rest, tokenFed visitors ⟨buffers, { s with tokenizer } :: others, callbacks⟩
          { s with tokenizer } rest =
        Feed visitors ⟨buffers, next :: others, callbacks ++ [⟨others.length, event⟩]⟩ rest := by
  have goesOn (tagBuffer : Text)
      (outcome : foundToken visitors ⟨buffers, { s with tokenizer } :: others, callbacks⟩
          { s with tokenizer } =
        .goesOn ⟨buffers, { s with tokenizer, tagBuffer, state := .closed } :: others,
          callbacks ++ [⟨others.length, event⟩]⟩) :
      ∃ next, Rests s.kind .closed next ∧
        ∀ rest, tokenFed visitors ⟨buffers, { s with tokenizer } :: others, callbacks⟩
            { s with tokenizer } rest =
          Feed visitors ⟨buffers, next :: others, callbacks ++ [⟨others.length, event⟩]⟩ rest := by
    refine ⟨{ s with
        tagBuffer
        state := .closed
        tokenizer := { tokenizer with valueBuffer := [], tokenState := .open } },
      ⟨rfl, rfl, slot.skips, nextToken_ready found⟩, fun rest => ?_⟩
    simp only [tokenFed, outcome]
    exact drive_sound (by simp [Sound]) rest
  obtain ⟨kind, tagBuffer, before, state, skipped⟩ := s
  obtain ⟨-, -, place⟩ := slot
  rcases place with ⟨rfl, rfl, rfl⟩ | ⟨rfl, rfl | rfl, rfl⟩
  · apply goesOn []
    simp only [tokenEvent] at told
    split at told
    all_goals
      first
        | (obtain rfl := Option.some.inj told
           simp only [foundToken, objectToken, *, setState, clearTag, modifyBack,
             modifyHead_cons, visit_quiet quiet])
        | cases told
  all_goals
    simp only [tokenEvent] at told
    split at told
    all_goals
      first
        | (obtain rfl := Option.some.inj told
           first
             | (apply goesOn tagBuffer
                simp only [foundToken, arrayToken, *, setState, modifyBack, modifyHead_cons,
                  visit_quiet quiet]
                done)
             | (apply goesOn []
                simp only [foundToken, arrayToken, *, setState, clearTag, modifyBack,
                  modifyHead_cons, visit_quiet quiet]))
        | cases told

theorem slot_error (buffers : Buffers) (others : List JsonSubParser) (callbacks : List Callback)
    (quiet : Quiet visitors) (slot : Slot tag s) (found : tokenizer.Found .error value) :
    ∃ last : StreamingParser, last.Ended ∧
      ∀ rest, tokenFed visitors ⟨buffers, { s with tokenizer } :: others, callbacks⟩
        { s with tokenizer } rest = last :=
  (visiting_mode buffers others quiet).error ⟨slot.visits.sound, slot.visits.visited, slot.visits.skips⟩
    slot.visits.visited found

theorem slot_opening (slot : Slot tag s) {kind : Kind}
    (found : tokenizer.Found (openingToken kind) value) :
    foundToken visitors ⟨buffers, { s with tokenizer } :: others, callbacks⟩ { s with tokenizer } =
      .returns (nest visitors ⟨buffers, { s with tokenizer } :: others, callbacks⟩ kind
        (openingEvent tag kind) (skipState kind) { s with tokenizer }) := by
  obtain ⟨kind', tagBuffer, before, state, skipped⟩ := s
  obtain ⟨-, -, place⟩ := slot
  have token := found.token
  rcases place with ⟨rfl, rfl, rfl⟩ | ⟨rfl, rfl | rfl, rfl⟩
  all_goals
    cases kind
    all_goals
      rw [openingToken] at token
      simp only [foundToken, objectToken, arrayToken, token, openingEvent, skipState]

/-- A text is read to the end, and the rest is read after it, unless the parser is lost in it. -/
def ReadsUnless (visitors : Visitors) (buffers : Buffers) (others : List JsonSubParser) (kinds : List Kind)
    (continues : Text → Prop) (fits : Bool) (ends : JsonSubParser → Prop) (told : List Callback)
    (parser : StreamingParser) (text : Text) : Prop :=
  (fits = true → ∀ rest, continues rest → ∃ next, ends next ∧
    Feed visitors parser (text ++ rest) = Feed visitors ⟨buffers, next :: others, told⟩ rest) ∧
  (fits = false → Lost buffers kinds (Feed visitors parser text))

def Anything : Text → Prop := fun _ => True

theorem readsUnless_then {first second : Text} {fits' : Bool} {continues' : Text → Prop}
    {ends' : JsonSubParser → Prop} {told' : List Callback} (quiet : Quiet visitors)
    (room : 0 < buffers.maxValueLength) {spacing : Spacing} {written : Nat}
    (text : second = textFrom spacing written lexemes)
    (balanced : nested kinds lexemes = some kinds)
    (goesOn : ∀ rest, continues' rest → continues (second ++ rest))
    (begins : fits' = false → continues second)
    (reads : ReadsUnless visitors buffers others kinds continues fits ends told parser first)
    (reads' : ∀ next, ends next →
      ReadsUnless visitors buffers others kinds continues' fits' ends' told' ⟨buffers,
      next :: others, told⟩ second) :
    ReadsUnless visitors buffers others kinds continues' (fits && fits') ends' told' parser
      (first ++ second) := by
  constructor
  · intro fit rest continued
    obtain ⟨fit, fit'⟩ := Bool.and_eq_true_iff.mp fit
    obtain ⟨next, ended, fed⟩ := reads.1 fit (second ++ rest) (goesOn rest continued)
    obtain ⟨last, ended', fed'⟩ := (reads' next ended).1 fit' rest continued
    refine ⟨last, ended', ?_⟩
    rw [append_assoc, fed, fed']
  · intro unfit
    cases fit : fits with
    | false =>
      rw [feed_append, text]
      exact lost_text quiet room (reads.2 fit) spacing written balanced
    | true =>
      rw [fit, Bool.true_and] at unfit
      obtain ⟨next, ended, fed⟩ := reads.1 fit second (begins unfit)
      rw [fed]
      exact (reads' next ended).2 unfit

section

variable (quiet : Quiet visitors) (slot : Slot tag s) (spacing : Spacing) (written : Nat)

include quiet slot spacing written

theorem scalar_reads (filled : lexeme.text ≠ [])
    (reads : fits = true → ∀ rest, Delimited rest →
      ∃ tokenizer token value, tokenizer.Found token value ∧ tokenEvent tag tokenizer = some event ∧
      FeedToken buffers.maxValueLength true s.tokenizer (lexeme.text ++ rest) = (tokenizer, rest))
    (breaks : fits = false →
      Lost buffers kinds (Feed visitors ⟨buffers, s :: others, callbacks⟩
      (textFrom spacing written [lexeme]))) :
    ReadsUnless visitors buffers others kinds Delimited fits (Rests s.kind .closed)
      (callbacks ++ [⟨others.length, event⟩]) ⟨buffers, s :: others, callbacks⟩
      (textFrom spacing written [lexeme]) := by
  refine ⟨fun fit rest delimited => ?_, breaks⟩
  obtain ⟨tokenizer, token, value, found, told, fed⟩ := reads fit rest delimited
  obtain ⟨next, rests, after⟩ := slot_token buffers others callbacks quiet slot found told
  refine ⟨next, rests, ?_⟩
  have some : lexeme.text ++ rest ≠ [] := fun none => filled (append_eq_nil_iff.mp none).1
  rw [textFrom, textFrom, append_nil, append_assoc,
    feed_lexeme slot.visits slot.ready (spacing written) some fed found, after]

theorem scalar_breaks (filled : lexeme.text ≠ []) {left : Text}
    (found : tokenizer.Found .error value)
    (fed : FeedToken buffers.maxValueLength true s.tokenizer (lexeme.text ++ []) =
      (tokenizer, left)) :
    Lost buffers kinds
      (Feed visitors ⟨buffers, s :: others, callbacks⟩ (textFrom spacing written [lexeme])) := by
  obtain ⟨last, ended, after⟩ := slot_error buffers others callbacks quiet slot found
  rw [textFrom, textFrom, feed_lexeme slot.visits slot.ready (spacing written)
    (by rw [append_nil]; exact filled) fed found, after]
  exact .ended ended

theorem string_reads (kinds : List Kind) (characters : List Character) :
    ReadsUnless visitors buffers others kinds Delimited
      (decide (stringFits buffers.maxValueLength characters)) (Rests s.kind .closed)
      (callbacks ++ [⟨others.length, stringEvent buffers tag characters⟩])
      ⟨buffers, s :: others, callbacks⟩ (textFrom spacing written [.string characters]) := by
  have filled : (Lexeme.string characters).text ≠ [] := cons_ne_nil _ _
  apply scalar_reads quiet slot spacing written filled
  · intro fit rest _
    obtain ⟨tokenizer, found, fed⟩ := feedToken_string_fits slot.ready (of_decide_eq_true fit) rest
    refine ⟨tokenizer, _, _, found, ?_, fed⟩
    have token := found.token
    rw [stringToken] at token
    rw [stringEvent]
    split at token
    next short =>
      have whole : (stringValue characters).take buffers.maxValueLength = stringValue characters :=
        take_of_length_le (by simpa [stringValue] using short)
      simp only [tokenEvent, token, found.value, whole]
      rw [if_pos short]
    next long =>
      simp only [tokenEvent, token]
      rw [if_neg long]
  · intro unfit
    obtain ⟨tokenizer, value, left, found, fed⟩ :=
      feedToken_string_broken slot.ready (of_decide_eq_false unfit) []
    exact scalar_breaks quiet slot spacing written filled found fed

end

theorem literal_reads (quiet : Quiet visitors) (room : 0 < buffers.maxValueLength)
    (slot : Slot tag s) (spacing : Spacing) (written : Nat) (kinds : List Kind)
    (literal : Literal) :
    ReadsUnless visitors buffers others kinds Delimited
      (decide (literal.text.length ≤ buffers.maxValueLength)) (Rests s.kind .closed)
      (callbacks ++ [⟨others.length, literalEvent tag literal⟩])
      ⟨buffers, s :: others, callbacks⟩ (textFrom spacing written [.literal literal]) := by
  have filled : (Lexeme.literal literal).text ≠ [] := by cases literal <;> simp [Lexeme.text, Literal.text]
  apply scalar_reads quiet slot spacing written filled
  · intro fit rest delimited
    obtain ⟨tokenizer, found, fed⟩ := feedToken_literal slot.ready (of_decide_eq_true fit) delimited
    refine ⟨tokenizer, _, _, found, ?_, fed⟩
    cases literal <;> simp only [tokenEvent, found.token, literalToken, literalEvent]
  · intro unfit
    obtain ⟨tokenizer, value, left, found, fed⟩ :=
      feedToken_literal_full slot.ready room (not_le.mp (of_decide_eq_false unfit)) []
    exact scalar_breaks quiet slot spacing written filled found fed

theorem number_filled (number : Number) : number.text ≠ [] := by
  intro none
  simp only [Number.text, append_eq_nil_iff, map_eq_nil_iff] at none
  cases whole : number.whole with
  | zero | nonzero => simp [whole, Whole.digits] at none

theorem number_reads (quiet : Quiet visitors) (room : 0 < buffers.maxValueLength)
    (slot : Slot tag s) (spacing : Spacing) (written : Nat) (kinds : List Kind) (number : Number) :
    ReadsUnless visitors buffers others kinds Delimited (!number.bareExponent) (Rests s.kind .closed)
      (callbacks ++ [⟨others.length, numberEvent tag number⟩])
      ⟨buffers, s :: others, callbacks⟩ (textFrom spacing written [.number number]) := by
  have found := foundNumber_found slot.ready number
  have told : tokenEvent tag (s.tokenizer.foundNumber number) = some (numberEvent tag number) := by
    simp only [tokenEvent, found.token, numberEvent, foundNumber_value]
  have filled : (Lexeme.number number).text ≠ [] := number_filled number
  apply scalar_reads quiet slot spacing written filled
  · intro fit rest delimited
    exact ⟨_, _, _, found, told, feedToken_number slot.ready (by simpa using fit) delimited⟩
  · -- the exponent is an identifier that is not known
    intro unfit
    have bare : number.fraction = none ∧ number.exponent.isSome := by
      simpa [Number.bareExponent] using unfit
    obtain ⟨exponent, exponential⟩ := Option.isSome_iff_exists.mp bare.2
    obtain ⟨next, rests, after⟩ := slot_token buffers others callbacks quiet slot found told
    have fed : FeedToken buffers.maxValueLength true s.tokenizer ((Lexeme.number number).text ++ []) =
        (s.tokenizer.foundNumber number, exponent.text ++ []) :=
      feedToken_bare slot.ready bare.1 exponential []
    obtain ⟨tokenizer, value, left, error, fed'⟩ := feedToken_exponent rests.ready room exponent []
    have some : exponent.text ++ [] ≠ [] := by simp [Exponent.text]
    have held : Visits { next with tokenizer } :=
      ⟨rests.visits.sound, rests.visits.visited, rests.visits.skips⟩
    obtain ⟨last, ended, after'⟩ : ∃ last : StreamingParser, last.Ended ∧ ∀ rest,
        tokenFed visitors ⟨buffers, { next with tokenizer } :: others,
          callbacks ++ [⟨others.length, numberEvent tag number⟩]⟩ { next with tokenizer } rest = last :=
      (visiting_mode buffers others quiet).error held held.visited error
    rw [textFrom, textFrom, feed_lexeme slot.visits slot.ready
      (spacing written) (by rw [append_nil]; exact filled) fed found, after,
      feed_token rests.visits.sound some (by rw [rests.visits.visited]; exact fed') error.state, after']
    exact .ended ended

/-- The sub parser waits for what comes after a value, or for its first one. -/
def Ends (kind : Kind) (s : JsonSubParser) : Prop := Rests kind .initialOpen s ∨ Rests kind .closed s

theorem Ends.visits (ends : Ends kind s) : Visits s := by
  rcases ends with rests | rests <;>
    exact ⟨by simp [Sound, rests.state], by simp [saves, rests.state], rests.skips⟩

theorem Ends.ready (ends : Ends kind s) : s.tokenizer.Ready := ends.elim Rests.ready Rests.ready

theorem ends_closing (quiet : Quiet visitors) (ends : Ends kind s) (spaces : List Space) (rest : Text) :
    Feed visitors ⟨buffers, s :: others, callbacks⟩
        (spaces.map character ++ ((Lexeme.closing kind).text ++ rest)) =
      Feed visitors ⟨buffers, others, callbacks ++ [⟨others.length, .close⟩]⟩ rest := by
  have fed := feedToken_closing ends.ready buffers.maxValueLength true kind rest
  have found := ready_found ends.ready (closingToken kind)
  revert fed found
  generalize s.tokenizer.FoundToken (closingToken kind) = tokenizer
  intro fed found
  have outcome :
      foundToken visitors ⟨buffers, { s with tokenizer } :: others, callbacks⟩ { s with tokenizer } =
        .returns ⟨buffers, others, callbacks ++ [⟨others.length, .close⟩]⟩ := by
    obtain ⟨kind', tagBuffer, before, state, skipped⟩ := s
    have token := found.token
    rcases ends with ⟨rfl, rfl, -, -⟩ | ⟨rfl, rfl, -, -⟩
    all_goals
      cases kind'
      all_goals
        rw [closingToken] at token
        simp only [foundToken, objectToken, arrayToken, token, setState, modifyBack,
          modifyHead_cons, visit_quiet quiet, pop_back, tail_cons]
  rw [feed_lexeme ends.visits ends.ready spaces (by cases kind <;> simp [Lexeme.text]) fed found]
  simp only [tokenFed, outcome]

variable (spaces : List Space) (spacing : Spacing)

theorem delimited_text {c : UInt8} (text : lexeme.text = [c]) (delimits : Delimits c) (rest : Text) :
    Delimited (spaces.map character ++ (lexeme.text ++ rest)) := by
  cases spaces with
  | nil => exact ⟨c, rest, by rw [text]; rfl, delimits⟩
  | cons blank spaces =>
    refine ⟨blank.character, _, rfl, ?_⟩
    cases blank <;> constructor <;> decide

theorem delimited_closing (kind : Kind) (rest : Text) :
    Delimited (spaces.map character ++ ((Lexeme.closing kind).text ++ rest)) := by
  obtain ⟨c, text, delimits⟩ := closing_text kind
  exact delimited_text spaces text delimits rest

theorem slot_nest (buffers : Buffers) (others : List JsonSubParser) (callbacks : List Callback)
    (quiet : Quiet visitors) (slot : Slot tag s) (spaces : List Space) (kind : Kind) :
    ∃ parent nested skipped : JsonSubParser,
      Rests s.kind .closed parent ∧ Rests kind .initialOpen nested ∧ Skips s.kind kind 0 skipped ∧
      skipped.tokenizer.Ready ∧
      ∀ data, Feed visitors ⟨buffers, s :: others, callbacks⟩
          (spaces.map character ++ ((Lexeme.opening kind).text ++ data)) =
        Feed visitors
          (if buffers.maxObjectNesting ≤ others.length + 1 then ⟨buffers, skipped :: others, callbacks⟩
          else if (visitors (callbacks ++ [⟨others.length, openingEvent tag kind⟩])).nested then
            ⟨buffers, nested :: parent :: others, callbacks ++ [⟨others.length, openingEvent tag kind⟩]⟩
          else ⟨buffers, skipped :: others, callbacks ++ [⟨others.length, openingEvent tag kind⟩]⟩) data := by
  have found := ready_found slot.ready (openingToken kind)
  have fed (data : Text) := feedToken_opening slot.ready buffers.maxValueLength true kind data
  revert found fed
  generalize s.tokenizer.FoundToken (openingToken kind) = tokenizer
  intro found fed
  obtain ⟨tagBuffer, outcome⟩ := nest_outcome { s with tokenizer } buffers others callbacks quiet
    kind (openingEvent tag kind) (skipState kind)
  have between : { tokenizer with tokenState := .open }.Ready :=
    ⟨rfl, found.value, found.index, found.unicode⟩
  refine ⟨{ s with tagBuffer, tokenizer := { tokenizer with tokenState := .open }, state := .closed },
    nestedParser kind { s with tokenizer },
    { s with tagBuffer, tokenizer := { tokenizer with tokenState := .open }, state := skipState kind },
    ⟨rfl, rfl, slot.skips, between⟩, ⟨rfl, rfl, rfl, ⟨rfl, found.value, rfl, rfl⟩⟩,
    ⟨rfl, rfl, slot.skips⟩, between, fun data => ?_⟩
  rw [feed_lexeme slot.visits slot.ready _ (by cases kind <;> simp [Lexeme.text]) (fed data) found]
  simp only [tokenFed, slot_opening slot found, outcome]

theorem container_reads (quiet : Quiet visitors) (room : 0 < buffers.maxValueLength)
    (slot : Slot tag s) (spacing : Spacing) (written : Nat) (kind : Kind) {content : List Lexeme}
    {depth : Nat} {visit : List Callback → List Callback} {fits : List Callback → Bool}
    (skips : ∀ parser told, Skipping buffers others told s.kind kind [] parser →
      SkipsUnless (([] : List Kind).count kind + depth < 2 ^ 32) buffers others told s.kind kind []
      kinds (Feed visitors parser (textFrom spacing (written + 1) content)))
    (reads : ∀ next parent told, Rests kind .initialOpen next → Rests s.kind .closed parent →
      ReadsUnless visitors buffers (parent :: others) (kind :: kinds) Delimited (fits told)
      (Ends kind) (visit told) ⟨buffers, next :: parent :: others, told⟩
      (textFrom spacing (written + 1) content)) :
    ReadsUnless visitors buffers others kinds Delimited
      (fitsNested visitors buffers others.length (openingEvent tag kind) callbacks fits depth)
      (Rests s.kind .closed)
      (visitNested visitors buffers others.length (openingEvent tag kind) callbacks visit)
      ⟨buffers, s :: others, callbacks⟩
      (textFrom spacing written (.opening kind :: (content ++ [.closing kind]))) := by
  have text : textFrom spacing written (.opening kind :: (content ++ [.closing kind])) =
      (spacing written).map character ++ ((Lexeme.opening kind).text ++
        (textFrom spacing (written + 1) content ++
          ((spacing (written + 1 + content.length)).map character ++
            (Lexeme.closing kind).text))) := by
    rw [textFrom, textFrom_append, textFrom, textFrom, append_nil]
  rw [text]
  obtain ⟨parent, inside, skipped, rests, begins, skipping, between, opened⟩ := slot_nest
    buffers others callbacks quiet slot (spacing written) kind
  -- a container that has been lost, and one that is skipped
  have lose {parser : StreamingParser} (lost : Lost buffers (kind :: kinds) parser) :
      Lost buffers kinds (Feed visitors parser
        ((spacing (written + 1 + content.length)).map character ++ (Lexeme.closing kind).text)) := by
    rw [feed_append]
    exact lost_lexeme quiet room (lost_spaces quiet room lost _) (if_pos rfl)
  have skipped (told : List Callback)
      (opened : ∀ data, Feed visitors ⟨buffers, s :: others, callbacks⟩
          ((spacing written).map character ++ ((Lexeme.opening kind).text ++ data)) =
        Feed visitors ⟨buffers, skipped :: others, told⟩ data) :
      ReadsUnless visitors buffers others kinds Delimited (decide (depth < 2 ^ 32)) (Rests s.kind .closed)
        told ⟨buffers, s :: others, callbacks⟩
        ((spacing written).map character ++ ((Lexeme.opening kind).text ++
          (textFrom spacing (written + 1) content ++
            ((spacing (written + 1 + content.length)).map character ++
              (Lexeme.closing kind).text)))) := by
    obtain ⟨stays, loses⟩ := skips _ told ⟨skipped, told, rfl, ⟨skipping, rfl⟩, between.neutral⟩
    rw [count_nil, Nat.zero_add] at stays loses
    constructor
    · intro fit rest _
      obtain ⟨next, rests, ended⟩ := skipping_end visitors
        (skipping_spaces visitors room (stays (of_decide_eq_true fit))
          (spacing (written + 1 + content.length))) (dvd_zero _)
      refine ⟨next, rests, ?_⟩
      simp only [append_assoc]
      rw [opened, feed_append, feed_append, feed_append, ended]
    · intro unfit
      rw [opened, feed_append]
      exact lose (loses (of_decide_eq_false unfit))
  simp only [visitNested, fitsNested]
  split
  next full =>
    simp only [full, if_true] at opened
    exact skipped callbacks opened
  next vacant =>
    simp only [vacant, if_false] at opened
    split
    next nested =>
      simp only [nested, if_true] at opened
      obtain ⟨stays, loses⟩ := reads inside parent (callbacks ++ [⟨others.length, openingEvent tag kind⟩])
        begins rests
      constructor
      · intro fit rest _
        obtain ⟨next, ends, fed⟩ := stays fit
          ((spacing (written + 1 + content.length)).map character ++
            ((Lexeme.closing kind).text ++ rest)) (delimited_closing _ kind rest)
        refine ⟨parent, rests, ?_⟩
        simp only [append_assoc]
        rw [opened, fed, ends_closing quiet ends, length_cons]
      · intro unfit
        rw [opened, feed_append]
        exact lose (loses unfit)
    next declined =>
      simp only [declined] at opened
      exact skipped _ opened

theorem separation_reads (visitors : Visitors) (buffers : Buffers) (others : List JsonSubParser)
    (callbacks : List Callback) {separated : Bool}
    (rests : Rests kind (if separated then .closed else .initialOpen) s) (spacing : Spacing)
    (written : Nat) :
    ∃ next state, Rests kind state next ∧ (state = .initialOpen ∨ state = .open) ∧
      ∀ data, Feed visitors ⟨buffers, s :: others, callbacks⟩
          (textFrom spacing written (if separated then [.comma] else []) ++ data) =
        Feed visitors ⟨buffers, next :: others, callbacks⟩ data := by
  cases separated with
  | false => exact ⟨s, .initialOpen, rests, .inl rfl, fun data => rfl⟩
  | true =>
    rw [if_pos rfl] at rests
    have found := ready_found rests.ready .comma
    refine ⟨{ s with
        state := .open
        tokenizer := { s.tokenizer.FoundToken .comma with valueBuffer := [], tokenState := .open } },
      .open, ⟨rests.parent, rfl, rests.skips, nextToken_ready found⟩, .inr rfl, fun data => ?_⟩
    have fed : FeedToken buffers.maxValueLength true s.tokenizer (Lexeme.comma.text ++ data) =
        (s.tokenizer.FoundToken .comma, data) := by
      rw [Lexeme.text, singleton_append, feedToken_cons]
      simp only [Tokenizer.step, rests.ready.state, if_true]
      exact feedToken_done rfl data
    have outcome (tokenizer : Tokenizer) (token : tokenizer.token = .comma) :
        foundToken visitors ⟨buffers, { s with tokenizer } :: others, callbacks⟩ { s with tokenizer } =
          .goesOn ⟨buffers, { s with tokenizer, state := .open } :: others, callbacks⟩ := by
      obtain ⟨kind', tagBuffer, before, state, skipped⟩ := s
      obtain ⟨rfl, rfl, -, -⟩ := rests
      cases kind' <;> simp only [foundToken, objectToken, arrayToken, token, setState, modifyBack,
        modifyHead_cons]
    rw [if_pos rfl, textFrom, textFrom, append_nil, append_assoc,
      feed_lexeme rests.visits rests.ready _ (by simp [Lexeme.text]) fed found]
    simp only [tokenFed, outcome _ found.token]
    exact drive_sound (by simp [Sound]) data

theorem tag_reads (quiet : Quiet visitors) {state : State} (rests : Rests .object state s)
    (before : state = .initialOpen ∨ state = .open) (spacing : Spacing) (written : Nat)
    (kinds : List Kind) (tag : List Character) :
    ReadsUnless visitors buffers others kinds Anything (decide (stringFits buffers.maxValueLength tag))
      (fun next => next.kind = .object ∧ Slot (some (keptTag buffers tag)) next) callbacks
      ⟨buffers, s :: others, callbacks⟩ (textFrom spacing written [.string tag, .colon]) := by
  have visits : Visits s := by
    have state := rests.state
    rcases before with rfl | rfl <;>
      exact ⟨by simp [Sound, state], by simp [saves, state], rests.skips⟩
  simp only [textFrom, append_nil]
  constructor
  · intro fit rest _
    simp only [append_assoc]
    obtain ⟨tokenizer, found, fed⟩ := feedToken_string_fits rests.ready (of_decide_eq_true fit)
      ((spacing (written + 1)).map character ++ (Lexeme.colon.text ++ rest))
    have outcome :
        foundToken visitors ⟨buffers, { s with tokenizer } :: others, callbacks⟩ { s with tokenizer } =
          .goesOn ⟨buffers, { s with
            tokenizer
            state := .tagClosed
            tagBuffer := keptTag buffers tag } :: others, callbacks⟩ := by
      have token := found.token
      rw [stringToken] at token
      rw [keptTag, ← found.value]
      obtain ⟨kind', tagBuffer, between, state', skipped⟩ := s
      obtain ⟨rfl, rfl, -, -⟩ := rests
      rcases before with rfl | rfl
      all_goals
        split at token
        all_goals
          simp only [foundToken, objectToken, token, modifyBack, modifyHead_cons]
    obtain ⟨closed, same⟩ : ∃ closed : JsonSubParser, closed =
        { s with
          tagBuffer := keptTag buffers tag
          state := .tagClosed
          tokenizer := { tokenizer with valueBuffer := [], tokenState := .open } } := ⟨_, rfl⟩
    have between : closed.tokenizer.Ready := by
      rw [same]
      exact nextToken_ready found
    have visits' : Visits closed := by
      rw [same]
      exact visits_state visits (by simp) (by simp)
    have colon : FeedToken buffers.maxValueLength true closed.tokenizer (Lexeme.colon.text ++ rest) =
        (closed.tokenizer.FoundToken .colon, rest) := by
      rw [Lexeme.text, singleton_append, feedToken_cons]
      simp only [Tokenizer.step, between.state, if_true]
      exact feedToken_done rfl rest
    have found' := ready_found between .colon
    refine ⟨{ closed with
        state := .valueExpected
        tokenizer := { closed.tokenizer.FoundToken .colon with valueBuffer := [], tokenState := .open } },
      ⟨?_, ?_, nextToken_ready found', .inl ⟨?_, rfl, ?_⟩⟩, ?_⟩
    · rw [same]
      exact rests.parent
    · rw [same]
      exact rests.skips
    · rw [same]
      exact rests.parent
    · rw [same]
    · rw [feed_lexeme visits rests.ready _ (by simp [Lexeme.text]) fed found]
      have after : nextToken ⟨buffers, { s with
            tokenizer
            state := .tagClosed
            tagBuffer := keptTag buffers tag } :: others, callbacks⟩ =
          ⟨buffers, closed :: others, callbacks⟩ := by
        rw [same]
        rfl
      simp only [tokenFed, outcome, after]
      rw [drive_sound visits'.sound, feed_lexeme visits' between _ (by simp [Lexeme.text]) colon found']
      have outcome' :
          foundToken visitors
              ⟨buffers, { closed with tokenizer := closed.tokenizer.FoundToken .colon } :: others, callbacks⟩
              { closed with tokenizer := closed.tokenizer.FoundToken .colon } =
            .goesOn ⟨buffers, { closed with
              tokenizer := closed.tokenizer.FoundToken .colon
              state := .valueExpected } :: others, callbacks⟩ := by
        have kind' : closed.kind = .object := by
          rw [same]
          exact rests.parent
        have state' : closed.state = .tagClosed := by rw [same]
        simp only [foundToken, objectToken, kind', state', Tokenizer.FoundToken, setState, modifyBack,
          modifyHead_cons]
      simp only [tokenFed, outcome']
      exact drive_sound (by simp [Sound]) rest
  · intro unfit
    obtain ⟨tokenizer, value, left, found, fed⟩ := feedToken_string_broken rests.ready
      (of_decide_eq_false unfit) ((spacing (written + 1)).map character ++ Lexeme.colon.text)
    obtain ⟨last, ended, after⟩ : ∃ last : StreamingParser, last.Ended ∧ ∀ rest,
        tokenFed visitors ⟨buffers, { s with tokenizer } :: others, callbacks⟩ { s with tokenizer } rest =
          last :=
      (visiting_mode buffers others quiet).error ⟨visits.sound, visits.visited, visits.skips⟩
        visits.visited found
    rw [feed_lexeme visits rests.ready _ (by simp [Lexeme.text]) fed found, after]
    exact .ended ended

theorem readsUnless_after {before text : Text} {next : StreamingParser}
    (fed : ∀ data, Feed visitors parser (before ++ data) = Feed visitors next data)
    (reads : ReadsUnless visitors buffers others kinds continues fits ends told next text) :
    ReadsUnless visitors buffers others kinds continues fits ends told parser (before ++ text) := by
  constructor
  · intro fit rest continued
    rw [append_assoc, fed]
    exact reads.1 fit rest continued
  · intro unfit
    rw [fed]
    exact reads.2 unfit

theorem delimited_comma (rest : Text) :
    Delimited (spaces.map character ++ (Lexeme.comma.text ++ rest)) :=
  delimited_text spaces rfl (by constructor <;> decide) rest

theorem delimited_members (written : Nat) (members : Members) (delimited : Delimited rest) :
    Delimited (textFrom spacing written (members.lexemes true) ++ rest) := by
  cases members with
  | nil => exact delimited
  | cons tag value members =>
    rw [Members.lexemes, if_pos rfl, singleton_append, textFrom, append_assoc,
      append_assoc]
    exact delimited_comma _ _

theorem delimited_elements (written : Nat) (elements : Elements) (delimited : Delimited rest) :
    Delimited (textFrom spacing written (elements.lexemes true) ++ rest) := by
  cases elements with
  | nil => exact delimited
  | cons value elements =>
    rw [Elements.lexemes, if_pos rfl, singleton_append, textFrom, append_assoc,
      append_assoc]
    exact delimited_comma _ _

theorem waiting_cons {parent : JsonSubParser} (rests : Rests kind .closed parent)
    (waiting : Waiting others) : Waiting (parent :: others) := by
  intro other member
  rcases mem_cons.mp member with rfl | member
  · exact ⟨rests.visits, rests.ready⟩
  · exact waiting other member

mutual

theorem value_reads (quiet : Quiet visitors) (room : 0 < buffers.maxValueLength)
    {s : JsonSubParser} {others : List JsonSubParser} {callbacks : List Callback} {tag : Option Text}
    (slot : Slot tag s) (waiting : Waiting others) {kinds : List Kind}
    (inStep : others.length + 1 = kinds.length) (spacing : Spacing) (written : Nat) (value : Value) :
    ReadsUnless visitors buffers others kinds Delimited
      (fitsValue visitors buffers others.length tag callbacks value) (Rests s.kind .closed)
      (visitValue visitors buffers others.length tag callbacks value)
      ⟨buffers, s :: others, callbacks⟩ (textFrom spacing written value.lexemes) := by
  cases value with
  | string characters => exact string_reads quiet slot spacing written kinds characters
  | number number => exact number_reads quiet room slot spacing written kinds number
  | literal literal => exact literal_reads quiet room slot spacing written kinds literal
  | object members =>
    rw [fitsValue, visitValue, Value.lexemes]
    apply container_reads quiet room slot spacing written .object
    · intro parser told skipping
      exact skipping_members quiet room waiting inStep skipping (by simp) spacing (written + 1) false members
    · intro next parent told begins rests
      exact members_reads quiet room false begins (waiting_cons rests waiting)
        (by rw [length_cons, length_cons, inStep]) spacing (written + 1) members
  | array elements =>
    rw [fitsValue, visitValue, Value.lexemes]
    apply container_reads quiet room slot spacing written .array
    · intro parser told skipping
      exact skipping_elements quiet room waiting inStep skipping (by simp) spacing (written + 1) false
        elements
    · intro next parent told begins rests
      exact elements_reads quiet room false begins (waiting_cons rests waiting)
        (by rw [length_cons, length_cons, inStep]) spacing (written + 1) elements

theorem members_reads (quiet : Quiet visitors) (room : 0 < buffers.maxValueLength)
    {s : JsonSubParser} {others : List JsonSubParser} {callbacks : List Callback} (separated : Bool)
    (rests : Rests .object (if separated then .closed else .initialOpen) s) (waiting : Waiting others)
    {kinds : List Kind} (inStep : others.length + 1 = kinds.length) (spacing : Spacing) (written : Nat)
    (members : Members) :
    ReadsUnless visitors buffers others kinds Delimited
      (fitsMembers visitors buffers others.length callbacks members) (Ends .object)
      (visitMembers visitors buffers others.length callbacks members)
      ⟨buffers, s :: others, callbacks⟩ (textFrom spacing written (members.lexemes separated)) := by
  cases members with
  | nil =>
    refine ⟨fun _ rest _ => ⟨s, ?_, rfl⟩, fun unfit => by cases unfit⟩
    cases separated
    · exact .inl rests
    · exact .inr rests
  | cons tag value members =>
    obtain ⟨next, state, rests, before, fed⟩ := separation_reads visitors buffers others callbacks rests spacing written
    have balanced : nested kinds (value.lexemes ++ members.lexemes true) = some kinds := by
      rw [nested_append, nested_value, Option.bind_some, nested_members]
    have text (written : Nat) :
        textFrom spacing written (.string tag :: .colon :: (value.lexemes ++ members.lexemes true)) =
          textFrom spacing written [.string tag, .colon] ++
            textFrom spacing (written + 2) (value.lexemes ++ members.lexemes true) :=
      textFrom_append spacing written [.string tag, .colon] _
    rw [Members.lexemes, textFrom_append, text]
    apply readsUnless_after fed
    apply readsUnless_then quiet room rfl balanced (fun _ _ => trivial) (fun _ => trivial)
      (tag_reads quiet rests before spacing _ kinds tag)
    rintro next ⟨object, slot⟩
    rw [textFrom_append]
    apply readsUnless_then quiet room rfl (nested_members members true kinds)
      (fun rest delimited => delimited_members spacing _ members delimited) _
      (value_reads quiet room slot waiting inStep spacing _ value)
    · intro next rests
      rw [object] at rests
      exact members_reads quiet room true rests waiting inStep spacing _ members
    · intro unfit
      cases members with
      | nil => cases unfit
      | cons tag value members =>
        rw [Members.lexemes, if_pos rfl, singleton_append, textFrom]
        exact delimited_comma _ _

theorem elements_reads (quiet : Quiet visitors) (room : 0 < buffers.maxValueLength)
    {s : JsonSubParser} {others : List JsonSubParser} {callbacks : List Callback} (separated : Bool)
    (rests : Rests .array (if separated then .closed else .initialOpen) s) (waiting : Waiting others)
    {kinds : List Kind} (inStep : others.length + 1 = kinds.length) (spacing : Spacing) (written : Nat)
    (elements : Elements) :
    ReadsUnless visitors buffers others kinds Delimited
      (fitsElements visitors buffers others.length callbacks elements) (Ends .array)
      (visitElements visitors buffers others.length callbacks elements)
      ⟨buffers, s :: others, callbacks⟩ (textFrom spacing written (elements.lexemes separated)) := by
  cases elements with
  | nil =>
    refine ⟨fun _ rest _ => ⟨s, ?_, rfl⟩, fun unfit => by cases unfit⟩
    cases separated
    · exact .inl rests
    · exact .inr rests
  | cons value elements =>
    obtain ⟨next, state, rests, before, fed⟩ := separation_reads visitors buffers others callbacks rests spacing written
    have slot : Slot none next := ⟨rests.skips, rests.ready, .inr ⟨rests.parent, by rw [rests.state]; exact before, rfl⟩⟩
    rw [Elements.lexemes, textFrom_append, textFrom_append]
    apply readsUnless_after fed
    apply readsUnless_then quiet room rfl (nested_elements elements true kinds)
      (fun rest delimited => delimited_elements spacing _ elements delimited) _
      (value_reads quiet room slot waiting inStep spacing _ value)
    · intro last rests'
      rw [rests.parent] at rests'
      exact elements_reads quiet room true rests' waiting inStep spacing _ elements
    · intro unfit
      cases elements with
      | nil => cases unfit
      | cons value elements =>
        rw [Elements.lexemes, if_pos rfl, singleton_append, textFrom]
        exact delimited_comma _ _

end

/-! ### Whole objects -/

/-- What a visitor of an object that is accepted is never told. -/
def Accepting (callback : Callback) : Prop :=
  callback.event ≠ .parseError ∧ callback ≠ ⟨0, .close⟩

theorem visitNested_accepting (proper : event ≠ .parseError ∧ event ≠ .close)
    {content : List Callback → List Callback}
    (accepting : ∀ callback ∈ callbacks, Accepting callback)
    (inside : ∀ callbacks, (∀ callback ∈ callbacks, Accepting callback) →
      ∀ callback ∈ content callbacks, Accepting callback) :
    ∀ callback ∈ visitNested visitors buffers place event callbacks content, Accepting callback := by
  have told : ∀ callback ∈ callbacks ++ [⟨place, event⟩], Accepting callback := by
    intro callback member
    rcases mem_append.mp member with member | member
    · exact accepting callback member
    · rw [mem_singleton.mp member]
      exact ⟨proper.1, fun close => proper.2 (congrArg Callback.event close)⟩
  rw [visitNested]
  repeat' split
  · exact accepting
  · intro callback member
    rcases mem_append.mp member with member | member
    · exact inside _ told callback member
    · rw [mem_singleton.mp member]
      exact ⟨by simp, by simp⟩
  · exact told

theorem append_accepting (proper : event ≠ .parseError ∧ event ≠ .close)
    (accepting : ∀ callback ∈ callbacks, Accepting callback) :
    ∀ callback ∈ callbacks ++ [⟨place, event⟩], Accepting callback := by
  intro callback member
  rcases mem_append.mp member with member | member
  · exact accepting callback member
  · rw [mem_singleton.mp member]
    exact ⟨proper.1, fun close => proper.2 (congrArg Callback.event close)⟩

mutual

theorem visitValue_accepting (visitors : Visitors) (buffers : Buffers) (place : Nat)
    (tag : Option Text) (callbacks : List Callback)
    (accepting : ∀ callback ∈ callbacks, Accepting callback) (value : Value) :
    ∀ callback ∈ visitValue visitors buffers place tag callbacks value, Accepting callback := by
  cases value with
  | string characters =>
    refine append_accepting ?_ accepting
    rw [stringEvent]
    split <;> simp
  | number number => exact append_accepting (by simp [numberEvent]) accepting
  | literal literal =>
    refine append_accepting ?_ accepting
    cases literal <;> simp [literalEvent]
  | object members =>
    rw [visitValue]
    exact visitNested_accepting (by simp) accepting fun callbacks accepting =>
      visitMembers_accepting visitors buffers (place + 1) callbacks accepting members
  | array elements =>
    rw [visitValue]
    exact visitNested_accepting (by simp) accepting fun callbacks accepting =>
      visitElements_accepting visitors buffers (place + 1) callbacks accepting elements

theorem visitMembers_accepting (visitors : Visitors) (buffers : Buffers) (place : Nat)
    (callbacks : List Callback) (accepting : ∀ callback ∈ callbacks, Accepting callback)
    (members : Members) :
    ∀ callback ∈ visitMembers visitors buffers place callbacks members, Accepting callback := by
  cases members with
  | nil => exact accepting
  | cons tag value members =>
    exact visitMembers_accepting visitors buffers place _
      (visitValue_accepting visitors buffers place _ callbacks accepting value) members

theorem visitElements_accepting (visitors : Visitors) (buffers : Buffers) (place : Nat)
    (callbacks : List Callback) (accepting : ∀ callback ∈ callbacks, Accepting callback)
    (elements : Elements) :
    ∀ callback ∈ visitElements visitors buffers place callbacks elements, Accepting callback := by
  cases elements with
  | nil => exact accepting
  | cons value elements =>
    exact visitElements_accepting visitors buffers place _
      (visitValue_accepting visitors buffers place _ callbacks accepting value) elements

end

def unclosed (members : Members) : Text :=
  textFrom spacing 0 (.opening .object :: members.lexemes false)

def objectText (members : Members) (trailing : List Space) : Text :=
  textFrom spacing 0 (Value.object members).lexemes ++ trailing.map Space.character

/-- A parser accepts an object: no visitor is told of a parse error, the visitor of the object is
told of its end at the brace that ends it and only there, and before that the visitors have been
told of every member that is not skipped. -/
structure Accepts (visitors : Visitors) (buffers : Buffers) (spacing : Spacing) (members : Members)
    (trailing : List Space) : Prop where
  sound : ∀ callback ∈ (Feed visitors (constructed buffers .object)
    (objectText spacing members trailing)).callbacks, callback.event ≠ .parseError
  unclosed : ⟨0, .close⟩ ∉ (Feed visitors (constructed buffers .object) (unclosed spacing members)).callbacks
  told : (Feed visitors (constructed buffers .object) (objectText spacing members trailing)).callbacks =
    visitMembers visitors buffers 0 [] members ++ [⟨0, .close⟩]

theorem constructed_opening (visitors : Visitors) (buffers : Buffers) (spaces : List Space) :
    ∃ s, Rests .object .initialOpen s ∧
      ∀ data, Feed visitors (constructed buffers .object)
          (spaces.map character ++ ((Lexeme.opening .object).text ++ data)) =
        Feed visitors ⟨buffers, [s], []⟩ data := by
  have ready : Tokenizer.Ready {} := ⟨rfl, rfl, rfl, rfl⟩
  have visits : Visits { kind := .object, tagBuffer := [], tokenizer := {}, state := .init } :=
    ⟨by simp [Sound], by simp [saves], rfl⟩
  have found := ready_found ready (openingToken .object)
  refine ⟨{
      kind := .object
      tagBuffer := []
      tokenizer := { Tokenizer.FoundToken {} .leftBrace with valueBuffer := [], tokenState := .open }
      state := .initialOpen }, ⟨rfl, rfl, rfl, nextToken_ready found⟩, fun data => ?_⟩
  have fed := feedToken_opening ready buffers.maxValueLength true .object data
  rw [constructed, feed_lexeme visits ready spaces (by simp [Lexeme.text]) fed found]
  exact drive_sound (by simp [Sound]) data

theorem unclosed_waits (ends : Ends .object s) :
    (Feed visitors ⟨buffers, [s], callbacks⟩ [Space.space.character]).callbacks = callbacks := by
  have fed : FeedToken buffers.maxValueLength (saves s) s.tokenizer [Space.space.character] =
      (s.tokenizer, []) := by
    rw [feedToken_cons]
    simp only [Tokenizer.step, ends.ready.state]
    exact feedToken_nil _
  rw [feed_pending ends.visits.sound (by simp) fed (by simp [ends.ready.state])]

theorem object_pieces (quiet : Quiet visitors) (room : 0 < buffers.maxValueLength) (spacing : Spacing)
    (members : Members) (trailing : List Space) :
    ∃ s, ReadsUnless visitors buffers [] [.object] Delimited (fitsMembers visitors buffers 0 [] members)
        (Ends .object) (visitMembers visitors buffers 0 [] members) ⟨buffers, [s], []⟩
        (textFrom spacing 1 (members.lexemes false)) ∧
      Feed visitors (constructed buffers .object) (unclosed spacing members) =
        Feed visitors ⟨buffers, [s], []⟩ (textFrom spacing 1 (members.lexemes false)) ∧
      Feed visitors (constructed buffers .object) (objectText spacing members trailing) =
        Feed visitors ⟨buffers, [s], []⟩ (textFrom spacing 1 (members.lexemes false) ++
          ((spacing (1 + (members.lexemes false).length)).map character ++
            ((Lexeme.closing .object).text ++ trailing.map character))) := by
  obtain ⟨s, rests, opened⟩ := constructed_opening visitors buffers (spacing 0)
  refine ⟨s, members_reads quiet room false rests (by simp [Waiting]) rfl spacing 1 members, ?_, ?_⟩
  · rw [unclosed, textFrom, opened]
  · rw [objectText, Value.lexemes, textFrom, textFrom_append, textFrom, textFrom, append_nil]
    simp only [append_assoc]
    rw [opened]

theorem fits_of_accepts (quiet : Quiet visitors) (room : 0 < buffers.maxValueLength)
    {spacing : Spacing} {trailing : List Space}
    (accepts : Accepts visitors buffers spacing members trailing) :
    fitsMembers visitors buffers 0 [] members = true := by
  obtain ⟨s, reads, before, whole⟩ := object_pieces quiet room spacing members trailing
  by_contra unfit
  have lost := reads.2 (by simpa using unfit)
  cases lost with
  | ended ended =>
    obtain ⟨stopped, callback, member, error | close⟩ := ended
    · have told := accepts.sound callback
      rw [whole, feed_append, feed_empty stopped] at told
      exact told member error
    · have told := accepts.unclosed
      rw [before, ← close] at told
      exact told member
  | visiting _ _ fewer => simp at fewer
  | @skipping _ _ _ _ inner _ _ _ nested fewer =>
    have length := congrArg List.length nested
    simp only [length_append, length_cons, length_nil] at length
    omega

theorem accepts_of_fits (quiet : Quiet visitors) (room : 0 < buffers.maxValueLength)
    (spacing : Spacing) (trailing : List Space)
    (fits : fitsMembers visitors buffers 0 [] members = true) :
    Accepts visitors buffers spacing members trailing := by
  obtain ⟨s, reads, before, whole⟩ := object_pieces quiet room spacing members trailing
  have accepting := visitMembers_accepting visitors buffers 0 [] (by simp) members
  obtain ⟨next, ends, fed⟩ := reads.1 fits _ (delimited_closing
    (spacing (1 + (members.lexemes false).length)) .object (trailing.map character))
  have told : Feed visitors (constructed buffers .object) (objectText spacing members trailing) =
      ⟨buffers, [], visitMembers visitors buffers 0 [] members ++ [⟨0, .close⟩]⟩ := by
    rw [whole, fed, ends_closing quiet ends, feed_empty rfl]
    rfl
  constructor
  · intro callback member
    rw [told] at member
    rcases mem_append.mp member with member | member
    · exact (accepting callback member).1
    · rw [mem_singleton.mp member]
      simp
  · -- nothing that has been told before the brace is undone by a space in front of it
    intro member
    have delimited : Delimited [Space.space.character] :=
      ⟨_, [], rfl, by constructor <;> decide⟩
    obtain ⟨next, ends, fed⟩ := reads.1 fits _ delimited
    have grows := feed_grows visitors
      (Feed visitors ⟨buffers, [s], []⟩ (textFrom spacing 1 (members.lexemes false)))
      [Space.space.character]
    rw [← feed_append, fed, unclosed_waits ends, ← before] at grows
    exact (accepting _ (grows.subset member)).2 rfl
  · rw [told]

/-- A parser accepts the objects whose visited content fits. -/
theorem accepts_iff (quiet : Quiet visitors) (room : 0 < buffers.maxValueLength) (spacing : Spacing)
    (members : Members) (trailing : List Space) :
    Accepts visitors buffers spacing members trailing ↔
      fitsMembers visitors buffers 0 [] members = true :=
  ⟨fits_of_accepts quiet room, accepts_of_fits quiet room spacing trailing⟩

/-- Visitors that return a visitor for every object and array. -/
def curious : Visitors := fun _ => ⟨true, []⟩

def letterTag : List Character := [.unescaped (char 'a') (by decide)]

/-- A string is longer than the value buffer, and an array is skipped since the stack is full. -/
theorem accepts_iff_nested :
    Accepts curious ⟨8, 12, 2⟩ (fun _ => [.space])
      (.cons letterTag (.object (.cons letterTag (.string (List.replicate 13 (.escaped .solidus)))
        (.cons letterTag (.array (.cons (.literal .null) .nil)) .nil)))
      (.cons letterTag (.number ⟨true, .nonzero 0 [5], some ⟨2, []⟩, some ⟨true, some .minus, 3, []⟩⟩) .nil))
      [.lineFeed] :=
  (accepts_iff (fun _ => rfl) (by decide) _ _ _).mpr (by decide)

/-- An exponent right after a whole number is an error: `{"a":1e5}`. -/
theorem bare_exponent_rejected :
    ¬ Accepts curious ⟨8, 12, 2⟩ (fun _ => [])
      (.cons letterTag (.number ⟨false, .nonzero 0 [], none, some ⟨false, none, 5, []⟩⟩) .nil) [] :=
  fun accepts => absurd (fits_of_accepts (fun _ => rfl) (by decide) accepts) (by decide)

end Json.Streaming
