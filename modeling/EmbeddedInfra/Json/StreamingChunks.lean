import EmbeddedInfra.Json.StreamingParser

/-! However JSON is cut into pieces, the visitors of a parser that is fed the pieces are
called as for the whole of it. -/

namespace Json.Streaming.StreamingParser

open List

variable {visitors : Visitors} {parser : StreamingParser} {subParser : JsonSubParser}
  {subObjects : List JsonSubParser}

/-- One `Feed` of the last sub parser, and then those of the sub parsers that are last after it. -/
def drive (visitors : Visitors) (parser : StreamingParser) (data : Text) : StreamingParser :=
  Feed visitors (feedLoop visitors parser data).1 (feedLoop visitors parser data).2

theorem feed_nil (parser : StreamingParser) : Feed visitors parser [] = parser := by
  rw [Feed, dif_neg]
  exact fun continues => continues.1 rfl

theorem feed_empty (stack : parser.subObjects = []) (data : Text) :
    Feed visitors parser data = parser := by
  rw [Feed, dif_neg]
  exact fun continues => continues.2 stack

theorem drive_empty (stack : parser.subObjects = []) (data : Text) :
    drive visitors parser data = parser := by
  rw [drive, feedLoop_empty stack, feed_empty stack]

theorem feed_drive (parser : StreamingParser) {data : Text} (some : data ≠ []) :
    Feed visitors parser data = drive visitors parser data := by
  by_cases stack : parser.subObjects = []
  · rw [feed_empty stack, drive_empty stack]
  · rw [Feed, dif_pos ⟨some, stack⟩, drive]

theorem drive_error (visitors : Visitors) (stack : parser.subObjects = subParser :: subObjects)
    (error : subParser.state = .parseError ∨ subParser.state = .semanticError) :
    ∃ last : StreamingParser, last.subObjects = [] ∧ ∀ data, drive visitors parser data = last := by
  obtain ⟨last, empty, reported⟩ := afterLoop_error visitors stack error
  refine ⟨last, empty, fun data => ?_⟩
  rw [drive, feedLoop_ended stack (.inr error), reported data, feed_nil]

theorem drive_nil (stack : parser.subObjects = subParser :: subObjects)
    (goesOn : ¬ (subParser.state = .parseError ∨ subParser.state = .semanticError)) :
    drive visitors parser [] = parser := by
  have unreported : parser.afterLoop visitors [] = (parser, []) := by
    simp only [afterLoop, stack]
    split
    next error => exact absurd (.inl error) goesOn
    next error => exact absurd (.inr error) goesOn
    · rfl
  rw [drive, feedLoop_ended stack (.inl rfl), unreported, feed_nil]

theorem drive_pass (stack : parser.subObjects = subParser :: subObjects)
    (goesOn : ¬ (subParser.state = .parseError ∨ subParser.state = .semanticError))
    {data : Text} (some : data ≠ []) :
    drive visitors parser data =
      match parser.pass visitors subParser data with
      | (.goesOn next, rest) => drive visitors next rest
      | (.returns next, rest) => Feed visitors next rest := by
  have continues : ¬ (data = [] ∨ subParser.state = .parseError ∨ subParser.state = .semanticError) :=
    fun ended => ended.elim some goesOn
  rw [drive, feedLoop_pass stack continues]
  obtain ⟨outcome, rest⟩ := parser.pass visitors subParser data
  cases outcome <;> rfl

theorem pass_append (visitors : Visitors) (stack : parser.subObjects = subParser :: subObjects)
    (first second : Text) :
    parser.pass visitors subParser (first ++ second) =
        ((parser.pass visitors subParser first).1, (parser.pass visitors subParser first).2 ++ second) ∨
      ∃ begun : StreamingParser, ∃ tokenizer : Tokenizer,
        begun.subObjects = { subParser with tokenizer } :: subObjects ∧
          parser.pass visitors subParser first = (.returns begun, []) ∧
          parser.pass visitors subParser (first ++ second) =
            begun.pass visitors { subParser with tokenizer } second := by
  have all := (length_feedToken parser.buffers.maxValueLength
    (subParser.state ≠ .skipNestedObject ∧ subParser.state ≠ .skipNestedArray)
    subParser.tokenizer first).2.2
  have append := feedToken_append parser.buffers.maxValueLength
    (subParser.state ≠ .skipNestedObject ∧ subParser.state ≠ .skipNestedArray)
    subParser.tokenizer first second
  revert all append
  simp only [pass]
  generalize FeedToken _ _ subParser.tokenizer first = fed
  obtain ⟨tokenizer, rest⟩ := fed
  intro all append
  rw [append]
  dsimp only at all ⊢
  by_cases done : tokenizer.tokenState = .done
  · left
    simp only [done, ne_eq, not_true, if_false, if_true]
    split <;> rfl
  · right
    refine ⟨parser.modifyBack ({ · with tokenizer }), tokenizer, ?_, ?_, ?_⟩
    · rw [modifyBack, stack, modifyHead_cons]
    · rw [if_pos done, all done]
    · simp only [if_neg done, modifyBack, stack, modifyHead_cons]

theorem drive_append (parser : StreamingParser) (first : Text) {second : Text} (some : second ≠ []) :
    drive visitors parser (first ++ second) =
      drive visitors (drive visitors parser first) second := by
  induction measure : parser.passes first using Nat.strong_induction_on generalizing parser first with
  | _ count ih =>
    cases stack : parser.subObjects with
    | nil => simp only [drive_empty stack]
    | cons subParser subObjects =>
      by_cases error : subParser.state = .parseError ∨ subParser.state = .semanticError
      · obtain ⟨last, empty, reported⟩ := drive_error visitors stack error
        rw [reported, reported, drive_empty empty]
      by_cases none : first = []
      · rw [none, nil_append, drive_nil stack error]
      have filled : first ++ second ≠ [] := fun empty => some (append_eq_nil_iff.mp empty).2
      have less : ∀ next rest, parser.pass visitors subParser first = (.goesOn next, rest) ∨
          parser.pass visitors subParser first = (.returns next, rest) →
            next.passes rest < count :=
        fun next rest passed => measure ▸ pass_passes stack none passed
      rw [drive_pass stack error filled, drive_pass stack error none]
      rcases pass_append visitors stack first second with
        whole | ⟨begun, tokenizer, stack', cut, whole⟩
      · rw [whole]
        revert less
        obtain ⟨outcome, rest⟩ := parser.pass visitors subParser first
        intro less
        cases outcome with
        | goesOn next => exact ih _ (less next rest (.inl rfl)) next rest rfl
        | returns next =>
          dsimp only
          by_cases rest = []
          next ended => rw [ended, nil_append, feed_nil, feed_drive next some]
          next left =>
            have left' : rest ++ second ≠ [] := fun empty => left (append_eq_nil_iff.mp empty).1
            rw [feed_drive next left', feed_drive next left]
            exact ih _ (less next rest (.inr rfl)) next rest rfl
      · rw [cut, whole]
        dsimp only
        rw [feed_nil, drive_pass stack' error some]

theorem feed_append (parser : StreamingParser) (first second : Text) :
    Feed visitors parser (first ++ second) = Feed visitors (Feed visitors parser first) second := by
  by_cases last : second = []
  · rw [last, append_nil, feed_nil]
  by_cases none : first = []
  · rw [none, nil_append, feed_nil]
  have filled : first ++ second ≠ [] := fun empty => last (append_eq_nil_iff.mp empty).2
  calc Feed visitors parser (first ++ second)
      = drive visitors parser (first ++ second) := feed_drive parser filled
    _ = drive visitors (drive visitors parser first) second := drive_append parser first last
    _ = Feed visitors (Feed visitors parser first) second := by
        rw [feed_drive parser none, feed_drive _ last]

theorem feed_flatten (parser : StreamingParser) (pieces : List Text) :
    pieces.foldl (Feed visitors) parser = Feed visitors parser pieces.flatten := by
  induction pieces generalizing parser with
  | nil => rw [foldl_nil, flatten_nil, feed_nil]
  | cons piece pieces ih => rw [foldl_cons, flatten_cons, ih, feed_append]

theorem call_grows (visitors : Visitors) (parser : StreamingParser) (subObject : Nat) (event : Event) :
    parser.callbacks <+: (parser.call visitors subObject event).callbacks :=
  ⟨[⟨subObject, event⟩], rfl⟩

theorem report_grows (event : Event) (places : List Nat) (parser : StreamingParser) :
    parser.callbacks <+: (report visitors event places parser).callbacks := by
  induction places generalizing parser with
  | nil => exact List.prefix_rfl
  | cons place places ih => exact (call_grows visitors parser place event).trans (ih _)

/-- The parser that a token leads to. -/
def after : Outcome → StreamingParser
  | .goesOn parser => parser
  | .returns parser => parser

theorem nest_grows (parser : StreamingParser) (kind : Kind) (event : Event) (skip : State)
    (subParser : JsonSubParser) :
    parser.callbacks <+: (parser.nest visitors kind event skip subParser).callbacks := by
  simp only [nest]
  split
  · exact List.prefix_rfl
  · split
    · exact call_grows visitors ..
    · exact call_grows visitors ..

theorem foundToken_grows (visitors : Visitors) (parser : StreamingParser) (subParser : JsonSubParser) :
    parser.callbacks <+: (after (parser.foundToken visitors subParser)).callbacks := by
  have skipped (opening closing : Token) :
      (parser.skipToken opening closing subParser).callbacks = parser.callbacks := by
    simp only [skipToken]
    split
    · split <;> rfl
    · split <;> rfl
  simp only [foundToken]
  split
  all_goals
    simp only [objectToken, arrayToken]
    split
    all_goals
      simp only [after, skipped]
      first
        | exact List.prefix_rfl
        | exact nest_grows ..
        | exact ⟨[_], rfl⟩

theorem pass_grows (visitors : Visitors) (parser : StreamingParser) (subParser : JsonSubParser)
    (data : Text) :
    parser.callbacks <+: (after (parser.pass visitors subParser data).1).callbacks := by
  simp only [pass]
  split
  · exact List.prefix_rfl
  · have grows := foundToken_grows visitors
      (parser.modifyBack ({ · with
        tokenizer := (FeedToken parser.buffers.maxValueLength
          (subParser.state ≠ .skipNestedObject ∧ subParser.state ≠ .skipNestedArray)
          subParser.tokenizer data).1 }))
      { subParser with
        tokenizer := (FeedToken parser.buffers.maxValueLength
          (subParser.state ≠ .skipNestedObject ∧ subParser.state ≠ .skipNestedArray)
          subParser.tokenizer data).1 }
    split
    next next goesOn =>
      rw [goesOn] at grows
      exact grows
    next next returns =>
      rw [returns] at grows
      exact grows

theorem feedLoop_grows (parser : StreamingParser) (data : Text) :
    parser.callbacks <+: (feedLoop visitors parser data).1.callbacks := by
  induction measure : parser.passes data using Nat.strong_induction_on generalizing parser data with
  | _ count ih =>
    cases stack : parser.subObjects with
    | nil =>
      rw [feedLoop_empty stack]
    | cons subParser subObjects =>
      by_cases ended : data = [] ∨ subParser.state = .parseError ∨ subParser.state = .semanticError
      · rw [feedLoop_ended stack ended]
        simp only [afterLoop]
        repeat' split
        · exact List.prefix_rfl
        · exact report_grows ..
        · exact report_grows ..
        · exact List.prefix_rfl
      · rw [feedLoop_pass stack ended]
        have some : data ≠ [] := fun none => ended (.inl none)
        have grows := pass_grows visitors parser subParser data
        cases passed : parser.pass visitors subParser data with
        | mk outcome rest =>
          rw [passed] at grows
          cases outcome with
          | goesOn next =>
            have less := pass_passes stack some (.inl passed)
            exact grows.trans (ih _ (measure ▸ less) next rest rfl)
          | returns next => exact grows

theorem feed_grows (visitors : Visitors) (parser : StreamingParser) (data : Text) :
    parser.callbacks <+: (Feed visitors parser data).callbacks := by
  induction measure : parser.passes data using Nat.strong_induction_on generalizing parser data with
  | _ count ih =>
    by_cases continues : data ≠ [] ∧ parser.subObjects ≠ []
    · rw [Feed, dif_pos continues]
      have less := (feedLoop_passes visitors parser data).2 continues.1 continues.2
      exact (feedLoop_grows parser data).trans (ih _ (measure ▸ less) _ _ rfl)
    · rw [Feed, dif_neg continues]

/-- The visitors are called the same for JSON in pieces as for the whole of it. -/
theorem pieces_callbacks (visitors : Visitors) (buffers : Buffers) (pieces : List Text) :
    (pieces.foldl (Feed visitors) (constructed buffers .object)).callbacks =
      (Feed visitors (constructed buffers .object) pieces.flatten).callbacks := by
  rw [feed_flatten]

end Json.Streaming.StreamingParser
