import EmbeddedInfra.Json.Tokens

/-! `CleanJsonContents`, which writes over the contents that it reads, compared with copying the
tokens of a separate copy. -/

namespace Json

open JsonTokenizer List

/-- A `BoundedString`; all bytes up to `max_size()` are in the storage. -/
structure Contents where
  storage : Text
  size : Nat
  fits : size ≤ storage.length

/-- The storage of both `contents` and `newContents`, of which `written` bytes are written. -/
structure Cleaning where
  storage : Text
  written : Nat
  parseIndex : Nat

namespace Cleaning

variable (s : Cleaning)

def newContents : Text := s.storage.take s.written

/-- `Insert`, which aborts where there is not enough space. -/
def insert (range : Text) : Option Cleaning :=
  if range.length ≤ s.storage.length - s.written then
    some { s with
      storage := s.storage.take s.written ++ range ++ s.storage.drop (s.written + range.length)
      written := s.written + range.length }
  else none

/-- `Insert` of a range of the storage itself, byte by byte. -/
def insertView : Nat → Nat → Cleaning → Option Cleaning
  | _, 0, s => some s
  | position, count + 1, s => do
    let c ← s.storage[position]?
    let s ← s.insert [c]
    insertView (position + 1) count s

/-- A string is a view of the storage, and ends before its closing quotes. -/
def copyToken : Token → Option Cleaning
  | .finished | .error => none
  | .string value => do
    let opened ← s.insert [quotes]
    let copied ← insertView (s.parseIndex - (value.length + 1)) value.length opened
    copied.insert [quotes]
  | token => s.insert token.text

/-- The states at the start of each round of the loop, for at most a number of rounds. -/
def rounds (size : Nat) : Nat → Cleaning → Option (List Cleaning)
  | 0, _ => none
  | more + 1, s =>
    match token ⟨s.parseIndex, (s.storage.take size).drop s.parseIndex⟩ with
    | (token, tokenizer) =>
      if token = .finished ∨ token = .error then some [s]
      else do
        let t ← copyToken { s with parseIndex := tokenizer.parseIndex } token
        let states ← rounds size more t
        some (s :: states)

end Cleaning

namespace Contents

variable (contents : Contents)

def rounds : Option (List Cleaning) :=
  Cleaning.rounds contents.size (contents.size + 1) ⟨contents.storage, 0, 0⟩

def cleanJsonContents : Option Text :=
  contents.rounds.bind fun states => states.getLast?.map Cleaning.newContents

end Contents

/-- Where the tokens of a text up to the first `End` or `Error` are read. -/
def tokensFrom : Nat → JsonTokenizer → List JsonTokenizer
  | 0, _ => []
  | more + 1, tokenizer =>
    if tokenizer.token.1 = .finished ∨ tokenizer.token.1 = .error then []
    else tokenizer :: tokensFrom more tokenizer.token.2

def texts (tokens : List JsonTokenizer) : Text := tokens.flatMap fun tokenizer => tokenizer.token.1.text

namespace JsonTokenizer

variable (tokenizer : JsonTokenizer)

def missing : Nat := tokenizer.skipWhitespace.missingDigits tokenizer.token.1

def leftOut : Nat :=
  (tokenizer.rest.takeWhile isSpace).length + tokenizer.skipWhitespace.leftOutDigits tokenizer.token.1

end JsonTokenizer

/-- The characters that were left out so far make up for the digits that were missing. -/
def KeepsUp (ahead : Nat) (tokens : List JsonTokenizer) : Prop :=
  ∀ n, ((tokens.take n).map missing).sum ≤ ahead + ((tokens.take n).map leftOut).sum

namespace Contents

variable (contents : Contents)

def tokens : List JsonTokenizer :=
  tokensFrom (contents.size + 1) ⟨0, contents.storage.take contents.size⟩

/-- The tokens of a separate copy are copied, and the output does not overtake the reading. -/
def CleanedAsCopied : Prop :=
  contents.cleanJsonContents = some (texts contents.tokens) ∧
    ∀ states, contents.rounds = some states → ∀ s ∈ states, s.written ≤ s.parseIndex

end Contents

/-! ### Writing over what was read -/

namespace Cleaning

variable {s t : Cleaning} {range : Text}

/-- What is written is put behind what was, and nothing after it changes. -/
structure Inserted (s : Cleaning) (range : Text) (t : Cleaning) : Prop where
  written : t.written = s.written + range.length
  parseIndex : t.parseIndex = s.parseIndex
  size : t.storage.length = s.storage.length
  newContents : t.newContents = s.newContents ++ range
  unread : ∀ k, t.written ≤ k → t.storage.drop k = s.storage.drop k

theorem insert_some (room : s.written + range.length ≤ s.storage.length) :
    ∃ t, s.insert range = some t ∧ Inserted s range t := by
  have front : (s.storage.take s.written ++ range).length = s.written + range.length := by
    rw [length_append, length_take, Nat.min_eq_left (by omega)]
  refine ⟨_, if_pos (by omega), rfl, rfl, ?_, take_left' front, fun k behind => ?_⟩
  · rw [length_append, front, length_drop]
    omega
  · obtain ⟨more, rfl⟩ := Nat.exists_eq_add_of_le behind
    dsimp only
    rw [← drop_drop, drop_left' front, drop_drop]

theorem insert_insert (inside : s.written ≤ s.storage.length) (first second : Text) :
    (s.insert first).bind (·.insert second) = s.insert (first ++ second) := by
  by_cases room : s.written + first.length ≤ s.storage.length
  · have front : (s.storage.take s.written ++ first).length = s.written + first.length := by
      rw [length_append, length_take, Nat.min_eq_left inside]
    have size : (s.storage.take s.written ++ first ++
        s.storage.drop (s.written + first.length)).length = s.storage.length := by
      rw [length_append, front, length_drop]
      omega
    rw [insert, if_pos (by omega), Option.bind_some, insert, insert]
    by_cases fits : s.written + first.length + second.length ≤ s.storage.length
    · rw [if_pos (by rw [size]; dsimp only; omega), if_pos (by rw [length_append]; omega)]
      have back : (s.storage.take s.written ++ first ++
          s.storage.drop (s.written + first.length)).drop (s.written + first.length + second.length) =
            s.storage.drop (s.written + first.length + second.length) := by
        rw [← drop_drop, drop_left' front, drop_drop]
      dsimp only
      rw [take_left' front, back]
      simp only [append_assoc, length_append, Nat.add_assoc]
    · rw [if_neg (by rw [size]; dsimp only; omega), if_neg (by rw [length_append]; omega)]
  · rw [insert, if_neg (by omega), insert, if_neg (by rw [length_append]; omega)]
    rfl

theorem insertView_eq {value after : Text} {position : Nat}
    (view : s.storage.drop position = value ++ after) (behind : s.written ≤ position) :
    insertView position value.length s = s.insert value := by
  induction value generalizing s position with
  | nil =>
    rw [length_nil, insertView, insert, length_nil, if_pos (Nat.zero_le _), append_nil,
      Nat.add_zero, take_append_drop]
  | cons c value ih =>
    have inside : position < s.storage.length := by
      by_contra outside
      rw [drop_of_length_le (Nat.le_of_not_lt outside)] at view
      cases view
    have here : s.storage[position]? = some c := by
      rw [← head?_drop, view]
      rfl
    obtain ⟨t, inserts, inserted⟩ := @insert_some s [c] (by
      rw [length_singleton]
      omega)
    have written : t.written = s.written + 1 := inserted.written
    have later : t.storage.drop (position + 1) = value ++ after := by
      rw [inserted.unread _ (by omega), ← drop_drop, view]
      rfl
    rw [length_cons, insertView, here, Option.bind_eq_bind, Option.bind_some, inserts]
    change insertView (position + 1) value.length t = _
    rw [ih later (by omega), ← singleton_append, ← insert_insert (by omega), inserts]
    rfl

theorem copyToken_eq {token : Token} (notEnded : ¬ (token = .finished ∨ token = .error))
    (view : ∀ value, token = .string value → ∃ after,
      s.storage.drop (s.parseIndex - (value.length + 1)) = value ++ quotes :: after ∧
        s.written < s.parseIndex - (value.length + 1)) :
    s.copyToken token = s.insert token.text := by
  cases token with
  | finished => exact absurd (.inl rfl) notEnded
  | error => exact absurd (.inr rfl) notEnded
  | string value =>
    obtain ⟨after, here, behind⟩ := view value rfl
    have room : s.parseIndex - (value.length + 1) < s.storage.length := by
      by_contra outside
      rw [drop_of_length_le (Nat.le_of_not_lt outside)] at here
      cases value <;> cases here
    obtain ⟨opened, opens, inserted⟩ := @insert_some s [quotes] (by
      rw [length_singleton]
      omega)
    have written : opened.written = s.written + 1 := inserted.written
    have still := (inserted.unread _ (by omega)).trans here
    rw [copyToken, opens]
    change (insertView _ _ opened).bind (·.insert [quotes]) = _
    rw [insertView_eq still (by omega), insert_insert (by rw [inserted.size]; omega)]
    change (some opened).bind (·.insert (value ++ [quotes])) = _
    rw [← opens, insert_insert (by omega)]
    rfl
  | _ => rfl

/-- The state at the start of a round, when a separate copy is read at `tokenizer`. -/
structure InStep (size : Nat) (s : Cleaning) (tokenizer : JsonTokenizer) : Prop where
  unread : ⟨s.parseIndex, (s.storage.take size).drop s.parseIndex⟩ = tokenizer
  behind : s.written ≤ s.parseIndex
  within : s.parseIndex ≤ size
  fits : size ≤ s.storage.length

variable {size : Nat} {tokenizer : JsonTokenizer}

theorem InStep.round (inStep : InStep size s tokenizer)
    (notEnded : ¬ (tokenizer.token.1 = .finished ∨ tokenizer.token.1 = .error)) :
    ∃ count, tokenizer.token.2.parseIndex = s.parseIndex + count ∧
      tokenizer.token.2.parseIndex ≤ s.storage.length ∧
      tokenizer.token.1.text.length + tokenizer.leftOut = count + tokenizer.missing ∧
      copyToken { s with parseIndex := tokenizer.token.2.parseIndex } tokenizer.token.1 =
        insert { s with parseIndex := tokenizer.token.2.parseIndex } tokenizer.token.1.text ∧
      ∀ t, Inserted { s with parseIndex := tokenizer.token.2.parseIndex } tokenizer.token.1.text t →
        t.written ≤ t.parseIndex → InStep size t tokenizer.token.2 := by
  obtain ⟨unread, behind, within, fits⟩ := inStep
  have index : tokenizer.parseIndex = s.parseIndex := unread ▸ rfl
  have left : tokenizer.rest = (s.storage.take size).drop s.parseIndex := unread ▸ rfl
  obtain ⟨count, next, progress⟩ := tokenizer.accounted_token.advances
  obtain ⟨-, enough, length, string⟩ := progress notEnded
  have spaces := (takeWhile_sublist isSpace (l := tokenizer.rest)).length_le
  rw [skipWhitespace, advance_advance] at next
  rw [skipWhitespace, length_advance] at enough
  have whole : tokenizer.rest.length = size - s.parseIndex := by
    rw [left, length_drop, length_take, Nat.min_eq_left fits]
  have ends : tokenizer.token.2.parseIndex =
      s.parseIndex + ((tokenizer.rest.takeWhile isSpace).length + count) := by
    rw [next, ← index]
    rfl
  refine ⟨_, ends, by omega, ?_, copyToken_eq notEnded ?_, fun t inserted kept => ?_⟩
  · rw [leftOut, missing]
    omega
  · intro value isString
    obtain ⟨after, shape, rfl⟩ := string value isString
    refine ⟨after ++ s.storage.drop size, ?_, ?_⟩
    · have position : tokenizer.token.2.parseIndex - (value.length + 1) =
          s.parseIndex + ((tokenizer.rest.takeWhile isSpace).length + 1) := by omega
      have split : s.storage.drop (s.parseIndex + ((tokenizer.rest.takeWhile isSpace).length + 1)) =
          (s.storage.take size).drop
            (s.parseIndex + ((tokenizer.rest.takeWhile isSpace).length + 1)) ++
            s.storage.drop size := by
        conv_lhs => rw [← take_append_drop size s.storage]
        exact drop_append_of_le_length (by rw [length_take]; omega)
      dsimp only
      rw [position, split, ← drop_drop, ← left, ← drop_drop]
      change tokenizer.rest.drop _ = _ at shape
      rw [shape]
      simp
    · dsimp only
      omega
  · have unread' : (t.storage.take size).drop t.parseIndex = tokenizer.token.2.rest := by
      have here : t.parseIndex = tokenizer.token.2.parseIndex := inserted.parseIndex
      rw [drop_take, inserted.unread _ kept, ← drop_take, here, ends, next]
      change _ = tokenizer.rest.drop _
      rw [left, drop_drop]
    refine ⟨?_, kept, ?_, ?_⟩
    · rw [unread', inserted.parseIndex]
    · rw [inserted.parseIndex]
      dsimp only
      omega
    · rw [inserted.size]
      exact fits

theorem keepsUp_cons {ahead : Nat} {tokens : List JsonTokenizer} :
    KeepsUp ahead (tokenizer :: tokens) ↔ tokenizer.missing ≤ ahead + tokenizer.leftOut ∧
      KeepsUp (ahead + tokenizer.leftOut - tokenizer.missing) tokens := by
  constructor
  · intro keepsUp
    have first : tokenizer.missing ≤ ahead + tokenizer.leftOut := by simpa using keepsUp 1
    refine ⟨first, fun n => ?_⟩
    have later := keepsUp (n + 1)
    simp only [take_succ_cons, map_cons, sum_cons] at later
    omega
  · rintro ⟨first, keepsUp⟩ (_ | n)
    · exact Nat.zero_le _
    · have later := keepsUp n
      simp only [take_succ_cons, map_cons, sum_cons]
      omega

/-- The rounds from a state write these texts, and the output does not overtake the reading. -/
def Writes (size more : Nat) (s : Cleaning) (text : Text) : Prop :=
  ∃ states, rounds size more s = some states ∧
    states.getLast?.map newContents = some (s.newContents ++ text) ∧
      ∀ t ∈ states, t.written ≤ t.parseIndex

theorem mem_rounds {more : Nat} {states : List Cleaning} (ran : rounds size more s = some states) :
    ∃ others, states = s :: others := by
  cases more with
  | zero => cases ran
  | succ more =>
    simp only [rounds] at ran
    split at ran
    next => exact ⟨[], (Option.some.inj ran).symm⟩
    next =>
      obtain ⟨t, -, ran⟩ := Option.bind_eq_some_iff.mp ran
      obtain ⟨others, -, same⟩ := Option.bind_eq_some_iff.mp ran
      exact ⟨others, (Option.some.inj same).symm⟩

/-- By induction on the rounds that are left; every round leaves less to read. -/
theorem InStep.writes_iff {more : Nat} (inStep : InStep size s tokenizer)
    (enough : tokenizer.rest.length < more) :
    Writes size more s (texts (tokensFrom more tokenizer)) ↔
      KeepsUp (s.parseIndex - s.written) (tokensFrom more tokenizer) := by
  induction more generalizing s tokenizer with
  | zero => exact absurd enough (Nat.not_lt_zero _)
  | succ more ih =>
    have behind := inStep.behind
    rw [tokensFrom]
    by_cases ended : tokenizer.token.1 = .finished ∨ tokenizer.token.1 = .error
    · rw [if_pos ended]
      refine iff_of_true ⟨[s], ?_, ?_, ?_⟩ fun n => ?_
      · rw [rounds, inStep.unread]
        exact if_pos ended
      · exact congrArg some (append_nil _).symm
      · exact fun t member => mem_singleton.mp member ▸ behind
      · rw [take_nil]
        exact Nat.zero_le _
    obtain ⟨count, ends, room, length, copies, keeps⟩ := inStep.round ended
    rw [if_neg ended, keepsUp_cons]
    have round : rounds size (more + 1) s =
        (insert { s with parseIndex := tokenizer.token.2.parseIndex } tokenizer.token.1.text).bind
          fun t => (rounds size more t).bind fun states => some (s :: states) := by
      rw [← copies, rounds, inStep.unread]
      exact if_neg ended
    by_cases up : tokenizer.missing ≤ s.parseIndex - s.written + tokenizer.leftOut
    · obtain ⟨t, inserts, inserted⟩ := @insert_some
        { s with parseIndex := tokenizer.token.2.parseIndex } tokenizer.token.1.text
        (by dsimp only; omega)
      have written : t.written = s.written + tokenizer.token.1.text.length := inserted.written
      have index : t.parseIndex = tokenizer.token.2.parseIndex := inserted.parseIndex
      have text : t.newContents = s.newContents ++ tokenizer.token.1.text := inserted.newContents
      have later := ih (keeps t inserted (by omega)) (by
        have shorter := tokenizer.length_token (fun same => ended (.inl same))
          fun same => ended (.inr same)
        omega)
      rw [show t.parseIndex - t.written =
        s.parseIndex - s.written + tokenizer.leftOut - tokenizer.missing by omega] at later
      rw [and_iff_right up, ← later]
      rw [Writes, round, inserts, Option.bind_some]
      constructor
      · rintro ⟨states, ran, last, kept⟩
        obtain ⟨others, later, same⟩ := Option.bind_eq_some_iff.mp ran
        obtain rfl := Option.some.inj same
        obtain ⟨states, rfl⟩ := mem_rounds later
        refine ⟨_, later, ?_, (forall_mem_cons.mp kept).2⟩
        rw [getLast?_cons_cons] at last
        rw [last, text, append_assoc]
        rfl
      · rintro ⟨states, ran, last, kept⟩
        obtain ⟨others, rfl⟩ := mem_rounds ran
        refine ⟨s :: t :: others, by rw [ran]; rfl, ?_, forall_mem_cons.mpr ⟨behind, kept⟩⟩
        rw [getLast?_cons_cons, last, text, append_assoc]
        rfl
    · refine iff_of_false ?_ fun both => up both.1
      rintro ⟨states, ran, -, kept⟩
      rw [round] at ran
      obtain ⟨t, inserts, ran⟩ := Option.bind_eq_some_iff.mp ran
      obtain ⟨others, later, same⟩ := Option.bind_eq_some_iff.mp ran
      obtain rfl := Option.some.inj same
      obtain ⟨states, rfl⟩ := mem_rounds later
      have overtaken := kept t (.tail _ mem_cons_self)
      rw [insert] at inserts
      split at inserts
      next =>
        obtain rfl := Option.some.inj inserts
        dsimp only at overtaken
        omega
      next => cases inserts

end Cleaning

/-- Contents are cleaned as the tokens of a separate copy are copied, and the output does not overtake
the reading, if by the end of every token as many characters were left out as digits were missing. -/
theorem cleaned_as_copied_iff (contents : Contents) :
    contents.CleanedAsCopied ↔ KeepsUp 0 contents.tokens := by
  have inStep : Cleaning.InStep contents.size ⟨contents.storage, 0, 0⟩
      ⟨0, contents.storage.take contents.size⟩ :=
    ⟨rfl, Nat.le_refl 0, Nat.zero_le _, contents.fits⟩
  have writes := inStep.writes_iff (Nat.lt_succ_of_le (length_take_le contents.size contents.storage))
  refine Iff.trans ?_ writes
  constructor
  · rintro ⟨cleaned, kept⟩
    obtain ⟨states, ran, last⟩ := Option.bind_eq_some_iff.mp cleaned
    exact ⟨states, ran, last, kept states ran⟩
  · rintro ⟨states, ran, last, kept⟩
    refine ⟨Option.bind_eq_some_iff.mpr ⟨states, ran, last⟩, fun others ran' => ?_⟩
    obtain rfl := Option.some.inj (ran.symm.trans ran')
    exact kept

/-- `[1.,2]` becomes `[1.02]`: the zero that is written after the point is over the comma. -/
theorem not_cleaned_as_copied : ¬ ∀ contents : Contents, contents.CleanedAsCopied := by
  intro every
  have cleaned := (every ⟨[91, 49, 46, 44, 50, 93, 0], 6, by decide⟩).1
  revert cleaned
  decide +kernel

end Json
