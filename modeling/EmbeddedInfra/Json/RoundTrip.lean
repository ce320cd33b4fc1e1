import EmbeddedInfra.Json.Tokens

/-! What the formatters write is read back exactly if no string has a backslash. -/

namespace Json

open JsonTokenizer List JsonObjectIterator Content

variable {signedChar : Bool}

/-! ### What is written -/

mutual

/-- No string that is added has a backslash. -/
def Content.noBackslash : Content → Bool
  | .string tag => !tag.contains backslash
  | .subObject calls => calls.noBackslash
  | .subArray calls => calls.noBackslash
  | _ => true

def ObjectCalls.noBackslash : ObjectCalls → Bool
  | .nil => true
  | .add _ content rest => content.noBackslash && rest.noBackslash

def ArrayCalls.noBackslash : ArrayCalls → Bool
  | .nil => true
  | .add content rest => content.noBackslash && rest.noBackslash

end

/-- What comes before a tag name or a value: the space after the opening brace or bracket, or
the separation. -/
def lead (empty : Bool) : Text := if empty = true then [space] else [comma, space]

mutual

def Content.text (signedChar : Bool) : Content → Text
  | .boolean tag =>
    if tag = true then [char 't', char 'r', char 'u', char 'e']
    else [char 'f', char 'a', char 'l', char 's', char 'e']
  | .integer tag => tag.output
  | .string tag => quotes :: (insertEscapedContent signedChar tag ++ [quotes])
  | .subObject calls => leftBrace :: (calls.text signedChar true ++ [space, rightBrace])
  | .subArray calls => leftBracket :: (calls.text signedChar true ++ [space, rightBracket])

/-- The text between the opening brace, or the last value, and the end. -/
def ObjectCalls.text (signedChar : Bool) : Bool → ObjectCalls → Text
  | true, .nil => [space]
  | false, .nil => []
  | empty, .add tagName content rest =>
    lead empty ++ quotes :: (tagName.name ++ quotes :: colon ::
      (content.text signedChar ++ rest.text signedChar false))

def ArrayCalls.text (signedChar : Bool) : Bool → ArrayCalls → Text
  | true, .nil => [space]
  | false, .nil => []
  | empty, .add content rest =>
    lead empty ++ (content.text signedChar ++ rest.text signedChar false)

end

theorem separation_stream (formatter : Formatter) (stream : Text)
    (same : formatter.stream = stream ++ if formatter.empty = true then [space] else []) :
    formatter.insertSeparation.stream = stream ++ lead formatter.empty := by
  rw [Formatter.insertSeparation, same, lead]
  cases formatter.empty with
  | true => rfl
  | false => rw [if_neg Bool.false_ne_true, if_neg Bool.false_ne_true, append_nil]; rfl

mutual

theorem Content.write_eq (content : Content) (stream : Text) :
    content.write signedChar stream = stream ++ content.text signedChar := by
  cases content with
  | boolean tag | integer tag => rfl
  | string tag =>
    rw [write, text, append_assoc, append_assoc]
    rfl
  | subObject calls =>
    have written := calls.run_eq ⟨stream ++ [leftBrace, space], true⟩ (stream ++ [leftBrace])
      (append_assoc _ [leftBrace] [space]).symm
    rw [write, JsonObjectFormatter.construct, JsonObjectFormatter.destruct, written,
      append_assoc, append_assoc]
    rfl
  | subArray calls =>
    have written := calls.run_eq ⟨stream ++ [leftBracket, space], true⟩ (stream ++ [leftBracket])
      (append_assoc _ [leftBracket] [space]).symm
    rw [write, JsonArrayFormatter.construct, JsonArrayFormatter.destruct, written,
      append_assoc, append_assoc]
    rfl

theorem ObjectCalls.run_eq (calls : ObjectCalls) (formatter : Formatter) (stream : Text)
    (same : formatter.stream = stream ++ if formatter.empty = true then [space] else []) :
    (calls.run signedChar formatter).stream = stream ++ calls.text signedChar formatter.empty := by
  cases calls with
  | nil =>
    rw [ObjectCalls.run, same]
    cases formatter.empty with
    | true | false => rfl
  | add tagName content rest =>
    rw [ObjectCalls.run, ObjectCalls.text]
    simp only [content.write_eq]
    refine (rest.run_eq _ (stream ++ (lead formatter.empty ++ quotes :: (tagName.name ++
      quotes :: colon :: content.text signedChar))) ?_).trans ?_
    · simp only [Formatter.insertTagName, separation_stream formatter stream same]
      simp [Formatter.insertSeparation]
    · simp [Formatter.insertTagName, Formatter.insertSeparation]

theorem ArrayCalls.run_eq (calls : ArrayCalls) (formatter : Formatter) (stream : Text)
    (same : formatter.stream = stream ++ if formatter.empty = true then [space] else []) :
    (calls.run signedChar formatter).stream = stream ++ calls.text signedChar formatter.empty := by
  cases calls with
  | nil =>
    rw [ArrayCalls.run, same]
    cases formatter.empty with
    | true | false => rfl
  | add content rest =>
    rw [ArrayCalls.run, ArrayCalls.text]
    simp only [content.write_eq]
    refine (rest.run_eq _ (stream ++ (lead formatter.empty ++ content.text signedChar)) ?_).trans ?_
    · simp only [separation_stream formatter stream same]
      simp [Formatter.insertSeparation]
    · simp [Formatter.insertSeparation]

end

theorem ObjectCalls.output_eq (calls : ObjectCalls) : calls.output signedChar =
    leftBrace :: (calls.text signedChar true ++ [space, rightBrace]) := by
  rw [ObjectCalls.output, JsonObjectFormatter.destruct,
    calls.run_eq (JsonObjectFormatter.construct []) [leftBrace] rfl]
  rfl

theorem ArrayCalls.output_eq (calls : ArrayCalls) : calls.output signedChar =
    leftBracket :: (calls.text signedChar true ++ [space, rightBracket]) := by
  rw [ArrayCalls.output, JsonArrayFormatter.destruct,
    calls.run_eq (JsonArrayFormatter.construct []) [leftBracket] rfl]
  rfl

theorem ObjectCalls.delimited (signedChar : Bool) (calls : ObjectCalls) (rest : Text) :
    Delimited (calls.text signedChar false ++ space :: rest) := by
  cases calls with
  | nil => exact ⟨rest, Or.inr rfl⟩
  | add tagName content others => exact ⟨_, Or.inl rfl⟩

theorem ArrayCalls.delimited (signedChar : Bool) (calls : ArrayCalls) (rest : Text) :
    Delimited (calls.text signedChar false ++ space :: rest) := by
  cases calls with
  | nil => exact ⟨rest, Or.inr rfl⟩
  | add content others => exact ⟨_, Or.inl rfl⟩

theorem TagName.rawString (tagName : TagName) (rest : Text) :
    Json.rawString (tagName.name ++ quotes :: rest) = some tagName.name ∧
      JsonString.decode tagName.name = some tagName.name := by
  obtain ⟨name, no_quotes, no_backslash⟩ := tagName
  induction name with
  | nil => exact ⟨rfl, rfl⟩
  | cons c others ih =>
    obtain ⟨string, decoded⟩ := ih (not_mem_of_not_mem_cons no_quotes)
      (not_mem_of_not_mem_cons no_backslash)
    have notBackslash := (ne_of_not_mem_cons no_backslash).symm
    constructor
    · change Json.rawString (c :: (others ++ quotes :: rest)) = _
      rw [rawString_plain (ne_of_not_mem_cons no_quotes).symm notBackslash, string]
      rfl
    · change JsonString.decode (c :: others) = _
      rw [decode_plain notBackslash, decoded]
      rfl

/-! ### Searching an end -/

namespace Pairing

variable (pairing : Pairing) {nested : Int} {index : Nat}

variable {tokenizer later : JsonTokenizer} {token : Token}

theorem search_step (read : tokenizer.token = (token, later))
    (goesOn : nested ≠ 0 ∨ pairing.closes token = none) (notFinished : token ≠ .finished)
    (notError : token ≠ .error) : pairing.searchFrom nested tokenizer =
      pairing.searchFrom (pairing.count token nested) later := by
  rw [pairing.searchFrom_eq nested tokenizer, read, if_pos ⟨goesOn, notFinished, notError⟩]

theorem search_neutral (read : tokenizer.token = (token, later))
    (opens : pairing.opens token = false) (closes : pairing.closes token = none)
    (notFinished : token ≠ .finished) (notError : token ≠ .error) :
    pairing.searchFrom nested tokenizer = pairing.searchFrom nested later := by
  rw [pairing.search_step read (Or.inr closes) notFinished notError, count, opens, closes,
    if_neg Bool.false_ne_true]
  rfl

variable (rest : Text)

theorem search_space : pairing.searchFrom nested ⟨index, space :: rest⟩ =
    pairing.searchFrom nested ⟨index + 1, rest⟩ := by
  rw [searchFrom_eq, token_space, ← searchFrom_eq]

theorem search_comma : pairing.searchFrom nested ⟨index, comma :: rest⟩ =
    pairing.searchFrom nested ⟨index + 1, rest⟩ := by
  apply pairing.search_neutral (token_comma index rest)
  · cases pairing <;> rfl
  · cases pairing <;> rfl
  · nofun
  · nofun

theorem search_colon : pairing.searchFrom nested ⟨index, colon :: rest⟩ =
    pairing.searchFrom nested ⟨index + 1, rest⟩ := by
  apply pairing.search_neutral (token_colon index rest)
  · cases pairing <;> rfl
  · cases pairing <;> rfl
  · nofun
  · nofun

theorem search_string {text rest : Text}
    (string : rawString (text ++ quotes :: rest) = some text) :
    pairing.searchFrom nested ⟨index, quotes :: (text ++ quotes :: rest)⟩ =
      pairing.searchFrom nested ⟨index + (text.length + 2), rest⟩ := by
  apply pairing.search_neutral (token_string index rest string)
  · cases pairing <;> rfl
  · cases pairing <;> rfl
  · nofun
  · nofun

def inBraces (nested : Int) : Int := pairing.count (.leftBrace 0) nested

def inBrackets (nested : Int) : Int := pairing.count (.leftBracket 0) nested

theorem inBraces_le (below : nested ≤ 0) : pairing.inBraces nested ≤ 0 := by
  cases pairing with
  | braces => exact (Int.sub_le_self nested Int.one_nonneg).trans below
  | brackets => exact below

theorem inBrackets_le (below : nested ≤ 0) : pairing.inBrackets nested ≤ 0 := by
  cases pairing with
  | braces => exact below
  | brackets => exact (Int.sub_le_self nested Int.one_nonneg).trans below

theorem search_leftBrace :
    pairing.searchFrom nested ⟨index, leftBrace :: rest⟩ =
      pairing.searchFrom (pairing.inBraces nested) ⟨index + 1, rest⟩ := by
  refine (pairing.search_step (token_leftBrace index rest) (Or.inr ?_) nofun nofun).trans ?_
  · cases pairing <;> rfl
  · cases pairing <;> rfl

theorem search_leftBracket :
    pairing.searchFrom nested ⟨index, leftBracket :: rest⟩ =
      pairing.searchFrom (pairing.inBrackets nested) ⟨index + 1, rest⟩ := by
  refine (pairing.search_step (token_leftBracket index rest) (Or.inr ?_) nofun nofun).trans ?_
  · cases pairing <;> rfl
  · cases pairing <;> rfl

theorem search_rightBrace (below : nested ≤ 0) (rest : Text) :
    pairing.searchFrom (pairing.inBraces nested) ⟨index, rightBrace :: rest⟩ =
      pairing.searchFrom nested ⟨index + 1, rest⟩ := by
  cases pairing with
  | braces =>
    have outer : nested - 1 ≠ 0 := by omega
    refine (search_step .braces (token_rightBrace index rest) (Or.inl outer) nofun nofun).trans ?_
    change searchFrom .braces (nested - 1 + 1) _ = _
    rw [Int.sub_add_cancel]
  | brackets => exact search_neutral .brackets (token_rightBrace index rest) rfl rfl nofun nofun

theorem search_rightBracket (below : nested ≤ 0) (rest : Text) :
    pairing.searchFrom (pairing.inBrackets nested) ⟨index, rightBracket :: rest⟩ =
      pairing.searchFrom nested ⟨index + 1, rest⟩ := by
  cases pairing with
  | braces => exact search_neutral .braces (token_rightBracket index rest) rfl rfl nofun nofun
  | brackets =>
    have outer : nested - 1 ≠ 0 := by omega
    refine (search_step .brackets (token_rightBracket index rest) (Or.inl outer) nofun
      nofun).trans ?_
    change searchFrom .brackets (nested - 1 + 1) _ = _
    rw [Int.sub_add_cancel]

theorem search_lead (empty : Bool) (rest : Text) :
    pairing.searchFrom nested ⟨index, lead empty ++ rest⟩ =
      pairing.searchFrom nested ⟨index + (lead empty).length, rest⟩ := by
  cases empty with
  | true => exact pairing.search_space rest
  | false => exact (pairing.search_comma _).trans (pairing.search_space rest)

end Pairing

variable (pairing : Pairing)

mutual

theorem Content.search_text (content : Content) (clean : content.noBackslash = true) {nested : Int}
    (below : nested ≤ 0) (index : Nat) (rest : Text) (delimited : Delimited rest) :
    pairing.searchFrom nested ⟨index, content.text signedChar ++ rest⟩ =
      pairing.searchFrom nested ⟨index + (content.text signedChar).length, rest⟩ := by
  cases content with
  | boolean tag =>
    apply pairing.search_neutral (token_boolean index rest tag delimited)
    · cases pairing <;> rfl
    · cases pairing <;> rfl
    · nofun
    · nofun
  | integer tag =>
    apply pairing.search_neutral (token_integer index rest tag delimited)
    · cases pairing <;> rfl
    · cases pairing <;> rfl
    · nofun
    · nofun
  | string tag =>
    have notMember : backslash ∉ tag := by simpa [noBackslash] using clean
    have string := rawString_insertEscapedContent signedChar tag rest notMember
    simp only [text, cons_append, append_assoc, nil_append,
      pairing.search_string string, length_cons, length_append, length_nil]
  | subObject calls =>
    simp only [text, cons_append, append_assoc, nil_append,
      pairing.search_leftBrace, calls.search_text clean (pairing.inBraces_le below),
      pairing.search_space, pairing.search_rightBrace below, length_cons,
      length_append, length_nil]
    congr 2
    omega
  | subArray calls =>
    simp only [text, cons_append, append_assoc, nil_append,
      pairing.search_leftBracket, calls.search_text clean (pairing.inBrackets_le below),
      pairing.search_space, pairing.search_rightBracket below, length_cons,
      length_append, length_nil]
    congr 2
    omega

theorem ObjectCalls.search_text (calls : ObjectCalls) (clean : calls.noBackslash = true)
    {nested : Int} (below : nested ≤ 0) (empty : Bool) (index : Nat) (rest : Text) :
    pairing.searchFrom nested ⟨index, calls.text signedChar empty ++ space :: rest⟩ =
      pairing.searchFrom nested ⟨index + (calls.text signedChar empty).length, space :: rest⟩ := by
  cases calls with
  | nil =>
    cases empty with
    | true => exact pairing.search_space _
    | false => rfl
  | add tagName content others =>
    obtain ⟨contentClean, othersClean⟩ := Bool.and_eq_true_iff.mp clean
    have string := (tagName.rawString (colon :: (content.text signedChar ++
      (others.text signedChar false ++ space :: rest)))).1
    simp only [ObjectCalls.text, append_assoc, cons_append, pairing.search_lead,
      pairing.search_string string, pairing.search_colon,
      content.search_text contentClean below _ _ (others.delimited _ rest),
      others.search_text othersClean below, length_cons, length_append]
    congr 2
    omega

theorem ArrayCalls.search_text (calls : ArrayCalls) (clean : calls.noBackslash = true)
    {nested : Int} (below : nested ≤ 0) (empty : Bool) (index : Nat) (rest : Text) :
    pairing.searchFrom nested ⟨index, calls.text signedChar empty ++ space :: rest⟩ =
      pairing.searchFrom nested ⟨index + (calls.text signedChar empty).length, space :: rest⟩ := by
  cases calls with
  | nil =>
    cases empty with
    | true => exact pairing.search_space _
    | false => rfl
  | add content others =>
    obtain ⟨contentClean, othersClean⟩ := Bool.and_eq_true_iff.mp clean
    simp only [ArrayCalls.text, append_assoc, pairing.search_lead,
      content.search_text contentClean below _ _ (others.delimited _ rest),
      others.search_text othersClean below, length_append]
    congr 2
    omega

end

/-! ### Reading values -/

variable (objectString : Text)

def readValue (tokenizer : JsonTokenizer) : Option JsonValue × JsonTokenizer :=
  convertValue objectString tokenizer.token.2 tokenizer.token.1

theorem readValue_of_token {tokenizer later : JsonTokenizer} {token : Token}
    (read : tokenizer.token = (token, later)) :
    readValue objectString tokenizer = convertValue objectString later token := by
  rw [readValue, read]

namespace JsonObjectIterator

variable {objectString key : Text} {value : JsonValue} {index : Nat}

variable (empty : Bool)

def beforeTag : State := if empty = true then .readKeyOrEnd else .readCommaOrObjectEnd

def proceed (iterator : JsonObjectIterator) : JsonObjectIterator :=
  parseTokens (if empty = true then 3 else 4) iterator

variable {state : State}

theorem parseNextToken_readKey {tokenizer later : JsonTokenizer} {source : Text}
    (read : tokenizer.token = (.string source, later))
    (expected : state = .readKey ∨ state = .readKeyOrEnd) :
    parseNextToken ⟨objectString, tokenizer, key, value, state, false⟩ =
      ⟨objectString, later, source, value, .readColon, false⟩ := by
  rw [parseNextToken, read]
  rcases expected with rfl | rfl
  · rfl
  · rfl

/-- The iterator after a value, or after an error. -/
def ofValue (objectString key : Text) (value : JsonValue) :
    Option JsonValue × JsonTokenizer → JsonObjectIterator
  | (some read, tokenizer) => ⟨objectString, tokenizer, key, read, .readCommaOrObjectEnd, false⟩
  | (none, tokenizer) => ⟨objectString, tokenizer, key, value, .finished, true⟩

theorem parseNextToken_readValue (tokenizer : JsonTokenizer) :
    parseNextToken ⟨objectString, tokenizer, key, value, .readValue, false⟩ =
      ofValue objectString key value (readValue objectString tokenizer) := by
  rw [parseNextToken, readValue]
  simp only [readValueToken]
  cases convertValue objectString tokenizer.token.2 tokenizer.token.1 with
  | mk read later =>
    cases read with
    | none | some read => rfl

theorem parseTokens_ofValue (tokens : Nat) (result : Option JsonValue × JsonTokenizer)
    (iterator : JsonObjectIterator)
    (same : iterator.parseNextToken = ofValue objectString key value result) :
    parseTokens (tokens + 1) iterator = ofValue objectString key value result := by
  rw [parseTokens, same, if_neg]
  rcases result with ⟨none | read, later⟩
  · exact fun goesOn => goesOn.2 rfl
  · exact fun goesOn => goesOn.1 rfl

theorem parseTokens_entry (tagName : TagName) (rest : Text)
    (expected : state = .readKey ∨ state = .readKeyOrEnd) :
    parseTokens 3 ⟨objectString, ⟨index, space :: quotes :: (tagName.name ++ quotes :: colon ::
        rest)⟩, key, value, state, false⟩ =
      ofValue objectString tagName.name value (readValue objectString
        ⟨index + (tagName.name.length + 4), rest⟩) := by
  have read := (token_space index _).trans
    (token_string (index + 1) (colon :: rest) (tagName.rawString (colon :: rest)).1)
  rw [parseTokens, parseNextToken_readKey read expected, if_pos ⟨nofun, nofun⟩, parseTokens]
  have colonRead : parseNextToken ⟨objectString, ⟨index + 1 + (tagName.name.length + 2),
      colon :: rest⟩, tagName.name, value, .readColon, false⟩ = ⟨objectString,
        ⟨index + 1 + (tagName.name.length + 2) + 1, rest⟩, tagName.name, value, .readValue, false⟩ :=
    rfl
  have place : index + 1 + (tagName.name.length + 2) + 1 = index + (tagName.name.length + 4) := by
    omega
  rw [colonRead, if_pos ⟨nofun, nofun⟩, place]
  exact parseTokens_ofValue 0 _ _ (parseNextToken_readValue _)

theorem proceed_entry (tagName : TagName) (rest : Text) :
    proceed empty ⟨objectString, ⟨index, lead empty ++ quotes :: (tagName.name ++ quotes ::
        colon :: rest)⟩, key, value, beforeTag empty, false⟩ =
      ofValue objectString tagName.name value (readValue objectString
        ⟨index + ((lead empty).length + (tagName.name.length + 3)), rest⟩) := by
  cases empty with
  | true =>
    refine (parseTokens_entry tagName rest (Or.inr rfl)).trans ?_
    congr 3
    rw [lead, if_pos rfl, length_singleton]
    omega
  | false =>
    change parseTokens 3 ⟨objectString, ⟨index + 1, space :: quotes :: (tagName.name ++
      quotes :: colon :: rest)⟩, key, value, .readKey, false⟩ = _
    refine (parseTokens_entry tagName rest (Or.inl rfl)).trans ?_
    congr 3
    change index + 1 + (tagName.name.length + 4) = index + (2 + (tagName.name.length + 3))
    omega

theorem proceed_end (empty : Bool) (rest : Text) :
    let finish := proceed empty ⟨objectString, ⟨index, ObjectCalls.text signedChar empty .nil ++
      space :: rightBrace :: rest⟩, key, value, beforeTag empty, false⟩
    finish.state = .finished ∧ finish.error = false := by
  cases empty with
  | true =>
    have read := ((token_space index _).trans (token_space (index + 1) _)).trans
      (token_rightBrace (index + 1 + 1) rest)
    change (parseTokens 3 ⟨objectString, ⟨index, space :: space :: rightBrace :: rest⟩, key, value,
      .readKeyOrEnd, false⟩).state = _ ∧ _
    rw [parseTokens, parseNextToken, read]
    exact ⟨rfl, rfl⟩
  | false =>
    have read := (token_space index _).trans (token_rightBrace (index + 1) rest)
    change (parseTokens 4 ⟨objectString, ⟨index, space :: rightBrace :: rest⟩, key, value,
      .readCommaOrObjectEnd, false⟩).state = _ ∧ _
    rw [parseTokens, parseNextToken, read]
    exact ⟨rfl, rfl⟩

end JsonObjectIterator

namespace JsonArrayIterator

variable {objectString : Text} {value : JsonValue} {index : Nat}

variable (empty : Bool)

def beforeValue : State :=
  if empty = true then .readValueOrEnd else .readCommaOrArrayEnd

def proceed (iterator : JsonArrayIterator) : JsonArrayIterator :=
  parseTokens (if empty = true then 1 else 2) iterator

def ofValue (objectString : Text) (value : JsonValue) :
    Option JsonValue × JsonTokenizer → JsonArrayIterator
  | (some read, tokenizer) => ⟨objectString, tokenizer, read, .readCommaOrArrayEnd, false⟩
  | (none, tokenizer) => ⟨objectString, tokenizer, value, .finished, true⟩

theorem readValueToken_eq (tokenizer : JsonTokenizer) (state : State) :
    readValueToken ⟨objectString, tokenizer.token.2, value, state, false⟩ tokenizer.token.1 =
      ofValue objectString value (readValue objectString tokenizer) := by
  rw [readValueToken, readValue]
  cases convertValue objectString tokenizer.token.2 tokenizer.token.1 with
  | mk read later =>
    cases read with
    | none | some read => rfl

variable {state : State}

theorem parseNextToken_value (tokenizer : JsonTokenizer)
    (expected : state = .readValue ∨ state = .readValueOrEnd)
    (notEnd : ∀ last, tokenizer.token.1 ≠ .rightBracket last) :
    parseNextToken ⟨objectString, tokenizer, value, state, false⟩ =
      ofValue objectString value (readValue objectString tokenizer) := by
  rw [← readValueToken_eq tokenizer state, parseNextToken]
  rcases expected with rfl | rfl
  · rfl
  · simp only

theorem parseTokens_value (tokens : Nat) (tokenizer : JsonTokenizer)
    (expected : state = .readValue ∨ state = .readValueOrEnd)
    (notEnd : ∀ last, tokenizer.token.1 ≠ .rightBracket last) :
    parseTokens (tokens + 1) ⟨objectString, tokenizer, value, state, false⟩ =
      ofValue objectString value (readValue objectString tokenizer) := by
  rw [parseTokens, parseNextToken_value tokenizer expected notEnd, if_neg]
  rcases readValue objectString tokenizer with ⟨none | read, later⟩
  · exact fun goesOn => goesOn.2 rfl
  · exact fun goesOn => goesOn.1 rfl

theorem proceed_value (rest : Text)
    (notEnd : ∀ first last, (token ⟨first, rest⟩).1 ≠ .rightBracket last) :
    proceed empty ⟨objectString, ⟨index, lead empty ++ rest⟩, value, beforeValue empty, false⟩ =
      ofValue objectString value (readValue objectString ⟨index + (lead empty).length, rest⟩) := by
  have space : ∀ first, readValue objectString ⟨first, Json.space :: rest⟩ =
      readValue objectString ⟨first + 1, rest⟩ := by
    intro first
    rw [readValue, token_space]
    rfl
  have notEndSpace : ∀ first last, (token ⟨first, Json.space :: rest⟩).1 ≠ .rightBracket last := by
    intro first last
    rw [token_space]
    exact notEnd _ _
  cases empty with
  | true => exact (parseTokens_value 0 _ (Or.inr rfl) (notEndSpace _)).trans (by rw [space]; rfl)
  | false =>
    change parseTokens 1 ⟨objectString, ⟨index + 1, Json.space :: rest⟩, value, .readValue,
      false⟩ = _
    exact (parseTokens_value 0 _ (Or.inl rfl) (notEndSpace _)).trans (by rw [space]; rfl)

theorem proceed_end (empty : Bool) (rest : Text) :
    let finish := proceed empty ⟨objectString, ⟨index, ArrayCalls.text signedChar empty .nil ++
      space :: rightBracket :: rest⟩, value, beforeValue empty, false⟩
    finish.state = .finished ∧ finish.error = false := by
  cases empty with
  | true =>
    have read := ((token_space index _).trans (token_space (index + 1) _)).trans
      (token_rightBracket (index + 1 + 1) rest)
    change (parseTokens 1 ⟨objectString, ⟨index, space :: space :: rightBracket :: rest⟩, value,
      .readValueOrEnd, false⟩).state = _ ∧ _
    rw [parseTokens, parseNextToken, read]
    exact ⟨rfl, rfl⟩
  | false =>
    have read := (token_space index _).trans (token_rightBracket (index + 1) rest)
    change (parseTokens 2 ⟨objectString, ⟨index, space :: rightBracket :: rest⟩, value,
      .readCommaOrArrayEnd, false⟩).state = _ ∧ _
    rw [parseTokens, parseNextToken, read]
    exact ⟨rfl, rfl⟩

end JsonArrayIterator

theorem Content.not_rightBracket (content : Content) (rest : Text) (delimited : Delimited rest)
    (first last : Nat) :
    (token ⟨first, content.text signedChar ++ rest⟩).1 ≠ .rightBracket last := by
  cases content with
  | boolean tag =>
    rw [text, token_boolean first rest tag delimited]
    nofun
  | integer tag =>
    rw [text, token_integer first rest tag delimited]
    nofun
  | string tag =>
    rw [text, cons_append]
    cases closed : closingQuotes false (insertEscapedContent signedChar tag ++ [quotes] ++ rest) with
    | none =>
      rw [token_unclosed first closed]
      nofun
    | some length =>
      rw [token_closed first closed]
      nofun
  | subObject calls | subArray calls => nofun

/-! ### Without a backslash -/

theorem begin_object (rest : Text) : begin (leftBrace :: rest) =
    proceed true ⟨leftBrace :: rest, ⟨1, rest⟩, [], .boolean false,
      beforeTag true, false⟩ := rfl

theorem begin_array (rest : Text) : JsonArrayIterator.begin (leftBracket :: rest) =
    JsonArrayIterator.proceed true ⟨leftBracket :: rest, ⟨1, rest⟩, .boolean false,
      JsonArrayIterator.beforeValue true, false⟩ := rfl

variable {index : Nat} {back : Text}

theorem between_of_drop {objectString text rest : Text}
    (here : objectString.drop index = text ++ rest) (last : Nat)
    (ends : last + 1 = index + text.length) : between objectString index last = text := by
  rw [between, here, ends, Nat.add_sub_cancel_left, take_left]

theorem drop_of_drop {objectString front : Text} (here : objectString.drop index = front ++ back) :
    objectString.drop (index + front.length) = back := by
  rw [← drop_drop, here, drop_left]

theorem value_place {objectString : Text} (front name : Text)
    (here : objectString.drop index = front ++ quotes :: (name ++ quotes :: colon :: back)) :
    objectString.drop (index + (front.length + (name.length + 3))) = back := by
  have split : front ++ quotes :: (name ++ quotes :: colon :: back) =
      (front ++ quotes :: (name ++ [quotes, colon])) ++ back := by simp
  have place := drop_of_drop (here.trans split)
  rwa [length_append, length_cons, length_append] at place

theorem convertValue_leftBrace (tokenizer : JsonTokenizer) (index : Nat) :
    convertValue objectString tokenizer (.leftBrace index) =
      ((searchObjectEnd tokenizer).1.map fun last => .object (between objectString index last),
        (searchObjectEnd tokenizer).2) := rfl

theorem convertValue_leftBracket (tokenizer : JsonTokenizer) (index : Nat) :
    convertValue objectString tokenizer (.leftBracket index) =
      ((searchArrayEnd tokenizer).1.map fun last => .array (between objectString index last),
        (searchArrayEnd tokenizer).2) := rfl

section

variable {objectString : Text}

theorem readValue_nested {nested : Text → JsonValue} {opening closing : UInt8} {opened : Token}
    (inner : Text) (here : objectString.drop index = opening :: inner ++ [space, closing] ++ back)
    (opens : token ⟨index, opening :: (inner ++ space :: closing :: back)⟩ =
      (opened, ⟨index + 1, inner ++ space :: closing :: back⟩))
    (converts : convertValue objectString ⟨index + 1, inner ++ space :: closing :: back⟩ opened =
      (some (nested (between objectString index (index + 1 + inner.length + 1))),
        ⟨index + 1 + inner.length + 1 + 1, back⟩)) :
    readValue objectString ⟨index, opening :: inner ++ [space, closing] ++ back⟩ =
      (some (nested (opening :: inner ++ [space, closing])),
        ⟨index + (opening :: inner ++ [space, closing]).length, back⟩) := by
  have size : (opening :: inner ++ [space, closing]).length = inner.length + 3 := by
    simp only [length_cons, length_append, length_nil]
  have shape : opening :: inner ++ [space, closing] ++ back =
      opening :: (inner ++ space :: closing :: back) := by
    simp only [cons_append, append_assoc, nil_append]
  have text := between_of_drop here (index + 1 + inner.length + 1) (by omega)
  have place : index + 1 + inner.length + 1 + 1 = index + (inner.length + 3) := by omega
  rw [shape, readValue_of_token objectString opens, converts, text, size, place]

theorem readValue_object (calls : ObjectCalls) (clean : calls.noBackslash = true)
    (here : objectString.drop index = (Content.subObject calls).text signedChar ++ back) :
    readValue objectString ⟨index, (Content.subObject calls).text signedChar ++ back⟩ =
      (some (.object ((Content.subObject calls).text signedChar)),
        ⟨index + ((Content.subObject calls).text signedChar).length, back⟩) := by
  apply readValue_nested _ here (token_leftBrace index _)
  rw [convertValue_leftBrace, searchObjectEnd, calls.search_text .braces clean (Int.le_refl 0),
    Pairing.search_space, Pairing.searchFrom_eq]
  rfl

theorem readValue_array (calls : ArrayCalls) (clean : calls.noBackslash = true)
    (here : objectString.drop index = (Content.subArray calls).text signedChar ++ back) :
    readValue objectString ⟨index, (Content.subArray calls).text signedChar ++ back⟩ =
      (some (.array ((Content.subArray calls).text signedChar)),
        ⟨index + ((Content.subArray calls).text signedChar).length, back⟩) := by
  apply readValue_nested _ here (token_leftBracket index _)
  rw [convertValue_leftBracket, searchArrayEnd, calls.search_text .brackets clean (Int.le_refl 0),
    Pairing.search_space, Pairing.searchFrom_eq]
  rfl

end

mutual

theorem Content.readsAs_text (content : Content) (clean : content.noBackslash = true)
    (objectString : Text) (index : Nat) (rest : Text) (delimited : Delimited rest)
    (here : objectString.drop index = content.text signedChar ++ rest) :
    ∃ value, readValue objectString ⟨index, content.text signedChar ++ rest⟩ =
      (some value, ⟨index + (content.text signedChar).length, rest⟩) ∧ content.ReadsAs value := by
  cases content with
  | boolean tag => exact ⟨.boolean tag, readValue_of_token _ (token_boolean index rest tag delimited), rfl⟩
  | integer tag =>
    exact ⟨_, readValue_of_token _ (token_integer index rest tag delimited),
      tag.readsAs_readInteger⟩
  | string tag =>
    have notMember : backslash ∉ tag := by simpa [noBackslash] using clean
    have string := rawString_insertEscapedContent signedChar tag rest notMember
    refine ⟨.string (insertEscapedContent signedChar tag), ?_,
      decode_insertEscapedContent tag notMember⟩
    simp only [text, cons_append, append_assoc, nil_append,
      length_cons, length_append, length_nil]
    exact readValue_of_token _ (token_string index rest string)
  | subObject calls =>
    refine ⟨_, readValue_object calls clean here, ?_⟩
    exact calls.readsAs_text clean _ true 1 [] (.boolean false) [] rfl
  | subArray calls =>
    refine ⟨_, readValue_array calls clean here, ?_⟩
    exact calls.readsAs_text clean _ true 1 (.boolean false) [] rfl

theorem ObjectCalls.readsAs_text (calls : ObjectCalls) (clean : calls.noBackslash = true)
    (objectString : Text) (empty : Bool) (index : Nat) (key : Text) (value : JsonValue) (rest : Text)
    (here : objectString.drop index =
      calls.text signedChar empty ++ space :: rightBrace :: rest) :
    calls.ReadsAs (proceed empty ⟨objectString, ⟨index,
      calls.text signedChar empty ++ space :: rightBrace :: rest⟩, key, value,
      beforeTag empty, false⟩) := by
  cases calls with
  | nil => exact proceed_end empty rest
  | add tagName content others =>
    obtain ⟨contentClean, othersClean⟩ := Bool.and_eq_true_iff.mp clean
    have shape : ObjectCalls.text signedChar empty (.add tagName content others) ++
        space :: rightBrace :: rest = lead empty ++ quotes :: (tagName.name ++ quotes :: colon ::
          (content.text signedChar ++ (others.text signedChar false ++
            space :: rightBrace :: rest))) := by
      simp only [ObjectCalls.text, append_assoc, cons_append]
    have atValue := value_place (lead empty) tagName.name (here.trans shape)
    obtain ⟨read, result, same⟩ := content.readsAs_text contentClean objectString _ _
      (others.delimited _ _) atValue
    rw [shape, proceed_entry, result]
    exact ⟨nofun, (tagName.rawString []).2, same, others.readsAs_text othersClean objectString
      false _ _ _ rest (drop_of_drop atValue)⟩

theorem ArrayCalls.readsAs_text (calls : ArrayCalls) (clean : calls.noBackslash = true)
    (objectString : Text) (empty : Bool) (index : Nat) (value : JsonValue) (rest : Text)
    (here : objectString.drop index =
      calls.text signedChar empty ++ space :: rightBracket :: rest) :
    calls.ReadsAs (JsonArrayIterator.proceed empty ⟨objectString, ⟨index,
      calls.text signedChar empty ++ space :: rightBracket :: rest⟩, value,
      JsonArrayIterator.beforeValue empty, false⟩) := by
  cases calls with
  | nil => exact JsonArrayIterator.proceed_end empty rest
  | add content others =>
    obtain ⟨contentClean, othersClean⟩ := Bool.and_eq_true_iff.mp clean
    have shape : ArrayCalls.text signedChar empty (.add content others) ++
        space :: rightBracket :: rest = lead empty ++ (content.text signedChar ++
          (others.text signedChar false ++ space :: rightBracket :: rest)) := by
      simp only [ArrayCalls.text, append_assoc]
    have atValue := drop_of_drop (here.trans shape)
    have delimited := others.delimited signedChar (rightBracket :: rest)
    obtain ⟨read, result, same⟩ := content.readsAs_text contentClean objectString _ _ delimited
      atValue
    rw [shape, JsonArrayIterator.proceed_value empty _ (content.not_rightBracket _ delimited),
      result]
    exact ⟨nofun, same, others.readsAs_text othersClean objectString false _ _ rest
      (drop_of_drop atValue)⟩

end

end Json
