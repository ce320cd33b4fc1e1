import EmbeddedInfra.Json.RoundTrip

/-! Where a string has a backslash: reading goes wrong there, whatever comes after it. -/

namespace Json

open JsonTokenizer List Content

variable {signedChar : Bool}

mutual

def Content.intact (signedChar : Bool) : Content → Text
  | .string _ => [quotes]
  | .subObject calls => leftBrace :: calls.intact signedChar true
  | .subArray calls => leftBracket :: calls.intact signedChar true
  | _ => []

def ObjectCalls.intact (signedChar : Bool) : Bool → ObjectCalls → Text
  | _, .nil => []
  | empty, .add tagName content rest =>
    lead empty ++ quotes :: (tagName.name ++ quotes :: colon ::
      if content.noBackslash = true then
        content.text signedChar ++ rest.intact signedChar false
      else content.intact signedChar)

def ArrayCalls.intact (signedChar : Bool) : Bool → ArrayCalls → Text
  | _, .nil => []
  | empty, .add content rest =>
    lead empty ++
      if content.noBackslash = true then
        content.text signedChar ++ rest.intact signedChar false
      else content.intact signedChar

end

mutual

def Content.broken : Content → Text
  | .string tag => tag
  | .subObject calls => calls.broken
  | .subArray calls => calls.broken
  | _ => []

def ObjectCalls.broken : ObjectCalls → Text
  | .nil => []
  | .add _ content rest => if content.noBackslash = true then rest.broken else content.broken

def ArrayCalls.broken : ArrayCalls → Text
  | .nil => []
  | .add content rest => if content.noBackslash = true then rest.broken else content.broken

end

mutual

theorem Content.text_eq_intact (signedChar : Bool) (content : Content)
    (dirty : content.noBackslash = false) (rest : Text) :
    ∃ others, content.text signedChar ++ rest = content.intact signedChar ++
      (insertEscapedContent signedChar content.broken ++ quotes :: others) ∧
        backslash ∈ content.broken := by
  cases content with
  | boolean tag | integer tag => cases dirty
  | string tag =>
    have member : backslash ∈ tag := by simpa [noBackslash] using dirty
    refine ⟨rest, ?_, member⟩
    simp only [text, intact, broken, cons_append,
      append_assoc, nil_append]
  | subObject calls =>
    obtain ⟨others, same, member⟩ := calls.text_eq_intact signedChar dirty true (space :: rightBrace :: rest)
    refine ⟨others, ?_, member⟩
    simp only [text, intact, broken, cons_append,
      append_assoc, nil_append, same]
  | subArray calls =>
    obtain ⟨others, same, member⟩ :=
      calls.text_eq_intact signedChar dirty true (space :: rightBracket :: rest)
    refine ⟨others, ?_, member⟩
    simp only [text, intact, broken, cons_append,
      append_assoc, nil_append, same]

theorem ObjectCalls.text_eq_intact (signedChar : Bool) (calls : ObjectCalls)
    (dirty : calls.noBackslash = false)
    (empty : Bool) (rest : Text) : ∃ others, calls.text signedChar empty ++ rest =
      calls.intact signedChar empty ++
        (insertEscapedContent signedChar calls.broken ++ quotes :: others) ∧
          backslash ∈ calls.broken := by
  cases calls with
  | nil => cases dirty
  | add tagName content others =>
    cases clean : content.noBackslash with
    | false =>
      obtain ⟨after, same, member⟩ :=
        content.text_eq_intact signedChar clean (others.text signedChar false ++ rest)
      refine ⟨after, ?_, by rw [ObjectCalls.broken, clean]; exact member⟩
      simp only [ObjectCalls.text, ObjectCalls.intact, ObjectCalls.broken, clean,
        Bool.false_eq_true, if_false, cons_append, append_assoc, same]
    | true =>
      rw [ObjectCalls.noBackslash, clean, Bool.true_and] at dirty
      obtain ⟨after, same, member⟩ := others.text_eq_intact signedChar dirty false rest
      refine ⟨after, ?_, by rw [ObjectCalls.broken, clean]; exact member⟩
      simp only [ObjectCalls.text, ObjectCalls.intact, ObjectCalls.broken, clean,
        if_true, cons_append, append_assoc, same]

theorem ArrayCalls.text_eq_intact (signedChar : Bool) (calls : ArrayCalls)
    (dirty : calls.noBackslash = false)
    (empty : Bool) (rest : Text) : ∃ others, calls.text signedChar empty ++ rest =
      calls.intact signedChar empty ++
        (insertEscapedContent signedChar calls.broken ++ quotes :: others) ∧
          backslash ∈ calls.broken := by
  cases calls with
  | nil => cases dirty
  | add content others =>
    cases clean : content.noBackslash with
    | false =>
      obtain ⟨after, same, member⟩ :=
        content.text_eq_intact signedChar clean (others.text signedChar false ++ rest)
      refine ⟨after, ?_, by rw [ArrayCalls.broken, clean]; exact member⟩
      simp only [ArrayCalls.text, ArrayCalls.intact, ArrayCalls.broken, clean,
        Bool.false_eq_true, if_false, append_assoc, same]
    | true =>
      rw [ArrayCalls.noBackslash, clean, Bool.true_and] at dirty
      obtain ⟨after, same, member⟩ := others.text_eq_intact signedChar dirty false rest
      refine ⟨after, ?_, by rw [ArrayCalls.broken, clean]; exact member⟩
      simp only [ArrayCalls.text, ArrayCalls.intact, ArrayCalls.broken, clean,
        if_true, append_assoc, same]

end

theorem ObjectCalls.delimited_intact (signedChar : Bool) (calls : ObjectCalls)
    (dirty : calls.noBackslash = false) (rest : Text) :
    Delimited (calls.intact signedChar false ++ rest) := by
  cases calls with
  | nil => cases dirty
  | add tagName content others => exact ⟨_, Or.inl rfl⟩

theorem ArrayCalls.delimited_intact (signedChar : Bool) (calls : ArrayCalls)
    (dirty : calls.noBackslash = false) (rest : Text) :
    Delimited (calls.intact signedChar false ++ rest) := by
  cases calls with
  | nil => cases dirty
  | add content others => exact ⟨_, Or.inl rfl⟩

theorem Content.not_rightBracket_intact (content : Content) (dirty : content.noBackslash = false)
    (rest : Text) (first last : Nat) :
    (token ⟨first, content.intact signedChar ++ rest⟩).1 ≠ .rightBracket last := by
  cases content with
  | boolean tag | integer tag => cases dirty
  | string tag =>
    rw [intact, singleton_append]
    cases closed : closingQuotes false rest with
    | none =>
      rw [token_unclosed first closed]
      nofun
    | some length =>
      rw [token_closed first closed]
      nofun
  | subObject calls | subArray calls => nofun

variable (pairing : Pairing)

mutual

theorem Content.le_of_search (content : Content) (dirty : content.noBackslash = false)
    {nested : Int} (below : nested ≤ 0) (index last : Nat) (rest : Text)
    (found : (pairing.searchFrom nested ⟨index, content.intact signedChar ++ rest⟩).1 =
      some last) : index + (content.intact signedChar).length ≤ last := by
  cases content with
  | boolean tag | integer tag => cases dirty
  | string tag =>
    have found : (pairing.searchFrom nested ⟨index, quotes :: rest⟩).1 = some last := found
    change index + 1 ≤ last
    cases closed : closingQuotes false rest with
    | none =>
      have noEnd : pairing.closes .error = none := by cases pairing <;> rfl
      rw [pairing.searchFrom_eq, token_unclosed index closed,
        if_neg fun goesOn => goesOn.2.2 rfl, noEnd] at found
      cases found
    | some length =>
      have noEnd : pairing.closes (.string (rest.take length)) = none := by
        cases pairing <;> rfl
      rw [pairing.search_step (token_closed index closed) (Or.inr noEnd) nofun nofun] at found
      have later := pairing.index_searchFrom found
      simp only at later
      omega
  | subObject calls =>
    rw [intact, cons_append, pairing.search_leftBrace] at found
    have later := calls.le_of_search dirty (pairing.inBraces_le below) true (index + 1) last rest
      found
    rw [intact, length_cons]
    omega
  | subArray calls =>
    rw [intact, cons_append, pairing.search_leftBracket] at found
    have later := calls.le_of_search dirty (pairing.inBrackets_le below) true (index + 1) last rest
      found
    rw [intact, length_cons]
    omega

theorem ObjectCalls.le_of_search (calls : ObjectCalls) (dirty : calls.noBackslash = false)
    {nested : Int} (below : nested ≤ 0) (empty : Bool) (index last : Nat) (rest : Text)
    (found : (pairing.searchFrom nested ⟨index, calls.intact signedChar empty ++ rest⟩).1 =
      some last) : index + (calls.intact signedChar empty).length ≤ last := by
  cases calls with
  | nil => cases dirty
  | add tagName content others =>
    cases clean : content.noBackslash with
    | false =>
      have string := (tagName.rawString (colon :: (content.intact signedChar ++ rest))).1
      simp only [ObjectCalls.intact, clean, Bool.false_eq_true, if_false, cons_append,
        append_assoc, pairing.search_lead, pairing.search_string string,
        pairing.search_colon] at found
      have later := content.le_of_search clean below _ last rest found
      simp only [ObjectCalls.intact, clean, Bool.false_eq_true, if_false, length_cons,
        length_append]
      omega
    | true =>
      rw [ObjectCalls.noBackslash, clean, Bool.true_and] at dirty
      have string := (tagName.rawString (colon :: (content.text signedChar ++
        (others.intact signedChar false ++ rest)))).1
      simp only [ObjectCalls.intact, clean, if_true, cons_append,
        append_assoc, pairing.search_lead, pairing.search_string string,
        pairing.search_colon, content.search_text pairing clean below _ _
          (others.delimited_intact _ dirty rest)] at found
      have later := others.le_of_search dirty below false _ last rest found
      simp only [ObjectCalls.intact, clean, if_true, length_cons, length_append]
      omega

theorem ArrayCalls.le_of_search (calls : ArrayCalls) (dirty : calls.noBackslash = false)
    {nested : Int} (below : nested ≤ 0) (empty : Bool) (index last : Nat) (rest : Text)
    (found : (pairing.searchFrom nested ⟨index, calls.intact signedChar empty ++ rest⟩).1 =
      some last) : index + (calls.intact signedChar empty).length ≤ last := by
  cases calls with
  | nil => cases dirty
  | add content others =>
    cases clean : content.noBackslash with
    | false =>
      simp only [ArrayCalls.intact, clean, Bool.false_eq_true, if_false,
        append_assoc, pairing.search_lead] at found
      have later := content.le_of_search clean below _ last rest found
      simp only [ArrayCalls.intact, clean, Bool.false_eq_true, if_false, length_append]
      omega
    | true =>
      rw [ArrayCalls.noBackslash, clean, Bool.true_and] at dirty
      simp only [ArrayCalls.intact, clean, if_true, append_assoc, pairing.search_lead,
        content.search_text pairing clean below _ _
          (others.delimited_intact _ dirty rest)] at found
      have later := others.le_of_search dirty below false _ last rest found
      simp only [ArrayCalls.intact, clean, if_true, length_append]
      omega

end

theorem between_append {objectString front back : Text} {index : Nat}
    (here : objectString.drop index = front ++ back) (last : Nat)
    (far : index + front.length ≤ last + 1) :
    between objectString index last = front ++ back.take (last + 1 - index - front.length) := by
  rw [between, here, take_append, take_of_length_le (by omega)]

mutual

theorem Content.not_readsAs (content : Content) (dirty : content.noBackslash = false)
    (objectString : Text) (index : Nat) (rest : Text) (unread : Unread content.broken rest)
    (here : objectString.drop index = content.intact signedChar ++ rest) (value : JsonValue)
    (read : (readValue objectString ⟨index, content.intact signedChar ++ rest⟩).1 = some value) :
    ¬ content.ReadsAs value := by
  cases content with
  | boolean tag | integer tag => cases dirty
  | string tag =>
    have read : (readValue objectString ⟨index, quotes :: rest⟩).1 = some value := read
    rw [readValue] at read
    rcases token_unread index unread with wrong | ⟨raw, found, different⟩
    · rw [wrong] at read
      cases read
    · rw [found] at read
      obtain rfl := Option.some.inj read
      exact different
  | subObject calls =>
    have shape : (Content.subObject calls).intact signedChar ++ rest =
        leftBrace :: (calls.intact signedChar true ++ rest) := rfl
    have found := readValue_of_token objectString
      (token_leftBrace index (calls.intact signedChar true ++ rest))
    rw [shape, found, convertValue_leftBrace] at read
    obtain ⟨last, ends, rfl⟩ := Option.map_eq_some_iff.mp read
    have far := calls.le_of_search .braces dirty (Int.le_refl 0) true _ last rest ends
    have size : ((Content.subObject calls).intact signedChar).length =
        (calls.intact signedChar true).length + 1 := length_cons
    have text := between_append here last (by omega)
    rw [text]
    exact calls.not_readsAs dirty _ true 1 [] (.boolean false) _ (unread.take _) rfl
  | subArray calls =>
    have shape : (Content.subArray calls).intact signedChar ++ rest =
        leftBracket :: (calls.intact signedChar true ++ rest) := rfl
    have found := readValue_of_token objectString
      (token_leftBracket index (calls.intact signedChar true ++ rest))
    rw [shape, found, convertValue_leftBracket] at read
    obtain ⟨last, ends, rfl⟩ := Option.map_eq_some_iff.mp read
    have far := calls.le_of_search .brackets dirty (Int.le_refl 0) true _ last rest ends
    have size : ((Content.subArray calls).intact signedChar).length =
        (calls.intact signedChar true).length + 1 := length_cons
    have text := between_append here last (by omega)
    rw [text]
    exact calls.not_readsAs dirty _ true 1 (.boolean false) _ (unread.take _) rfl

theorem ObjectCalls.not_readsAs (calls : ObjectCalls) (dirty : calls.noBackslash = false)
    (objectString : Text) (empty : Bool) (index : Nat) (key : Text) (value : JsonValue)
    (rest : Text) (unread : Unread calls.broken rest)
    (here : objectString.drop index = calls.intact signedChar empty ++ rest) :
    ¬ calls.ReadsAs (JsonObjectIterator.proceed empty ⟨objectString, ⟨index,
      calls.intact signedChar empty ++ rest⟩, key, value,
      JsonObjectIterator.beforeTag empty, false⟩) := by
  cases calls with
  | nil => cases dirty
  | add tagName content others =>
    intro reads
    cases clean : content.noBackslash with
    | false =>
      rw [ObjectCalls.broken, clean] at unread
      have shape : ObjectCalls.intact signedChar empty (.add tagName content others) ++ rest =
          lead empty ++ quotes :: (tagName.name ++ quotes :: colon ::
            (content.intact signedChar ++ rest)) := by
        simp only [ObjectCalls.intact, clean, Bool.false_eq_true, if_false, append_assoc,
          cons_append]
      have atValue := value_place (lead empty) tagName.name (here.trans shape)
      rw [shape, JsonObjectIterator.proceed_entry] at reads
      generalize result : readValue objectString ⟨_, content.intact signedChar ++ rest⟩ = found
        at reads
      match found, result, reads with
      | (none, later), result, reads => exact reads.1 rfl
      | (some read, later), result, reads =>
        exact content.not_readsAs clean objectString _ rest unread atValue read
          (congrArg Prod.fst result) reads.2.2.1
    | true =>
      rw [ObjectCalls.noBackslash, clean, Bool.true_and] at dirty
      rw [ObjectCalls.broken, clean] at unread
      have shape : ObjectCalls.intact signedChar empty (.add tagName content others) ++ rest =
          lead empty ++ quotes :: (tagName.name ++ quotes :: colon ::
            (content.text signedChar ++ (others.intact signedChar false ++ rest))) := by
        simp only [ObjectCalls.intact, clean, if_true, append_assoc, cons_append]
      have atValue := value_place (lead empty) tagName.name (here.trans shape)
      obtain ⟨read, result, -⟩ := content.readsAs_text clean objectString _ _
        (others.delimited_intact _ dirty rest) atValue
      rw [shape, JsonObjectIterator.proceed_entry, result] at reads
      exact others.not_readsAs dirty objectString false _ _ _ rest unread
        (drop_of_drop atValue) reads.2.2.2

theorem ArrayCalls.not_readsAs (calls : ArrayCalls) (dirty : calls.noBackslash = false)
    (objectString : Text) (empty : Bool) (index : Nat) (value : JsonValue)
    (rest : Text) (unread : Unread calls.broken rest)
    (here : objectString.drop index = calls.intact signedChar empty ++ rest) :
    ¬ calls.ReadsAs (JsonArrayIterator.proceed empty ⟨objectString, ⟨index,
      calls.intact signedChar empty ++ rest⟩, value,
      JsonArrayIterator.beforeValue empty, false⟩) := by
  cases calls with
  | nil => cases dirty
  | add content others =>
    intro reads
    cases clean : content.noBackslash with
    | false =>
      rw [ArrayCalls.broken, clean] at unread
      have shape : ArrayCalls.intact signedChar empty (.add content others) ++ rest =
          lead empty ++ (content.intact signedChar ++ rest) := by
        simp only [ArrayCalls.intact, clean, Bool.false_eq_true, if_false, append_assoc]
      have atValue := drop_of_drop (here.trans shape)
      rw [shape, JsonArrayIterator.proceed_value empty _
        (content.not_rightBracket_intact clean rest)] at reads
      generalize result : readValue objectString ⟨_, content.intact signedChar ++ rest⟩ = found
        at reads
      match found, result, reads with
      | (none, later), result, reads => exact reads.1 rfl
      | (some read, later), result, reads =>
        exact content.not_readsAs clean objectString _ rest unread atValue read
          (congrArg Prod.fst result) reads.2.1
    | true =>
      rw [ArrayCalls.noBackslash, clean, Bool.true_and] at dirty
      rw [ArrayCalls.broken, clean] at unread
      have shape : ArrayCalls.intact signedChar empty (.add content others) ++ rest =
          lead empty ++ (content.text signedChar ++
            (others.intact signedChar false ++ rest)) := by
        simp only [ArrayCalls.intact, clean, if_true, append_assoc]
      have atValue := drop_of_drop (here.trans shape)
      have delimited := others.delimited_intact signedChar dirty rest
      obtain ⟨read, result, -⟩ := content.readsAs_text clean objectString _ _ delimited atValue
      rw [shape, JsonArrayIterator.proceed_value empty _ (content.not_rightBracket _ delimited),
        result] at reads
      exact others.not_readsAs dirty objectString false _ _ rest unread
        (drop_of_drop atValue) reads.2.2

end

/-- Iterating the output of a formatter yields what was added, without an error, exactly if no
string that was added has a backslash, for objects and for arrays. -/
theorem round_trip_iff (signedChar : Bool) :
    (∀ calls : ObjectCalls,
      calls.ReadsAs (.begin (calls.output signedChar)) ↔ calls.noBackslash = true) ∧
    ∀ calls : ArrayCalls,
      calls.ReadsAs (.begin (calls.output signedChar)) ↔ calls.noBackslash = true := by
  constructor
  · intro calls
    rw [calls.output_eq, begin_object]
    constructor
    · intro reads
      by_contra dirty
      obtain ⟨others, same, member⟩ := calls.text_eq_intact signedChar
        (Bool.eq_false_iff.mpr dirty) true [space, rightBrace]
      rw [same] at reads
      exact calls.not_readsAs (Bool.eq_false_iff.mpr dirty) _ true 1 _ _ _
        (unread_of_backslash _ others member) rfl reads
    · intro clean
      exact calls.readsAs_text clean _ true 1 _ _ [] rfl
  · intro calls
    rw [calls.output_eq, begin_array]
    constructor
    · intro reads
      by_contra dirty
      obtain ⟨others, same, member⟩ := calls.text_eq_intact signedChar
        (Bool.eq_false_iff.mpr dirty) true [space, rightBracket]
      rw [same] at reads
      exact calls.not_readsAs (Bool.eq_false_iff.mpr dirty) _ true 1 _ _
        (unread_of_backslash _ others member) rfl reads
    · intro clean
      exact calls.readsAs_text clean _ true 1 _ [] rfl

/-- A value that is a single backslash: its closing quotes are taken for an escaped character. -/
theorem backslash_lost :
    ¬ ∀ calls : ObjectCalls, calls.ReadsAs (.begin (calls.output true)) := by
  intro always
  have reads := always (.add ⟨[char 'a'], by decide, by decide⟩ (.string [backslash]) .nil)
  have error : (JsonObjectIterator.begin (ObjectCalls.output true
      (.add ⟨[char 'a'], by decide, by decide⟩ (.string [backslash]) .nil))).state = .finished := by
    decide +kernel
  exact reads.1 error

end Json
