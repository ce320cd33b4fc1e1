import EmbeddedInfra.Json.JsonTokenizer

/-! Escaping and unescaping of strings: a string comes back exactly if it has no backslash. -/

namespace Json

open JsonString List
open Option (map_eq_some_iff)

variable {signedChar : Bool}

/-! ### The characters -/

def mustEscape (signedChar : Bool) (c : UInt8) : Bool :=
  charactersToEscape.contains c || isControl signedChar c

/-- What is written for a character. -/
def written (signedChar : Bool) (c : UInt8) : Text :=
  if mustEscape signedChar c = true then replaceEscapeCharacter c else [c]

def isCoded (signedChar : Bool) (c : UInt8) : Bool :=
  mustEscape signedChar c && (replaceEscapeCharacter c).length == 6

def code (c : UInt8) : Text :=
  [backslash, char 'u', char '0', char '0', hexChar (c.toNat / 16), hexChar (c.toNat % 16)]

def letter (c : UInt8) : UInt8 := (replaceEscapeCharacter c).getD 1 0

theorem forall_byte {p : Bool → UInt8 → Prop}
    (checked : ∀ signed (n : Fin 256), p signed (UInt8.ofNat n)) (signed : Bool) (c : UInt8) :
    p signed c := by
  have this := checked signed ⟨c.toNat, c.toNat_lt⟩
  rwa [UInt8.ofNat_toNat] at this

theorem character_spec (signed : Bool) (c : UInt8) :
    (isCoded signed c = true → written signed c = code c) ∧
    (mustEscape signed c = true → isCoded signed c = false →
      written signed c = [backslash, letter c] ∧
        unescape (letter c) = c ∧ letter c ≠ backslash ∧ letter c ≠ char 'u' ∧
          (c ≠ quotes → letter c ≠ quotes ∧ letter c ≠ c)) ∧
    (mustEscape signed c = true → c ≠ backslash ∧ c ≠ char 'u') := by
  revert signed c
  exact forall_byte (by decide +kernel)

theorem digit_spec (signed : Bool) (c : UInt8) :
    ((hexDigit c).isSome = true → mustEscape signed c = false ∧ c ≠ backslash ∧ c ≠ quotes) ∧
    (c ≠ backslash → unescape c ≠ backslash) ∧
    hexDigit (hexChar (c.toNat / 16)) = some (UInt8.ofNat (c.toNat / 16)) ∧
    hexDigit (hexChar (c.toNat % 16)) = some (UInt8.ofNat (c.toNat % 16)) ∧
    ((0 * 16 + 0) * 16 + UInt8.ofNat (c.toNat / 16)) * 16 + UInt8.ofNat (c.toNat % 16) = c := by
  revert signed c
  exact forall_byte (by decide +kernel)

variable {c : UInt8} {rest : Text} {d : UInt8}

theorem written_of_coded : isCoded signedChar c = true →
    written signedChar c = code c :=
  (character_spec signedChar c).1

theorem written_of_escaped (escaped : mustEscape signedChar c = true)
    (notCoded : isCoded signedChar c = false) : written signedChar c = [backslash, letter c] :=
  ((character_spec signedChar c).2.1 escaped notCoded).1

theorem written_of_plain (plain : mustEscape signedChar c = false) : written signedChar c = [c] :=
  if_neg (Bool.eq_false_iff.mp plain)

theorem letter_spec (escaped : mustEscape signedChar c = true)
    (notCoded : isCoded signedChar c = false) :
    unescape (letter c) = c ∧ letter c ≠ backslash ∧ letter c ≠ char 'u' ∧
      (c ≠ quotes → letter c ≠ quotes ∧ letter c ≠ c) :=
  ((character_spec signedChar c).2.1 escaped notCoded).2

theorem plain_of_hexDigit (signedChar : Bool) : (hexDigit c).isSome = true →
    mustEscape signedChar c = false ∧ c ≠ backslash ∧ c ≠ quotes :=
  (digit_spec signedChar c).1

theorem ne_of_escaped : mustEscape signedChar c = true →
    c ≠ backslash ∧ c ≠ char 'u' :=
  (character_spec signedChar c).2.2

theorem quotes_escaped : mustEscape signedChar quotes = true := by
  cases signedChar <;> decide

theorem nonEscapedSubString_plain (plain : mustEscape signedChar c = false) (rest : Text) :
    nonEscapedSubString signedChar (c :: rest) =
      (c :: (nonEscapedSubString signedChar rest).1, (nonEscapedSubString signedChar rest).2) := by
  obtain ⟨notListed, notControl⟩ := Bool.or_eq_false_iff.mp plain
  simp only [nonEscapedSubString, takeWhile_cons, notListed, notControl, Bool.not_false,
    if_true, length_cons, drop_succ_cons]

theorem nonEscapedSubString_escaped (escaped : mustEscape signedChar c = true) (rest : Text) :
    nonEscapedSubString signedChar (c :: rest) = ([], c :: rest) := by
  rcases Bool.or_eq_true_iff.mp escaped with listed | control
  · simp only [nonEscapedSubString, takeWhile_cons, listed, Bool.not_true, Bool.false_eq_true,
      if_false, takeWhile_nil, length_nil, drop_zero]
  · by_cases listed : charactersToEscape.contains c = true
    · simp only [nonEscapedSubString, takeWhile_cons, listed, Bool.not_true,
        Bool.false_eq_true, if_false, takeWhile_nil, length_nil, drop_zero]
    · simp only [nonEscapedSubString, takeWhile_cons, Bool.eq_false_iff.mpr listed, control,
        Bool.not_false, Bool.not_true, Bool.false_eq_true, if_true, if_false, length_nil,
        drop_zero]

theorem insertRounds_plain (plain : mustEscape signedChar c = false) (rounds : Nat) (rest : Text) :
    insertRounds signedChar (rounds + 1) (c :: rest) =
      c :: insertRounds signedChar (rounds + 1) rest := by
  rw [insertRounds, insertRounds, nonEscapedSubString_plain plain]
  cases nonEscapedSubString signedChar rest with
  | mk nonEscaped remaining =>
    cases remaining with
    | nil | cons d others => rfl

theorem insertRounds_eq (rounds : Nat) (content : Text) (enough : content.length < rounds) :
    insertRounds signedChar rounds content = content.flatMap (written signedChar) := by
  induction content generalizing rounds with
  | nil =>
    cases rounds with
    | zero | succ rounds => rfl
  | cons c rest ih =>
    obtain ⟨rounds, rfl⟩ := Nat.exists_eq_add_one_of_ne_zero (Nat.ne_zero_of_lt enough)
    rw [length_cons] at enough
    rw [flatMap_cons, written]
    cases escaped : mustEscape signedChar c with
    | false =>
      rw [insertRounds_plain escaped, ih _ (Nat.lt_of_succ_lt enough)]
      rfl
    | true =>
      rw [insertRounds, nonEscapedSubString_escaped escaped]
      change replaceEscapeCharacter c ++ insertRounds signedChar rounds rest = _
      rw [ih rounds (Nat.lt_of_succ_lt_succ enough), if_pos rfl]

theorem insertEscapedContent_eq (content : Text) :
    insertEscapedContent signedChar content = content.flatMap (written signedChar) :=
  insertRounds_eq _ content (Nat.lt_succ_self _)

/-! ### Reading a string -/

theorem length_hexCode (digits : Nat) (result : UInt8) (rest : Text) :
    (hexCode digits result rest).2.length ≤ rest.length := by
  fun_induction hexCode digits result rest with
  | case1 | case2 => exact le_rfl
  | case3 _ _ _ _ _ _ ih => exact ih.trans (Nat.le_succ _)
  | case4 => exact le_rfl

theorem dereference_plain (plain : c ≠ backslash) (rest : Text) :
    dereference c rest = some (c, rest) :=
  if_neg plain

theorem dereference_letter {next : UInt8} (notCode : next ≠ char 'u') (rest : Text) :
    dereference backslash (next :: rest) = some (unescape next, rest) :=
  if_neg notCode

theorem length_dereference {found : UInt8 × Text} (read : dereference c rest = some found) :
    found.2.length ≤ rest.length := by
  by_cases plain : c = backslash
  · subst plain
    cases rest with
    | nil => cases read
    | cons next rest =>
      by_cases isCode : next = char 'u'
      · subst isCode
        obtain rfl := Option.some.inj read
        exact (length_hexCode _ _ _).trans (Nat.le_succ _)
      · rw [dereference_letter isCode] at read
        obtain rfl := Option.some.inj read
        exact Nat.le_succ _
  · rw [dereference_plain plain] at read
    obtain rfl := Option.some.inj read
    exact le_rfl

theorem characters_of_le (n m : Nat) (source : Text) (first : source.length ≤ n)
    (second : source.length ≤ m) : characters n source = characters m source := by
  induction n generalizing m source with
  | zero =>
    obtain rfl := length_eq_zero_iff.mp (Nat.le_zero.mp first)
    cases m with
    | zero | succ m => rfl
  | succ n ih =>
    cases source with
    | nil =>
      cases m with
      | zero | succ m => rfl
    | cons c rest =>
      rw [length_cons] at first second
      obtain ⟨m, rfl⟩ := Nat.exists_eq_add_one_of_ne_zero (Nat.ne_zero_of_lt second)
      rw [characters, characters]
      cases read : dereference c rest with
      | none => rfl
      | some found =>
        have shorter := length_dereference read
        change (do
          let others ← characters n found.2
          pure (found.1 :: others)) = _
        rw [ih m found.2 (by omega) (by omega)]
        rfl

theorem decode_cons (c : UInt8) (rest : Text) : decode (c :: rest) =
    (dereference c rest).bind fun found => (decode found.2).map (found.1 :: ·) := by
  rw [decode, length_cons, characters]
  cases read : dereference c rest with
  | none => rfl
  | some found =>
    change (do
      let others ← characters rest.length found.2
      pure (found.1 :: others)) = _
    rw [characters_of_le rest.length found.2.length found.2 (length_dereference read) le_rfl]
    change _ = (characters found.2.length found.2).map (found.1 :: ·)
    cases characters found.2.length found.2 with
    | none | some others => rfl

theorem decode_plain (plain : c ≠ backslash) (rest : Text) :
    decode (c :: rest) = (decode rest).map (c :: ·) := by
  rw [decode_cons, dereference_plain plain]
  rfl

theorem decode_letter {next : UInt8} (notCode : next ≠ char 'u') (rest : Text) :
    decode (backslash :: next :: rest) = (decode rest).map (unescape next :: ·) := by
  rw [decode_cons, dereference_letter notCode]
  rfl

theorem decode_code (rest : Text) : decode (backslash :: char 'u' :: rest) =
    (decode (hexCode 4 0 rest).2).map ((hexCode 4 0 rest).1 :: ·) :=
  decode_cons backslash (char 'u' :: rest)

theorem hexDigit_code (c : UInt8) :
    hexDigit (hexChar (c.toNat / 16)) = some (UInt8.ofNat (c.toNat / 16)) ∧
      hexDigit (hexChar (c.toNat % 16)) = some (UInt8.ofNat (c.toNat % 16)) ∧
        ((0 * 16 + 0) * 16 + UInt8.ofNat (c.toNat / 16)) * 16 + UInt8.ofNat (c.toNat % 16) = c :=
  (digit_spec true c).2.2

theorem hexCode_code (c : UInt8) (rest : Text) :
    hexCode 4 0 (char '0' :: char '0' :: hexChar (c.toNat / 16) :: hexChar (c.toNat % 16) :: rest) =
      (c, rest) := by
  obtain ⟨high, low, value⟩ := hexDigit_code c
  have zero : hexDigit (char '0') = some 0 := by decide
  simp only [hexCode, zero, high, low]
  exact Prod.ext value rfl

theorem plain_of_code (signedChar : Bool) (c : UInt8) :
    (mustEscape signedChar (hexChar (c.toNat / 16)) = false ∧
      hexChar (c.toNat / 16) ≠ backslash ∧ hexChar (c.toNat / 16) ≠ quotes) ∧
    mustEscape signedChar (hexChar (c.toNat % 16)) = false ∧
      hexChar (c.toNat % 16) ≠ backslash ∧ hexChar (c.toNat % 16) ≠ quotes := by
  obtain ⟨high, low, -⟩ := hexDigit_code c
  exact ⟨plain_of_hexDigit signedChar (high ▸ rfl), plain_of_hexDigit signedChar (low ▸ rfl)⟩

theorem decode_written (notBackslash : c ≠ backslash) (rest : Text) :
    decode (written signedChar c ++ rest) = (decode rest).map (c :: ·) := by
  cases escaped : mustEscape signedChar c with
  | false =>
    rw [written_of_plain escaped]
    exact decode_plain notBackslash rest
  | true =>
    cases coded : isCoded signedChar c with
    | false =>
      obtain ⟨same, -, notCode, -⟩ := letter_spec escaped coded
      rw [written_of_escaped escaped coded]
      exact (decode_letter notCode rest).trans (by rw [same])
    | true =>
      rw [written_of_coded coded]
      have step := decode_code (char '0' :: char '0' :: hexChar (c.toNat / 16) ::
        hexChar (c.toNat % 16) :: rest)
      rw [hexCode_code] at step
      exact step

/-! ### The string of a token -/

/-- The source of a string that begins after its opening quotes, if it ends. -/
def rawString (text : Text) : Option Text :=
  (closingQuotes false text).map fun length => text.take length

theorem rawString_quotes (rest : Text) : rawString (quotes :: rest) = some [] := rfl

theorem rawString_plain (notQuotes : c ≠ quotes) (notBackslash : c ≠ backslash) (rest : Text) :
    rawString (c :: rest) = (rawString rest).map (c :: ·) := by
  have same : (!false && decide (c = backslash)) = false := by
    rw [decide_eq_false notBackslash]
    rfl
  rw [rawString, closingQuotes, if_pos (Or.inr notQuotes), same, rawString, Option.map_map,
    Option.map_map]
  rfl

theorem rawString_escape (next : UInt8) (rest : Text) :
    rawString (backslash :: next :: rest) =
      (rawString rest).map fun raw => backslash :: next :: raw := by
  have same : closingQuotes false (backslash :: next :: rest) =
      (closingQuotes false rest).map (· + 2) := by
    change ((closingQuotes false rest).map (· + 1)).map (· + 1) = _
    rw [Option.map_map]
    rfl
  rw [rawString, same, rawString, Option.map_map, Option.map_map]
  rfl

theorem rawString_written (notBackslash : c ≠ backslash) (rest : Text) :
    rawString (written signedChar c ++ rest) =
      (rawString rest).map (written signedChar c ++ ·) := by
  cases escaped : mustEscape signedChar c with
  | false =>
    rw [written_of_plain escaped]
    apply rawString_plain _ notBackslash
    intro same
    rw [same, quotes_escaped] at escaped
    cases escaped
  | true =>
    cases coded : isCoded signedChar c with
    | false =>
      rw [written_of_escaped escaped coded]
      exact rawString_escape _ rest
    | true =>
      obtain ⟨⟨-, highPlain, highNotQuotes⟩, -, lowPlain, lowNotQuotes⟩ :=
        plain_of_code signedChar c
      rw [written_of_coded coded]
      refine (rawString_escape _ _).trans ?_
      change (rawString (char '0' :: char '0' :: hexChar (c.toNat / 16) ::
        hexChar (c.toNat % 16) :: rest)).map _ = _
      rw [rawString_plain (by decide) (by decide), rawString_plain (by decide) (by decide),
        rawString_plain highNotQuotes highPlain, rawString_plain lowNotQuotes lowPlain]
      simp only [Option.map_map]
      rfl

/-! ### Strings without a backslash -/

theorem decode_insertEscapedContent (tag : Text) (clean : backslash ∉ tag) :
    decode (insertEscapedContent signedChar tag) = some tag := by
  rw [insertEscapedContent_eq]
  induction tag with
  | nil => rfl
  | cons c rest ih =>
    rw [flatMap_cons, decode_written (ne_of_not_mem_cons clean).symm,
      ih (not_mem_of_not_mem_cons clean)]
    rfl

theorem rawString_insertEscapedContent (signedChar : Bool) (tag rest : Text) (clean : backslash ∉ tag) :
    rawString (insertEscapedContent signedChar tag ++ quotes :: rest) =
      some (insertEscapedContent signedChar tag) := by
  rw [insertEscapedContent_eq]
  induction tag with
  | nil => exact rawString_quotes rest
  | cons c others ih =>
    rw [flatMap_cons, append_assoc,
      rawString_written (ne_of_not_mem_cons clean).symm,
      ih (not_mem_of_not_mem_cons clean)]
    rfl

/-! ### Strings with a backslash -/

theorem string_after_backslash (next : UInt8) (text : Text) {raw : Text}
    (string : rawString (backslash :: next :: text) = some raw) :
    ∃ remaining, rawString text = some remaining ∧ raw = backslash :: next :: remaining := by
  rw [rawString_escape] at string
  obtain ⟨remaining, later, rfl⟩ := map_eq_some_iff.mp string
  exact ⟨remaining, later, rfl⟩

/-- What is still to come out of the iteration: characters that have been read from the string
already. None of them was written as a code, and no code of one stands there in full. -/
structure Pending (signedChar : Bool) (pending todo : Text) : Prop where
  behind : pending ≠ [] ∨ todo.head? = some backslash
  no_quotes : quotes ∉ pending
  not_coded : ∀ c ∈ pending, isCoded signedChar c = false
  no_code : ∀ part, part <:+ pending → part ≠ [] → ∀ c, isCoded signedChar c = true →
    ¬ code c <+: part ++ todo

theorem starts_of_code (starts : code c <+: d :: rest) :
    d = backslash ∧ ∃ others, rest = char 'u' :: char '0' :: char '0' ::
      hexChar (c.toNat / 16) :: hexChar (c.toNat % 16) :: others := by
  obtain ⟨others, same⟩ := starts
  obtain ⟨rfl, rfl⟩ := List.cons.inj same
  exact ⟨rfl, others, rfl⟩

theorem not_code_of_ne (different : d ≠ backslash) :
    ¬ code c <+: d :: rest := fun starts => different (starts_of_code starts).1

theorem not_code_of_second {e : UInt8} (different : e ≠ char 'u') :
    ¬ code c <+: d :: e :: rest := by
  intro starts
  obtain ⟨-, others, same⟩ := starts_of_code starts
  exact different (List.cons.inj same).1

theorem Pending.next {pending left todo : Text} (front : Text)
    (before : Pending signedChar pending (front ++ todo)) (suffix : left <:+ pending ++ front)
    (behind : left ≠ []) (clean : ∀ c ∈ front, c ≠ quotes ∧ isCoded signedChar c = false)
    (codes : ∀ part, part <:+ front → part ≠ [] → part <:+ left → ∀ c,
      isCoded signedChar c = true → ¬ code c <+: part ++ todo) :
    Pending signedChar left todo where
  behind := Or.inl behind
  no_quotes := by
    intro member
    rcases mem_append.mp (suffix.subset member) with old | new
    · exact before.no_quotes old
    · exact (clean quotes new).1 rfl
  not_coded := by
    intro c member
    rcases mem_append.mp (suffix.subset member) with old | new
    · exact before.not_coded c old
    · exact (clean c new).2
  no_code := by
    intro part isSuffix nonempty c coded
    obtain ⟨first, same⟩ := isSuffix.trans suffix
    rcases append_eq_append_iff.mp same with ⟨old, split, rfl⟩ | ⟨late, -, split⟩
    · by_cases none : old = []
      · subst none
        exact codes _ (List.suffix_refl _) nonempty isSuffix c coded
      · rw [append_assoc]
        exact before.no_code old ⟨first, split.symm⟩ none c coded
    · exact codes part ⟨late, split.symm⟩ nonempty isSuffix c coded

/-- The iteration goes on for the rest of a string, and is right about what is pending. -/
def Continues (signedChar : Bool) (after pending todo : Text) : Prop :=
  Pending signedChar pending todo ∧ ∃ raw,
    rawString (todo.flatMap (written signedChar) ++ quotes :: after) = some raw ∧
      decode raw = some (pending ++ todo)

variable {after pending todo : Text}

theorem not_plain_of_quotes (plain : mustEscape signedChar c = false) : c ≠ quotes := by
  intro same
  rw [same, quotes_escaped] at plain
  cases plain

theorem not_coded_of_plain (plain : mustEscape signedChar c = false) :
    isCoded signedChar c = false := by
  rw [isCoded, plain, Bool.false_and]

theorem backslash_plain : mustEscape signedChar backslash = false := by
  cases signedChar <;> decide

theorem Continues.single (notBackslash : c ≠ backslash)
    (continues : Continues signedChar after pending (c :: todo)) :
    ∃ left, Continues signedChar after left todo := by
  obtain ⟨before, raw, string, decoded⟩ := continues
  cases pending with
  | nil =>
    rcases before.behind with nonempty | head
    · exact absurd rfl nonempty
    · exact absurd (Option.some.inj head) notBackslash
  | cons first others =>
    rw [flatMap_cons, append_assoc, rawString_written notBackslash] at string
    obtain ⟨remaining, later, rfl⟩ := map_eq_some_iff.mp string
    rw [decode_written notBackslash] at decoded
    obtain ⟨characters, decoded, same⟩ := map_eq_some_iff.mp decoded
    obtain ⟨rfl, rfl⟩ := List.cons.inj same
    refine ⟨others ++ [c], ?_, remaining, later, ?_⟩
    · refine Pending.next [c] before (List.suffix_cons c _)
        (append_ne_nil_of_right_ne_nil _ (cons_ne_nil _ _)) ?_ ?_
      · intro d member
        rw [mem_singleton.mp member]
        refine ⟨?_, before.not_coded c mem_cons_self⟩
        intro same
        exact before.no_quotes (same ▸ mem_cons_self)
      · intro part suffix nonempty _ d _
        rcases List.suffix_cons_iff.mp suffix with rfl | none
        · exact not_code_of_ne notBackslash
        · exact absurd (List.suffix_nil.mp none) nonempty
    · rw [append_assoc]
      exact decoded

theorem Continues.last (continues : Continues signedChar after pending [backslash]) : False := by
  obtain ⟨before, raw, string, decoded⟩ := continues
  rw [flatMap_cons, written_of_plain backslash_plain] at string
  obtain ⟨remaining, -, rfl⟩ := string_after_backslash quotes after string
  rw [decode_letter (by decide)] at decoded
  obtain ⟨characters, -, same⟩ := map_eq_some_iff.mp decoded
  cases pending with
  | nil => exact absurd (List.cons.inj same).1 (by decide)
  | cons first others =>
    apply before.no_quotes
    rw [← (List.cons.inj same).1]
    exact mem_cons_self

theorem left_of_cons {characters : Text} (front : Text) (nonempty : front ≠ [])
    (same : d :: characters = pending ++ (front ++ todo)) :
    ∃ left, pending ++ front = d :: left ∧ characters = left ++ todo := by
  cases split : pending ++ front with
  | nil => exact absurd (append_eq_nil_iff.mp split).2 nonempty
  | cons e left =>
    rw [← append_assoc, split] at same
    obtain ⟨rfl, rfl⟩ := List.cons.inj same
    exact ⟨left, rfl, rfl⟩

theorem suffix_of_cons {left whole : Text} (split : whole = d :: left) :
    left <:+ whole := split ▸ List.suffix_cons d left

theorem no_code_of_pair {e : UInt8} {part : Text} (first : ¬ code c <+: d :: e :: todo)
    (second : ¬ code c <+: e :: todo) (suffix : part <:+ [d, e]) (nonempty : part ≠ []) :
    ¬ code c <+: part ++ todo := by
  rcases List.suffix_cons_iff.mp suffix with rfl | short
  · exact first
  · rcases List.suffix_cons_iff.mp short with rfl | none
    · exact second
    · exact absurd (List.suffix_nil.mp none) nonempty

theorem Continues.pair (plain : mustEscape signedChar c = false) (notBackslash : c ≠ backslash)
    (notCode : c ≠ char 'u')
    (continues : Continues signedChar after pending (backslash :: c :: todo)) :
    ∃ left, Continues signedChar after left todo := by
  obtain ⟨before, raw, string, decoded⟩ := continues
  rw [flatMap_cons, flatMap_cons, written_of_plain backslash_plain,
    written_of_plain plain] at string
  obtain ⟨remaining, later, rfl⟩ := string_after_backslash c
    (todo.flatMap (written signedChar) ++ quotes :: after) string
  rw [decode_letter notCode] at decoded
  obtain ⟨characters, decoded, same⟩ := map_eq_some_iff.mp decoded
  obtain ⟨left, split, rfl⟩ := left_of_cons [backslash, c] (cons_ne_nil _ _) same
  have behind : left ≠ [] := by
    intro none
    subst none
    have long := congrArg List.length split
    rw [length_append] at long
    exact absurd long (by simp)
  refine ⟨left, ?_, remaining, later, decoded⟩
  apply Pending.next [backslash, c] before (suffix_of_cons split) behind
  · intro d member
    rcases mem_cons.mp member with rfl | member
    · exact ⟨by decide, not_coded_of_plain backslash_plain⟩
    · rw [mem_singleton.mp member]
      exact ⟨not_plain_of_quotes plain, not_coded_of_plain plain⟩
  · intro part suffix nonempty _ d _
    exact no_code_of_pair (not_code_of_second notCode) (not_code_of_ne notBackslash) suffix
      nonempty

def PlainText (signedChar : Bool) (text : Text) : Prop :=
  ∀ c ∈ text, mustEscape signedChar c = false ∧ c ≠ backslash

theorem rawString_plainText (text rest : Text) (plain : PlainText signedChar text) :
    rawString (text ++ rest) = (rawString rest).map (text ++ ·) := by
  induction text with
  | nil =>
    change rawString rest = (rawString rest).map id
    rw [Option.map_id, id]
  | cons c others ih =>
    obtain ⟨isPlain, notBackslash⟩ := plain c mem_cons_self
    rw [cons_append, rawString_plain (not_plain_of_quotes isPlain) notBackslash,
      ih fun d member => plain d (mem_cons_of_mem _ member), Option.map_map]
    rfl

theorem decode_plainText (text rest : Text) (plain : PlainText signedChar text) :
    decode (text ++ rest) = (decode rest).map (text ++ ·) := by
  induction text with
  | nil =>
    change decode rest = (decode rest).map id
    rw [Option.map_id, id]
  | cons c others ih =>
    rw [cons_append, decode_plain (plain c mem_cons_self).2,
      ih fun d member => plain d (mem_cons_of_mem _ member), Option.map_map]
    rfl

theorem flatMap_plainText (text : Text) (plain : PlainText signedChar text) :
    text.flatMap (written signedChar) = text := by
  induction text with
  | nil => rfl
  | cons c others ih =>
    rw [flatMap_cons, written_of_plain (plain c mem_cons_self).1,
      ih fun d member => plain d (mem_cons_of_mem _ member)]
    rfl

theorem plainText_code (signedChar : Bool) (c : UInt8) : PlainText signedChar (code c).tail := by
  obtain ⟨high, low⟩ := plain_of_code signedChar c
  have letterPlain : mustEscape signedChar (char 'u') = false := by cases signedChar <;> decide
  have zeroPlain : mustEscape signedChar (char '0') = false := by cases signedChar <;> decide
  intro d member
  simp only [code, tail_cons, mem_cons, not_mem_nil, or_false] at member
  rcases member with rfl | rfl | rfl | rfl | rfl
  · exact ⟨letterPlain, by decide⟩
  · exact ⟨zeroPlain, by decide⟩
  · exact ⟨zeroPlain, by decide⟩
  · exact ⟨high.1, high.2.1⟩
  · exact ⟨low.1, low.2.1⟩

theorem Pending.not_code (before : Pending signedChar pending (backslash :: todo))
    (notCode : todo.head? ≠ some (char 'u')) (c : UInt8) (coded : isCoded signedChar c = true) :
    ¬ code c <+: pending ++ backslash :: todo := by
  by_cases none : pending = []
  · subst none
    intro starts
    obtain ⟨-, others, rfl⟩ := starts_of_code starts
    exact notCode rfl
  · exact before.no_code pending (List.suffix_refl _) none c coded

theorem Continues.backslashes
    (continues : Continues signedChar after pending (backslash :: backslash :: todo)) :
    ∃ left, Continues signedChar after left todo := by
  obtain ⟨before, raw, string, decoded⟩ := continues
  rw [flatMap_cons, flatMap_cons, written_of_plain backslash_plain] at string
  obtain ⟨remaining, later, rfl⟩ := string_after_backslash backslash
    (todo.flatMap (written signedChar) ++ quotes :: after) string
  rw [decode_letter (by decide)] at decoded
  obtain ⟨characters, decoded, same⟩ := map_eq_some_iff.mp decoded
  obtain ⟨left, split, rfl⟩ :=
    left_of_cons [backslash, backslash] (cons_ne_nil _ _) same
  have behind : left ≠ [] := by
    intro none
    subst none
    have long := congrArg List.length split
    rw [length_append] at long
    exact absurd long (by simp)
  refine ⟨left, ?_, remaining, later, decoded⟩
  apply Pending.next [backslash, backslash] before (suffix_of_cons split) behind
  · intro d member
    have same : d = backslash := by simpa using member
    rw [same]
    exact ⟨by decide, not_coded_of_plain backslash_plain⟩
  · intro part suffix nonempty _ d coded
    apply no_code_of_pair (not_code_of_second (by decide)) _ suffix nonempty
    -- A code after the second backslash comes out as it stands there, in place of what is
    -- pending.
    intro starts
    obtain ⟨others, ends⟩ := starts
    obtain rfl : (code d).tail ++ others = todo := (List.cons.inj ends).2
    rw [flatMap_append, flatMap_plainText _ (plainText_code signedChar d), append_assoc,
      rawString_plainText _ _ (plainText_code signedChar d)] at later
    obtain ⟨final, -, rfl⟩ := map_eq_some_iff.mp later
    rw [decode_plainText _ _ (plainText_code signedChar d)] at decoded
    obtain ⟨characters, -, result⟩ := map_eq_some_iff.mp decoded
    apply before.not_code (fun head => absurd (Option.some.inj head) (by decide)) d coded
    rw [← same, ← result]
    exact ⟨characters, rfl⟩

theorem left_of_append {characters : Text} (first front : Text) (short : first.length ≤ pending.length)
    (same : first ++ characters = pending ++ (front ++ todo)) :
    ∃ left, pending = first ++ left ∧ characters = left ++ (front ++ todo) := by
  rcases append_eq_append_iff.mp same with ⟨left, split, ends⟩ | ⟨extra, split, ends⟩
  · exact ⟨left, split, ends⟩
  · rw [split, length_append] at short
    obtain rfl : extra = [] := length_eq_zero_iff.mp (by omega)
    exact ⟨[], by rw [split, append_nil, append_nil], ends.symm⟩

/-- A backslash before a character that is escaped comes out, and so does what is written for
the character after its own backslash. -/
theorem Continues.escaped (mustEscaped : mustEscape signedChar c = true)
    (continues : Continues signedChar after pending (backslash :: c :: todo)) :
    ∃ left, Continues signedChar after left todo := by
  obtain ⟨before, raw, string, decoded⟩ := continues
  have notCode := (ne_of_escaped mustEscaped).2
  rw [flatMap_cons, flatMap_cons, written_of_plain backslash_plain] at string
  cases coded : isCoded signedChar c with
  | true =>
    exfalso
    rw [written_of_coded coded] at string
    obtain ⟨remaining, later, rfl⟩ := string_after_backslash backslash
      ((code c).tail ++ (todo.flatMap (written signedChar) ++ quotes :: after)) string
    rw [decode_letter (by decide)] at decoded
    obtain ⟨characters, decoded, same⟩ := map_eq_some_iff.mp decoded
    rw [rawString_plainText _ _ (plainText_code signedChar c)] at later
    obtain ⟨final, -, rfl⟩ := map_eq_some_iff.mp later
    rw [decode_plainText _ _ (plainText_code signedChar c)] at decoded
    obtain ⟨others, -, result⟩ := map_eq_some_iff.mp decoded
    apply before.not_code (fun head => notCode (Option.some.inj head)) c coded
    rw [← same, ← result]
    exact ⟨others, rfl⟩
  | false =>
    obtain ⟨-, letterPlain, letterNotCode, other⟩ := letter_spec mustEscaped coded
    rw [written_of_escaped mustEscaped coded] at string
    obtain ⟨remaining, later, rfl⟩ := string_after_backslash backslash
      (letter c :: (todo.flatMap (written signedChar) ++ quotes :: after)) string
    rw [decode_letter (by decide)] at decoded
    obtain ⟨characters, comes, same⟩ := map_eq_some_iff.mp decoded
    by_cases isQuotes : c = quotes
    · -- The quotes end the string here, before what comes after them has come out.
      exfalso
      subst isQuotes
      obtain rfl := Option.some.inj ((rawString_quotes _).symm.trans later)
      obtain rfl : [] = characters := Option.some.inj comes
      have long := congrArg List.length same
      simp only [length_append, length_cons, length_nil] at long
      omega
    · obtain ⟨notQuotes, different⟩ := other isQuotes
      rw [rawString_plain notQuotes letterPlain] at later
      obtain ⟨final, ends, rfl⟩ := map_eq_some_iff.mp later
      rw [decode_plain letterPlain] at comes
      obtain ⟨others, rest, rfl⟩ := map_eq_some_iff.mp comes
      have long : 2 ≤ pending.length := by
        match pending, same with
        | [], same => exact absurd (List.cons.inj (List.cons.inj same).2).1 different
        | [_], same => exact absurd (List.cons.inj (List.cons.inj same).2).1 letterPlain
        | _ :: _ :: _, _ => exact Nat.le_add_left _ _
      obtain ⟨left, split, rfl⟩ := left_of_append [backslash, letter c] [backslash, c]
        long same
      refine ⟨left ++ [backslash, c], ?_, final, ends, by rw [append_assoc]; exact rest⟩
      apply Pending.next [backslash, c] before
      · exact ⟨[backslash, letter c], by rw [split, append_assoc]⟩
      · exact append_ne_nil_of_right_ne_nil _ (cons_ne_nil _ _)
      · intro d member
        rcases mem_cons.mp member with rfl | member
        · exact ⟨by decide, not_coded_of_plain backslash_plain⟩
        · rw [mem_singleton.mp member]
          exact ⟨isQuotes, coded⟩
      · intro part suffix nonempty _ d _
        exact no_code_of_pair (not_code_of_second notCode)
          (not_code_of_ne (ne_of_escaped mustEscaped).1) suffix nonempty

theorem head_of_backslash {text raw : Text} (string : rawString (backslash :: text) = some raw) :
    raw.head? = some backslash := by
  obtain ⟨length, closed, rfl⟩ := map_eq_some_iff.mp string
  rw [closingQuotes, if_pos (Or.inr (by decide))] at closed
  obtain ⟨others, -, rfl⟩ := map_eq_some_iff.mp closed
  rfl

theorem plain_of_string {others : Text} (notBackslash : c ≠ backslash)
    (string : rawString ((d :: todo).flatMap (written signedChar) ++ quotes :: after) =
      some (c :: others)) :
    c = d ∧ mustEscape signedChar d = false ∧
      rawString (todo.flatMap (written signedChar) ++ quotes :: after) = some others := by
  have impossible : ∀ text, rawString (backslash :: text) ≠ some (c :: others) := fun text ends =>
    notBackslash (Option.some.inj (head_of_backslash ends))
  rw [flatMap_cons, append_assoc] at string
  cases escaped : mustEscape signedChar d with
  | true =>
    exfalso
    cases coded : isCoded signedChar d with
    | true =>
      rw [written_of_coded coded] at string
      exact impossible _ string
    | false =>
      rw [written_of_escaped escaped coded] at string
      exact impossible _ string
  | false =>
    rw [written_of_plain escaped] at string
    by_cases isBackslash : d = backslash
    · subst isBackslash
      exact absurd string (impossible _)
    · rw [singleton_append,
        rawString_plain (not_plain_of_quotes escaped) isBackslash] at string
      obtain ⟨remaining, later, same⟩ := map_eq_some_iff.mp string
      obtain ⟨rfl, rfl⟩ := List.cons.inj same
      exact ⟨rfl, rfl, later⟩

theorem hexCode_string (digits : Nat) (result : UInt8) (todo raw : Text)
    (string : rawString (todo.flatMap (written signedChar) ++ quotes :: after) = some raw) :
    ∃ front rest, todo = front ++ rest ∧ (∀ c ∈ front, (hexDigit c).isSome = true) ∧
      rawString (rest.flatMap (written signedChar) ++ quotes :: after) =
        some (hexCode digits result raw).2 := by
  induction digits generalizing result todo raw with
  | zero => exact ⟨[], todo, rfl, nofun, string⟩
  | succ digits ih =>
    cases raw with
    | nil => exact ⟨[], todo, rfl, nofun, string⟩
    | cons c others =>
      rw [hexCode]
      cases digit : hexDigit c with
      | none => exact ⟨[], todo, rfl, nofun, string⟩
      | some value =>
        have isDigit : (hexDigit c).isSome = true := by rw [digit]; rfl
        have plain := plain_of_hexDigit signedChar isDigit
        cases todo with
        | nil => cases (rawString_quotes after).symm.trans string
        | cons d todo =>
          obtain ⟨rfl, -, later⟩ := plain_of_string plain.2.1 string
          obtain ⟨front, rest, rfl, front_digits, ends⟩ :=
            ih (result * 16 + value) todo others later
          refine ⟨c :: front, rest, rfl, ?_, ends⟩
          intro d member
          rcases mem_cons.mp member with rfl | member
          · exact isDigit
          · exact front_digits d member

theorem Continues.code
    (continues : Continues signedChar after pending (backslash :: char 'u' :: todo)) :
    ∃ left rest, rest.length ≤ todo.length ∧ Continues signedChar after left rest := by
  obtain ⟨before, raw, string, decoded⟩ := continues
  have uPlain : mustEscape signedChar (char 'u') = false := by cases signedChar <;> decide
  rw [flatMap_cons, flatMap_cons, written_of_plain backslash_plain,
    written_of_plain uPlain] at string
  obtain ⟨remaining, later, rfl⟩ := string_after_backslash (char 'u')
    (todo.flatMap (written signedChar) ++ quotes :: after) string
  rw [decode_code] at decoded
  obtain ⟨characters, comes, same⟩ := map_eq_some_iff.mp decoded
  obtain ⟨digits, rest, rfl, areDigits, ends⟩ := hexCode_string 4 0 todo remaining later
  obtain ⟨left, split, rfl⟩ := left_of_cons (backslash :: char 'u' :: digits)
    (cons_ne_nil _ _) same
  have behind : left ≠ [] := by
    intro none
    subst none
    have long := congrArg List.length split
    simp only [length_append, length_cons, length_nil] at long
    omega
  refine ⟨left, rest, by simp, ?_, _, ends, comes⟩
  apply Pending.next (backslash :: char 'u' :: digits) before (suffix_of_cons split) behind
  · intro d member
    rcases mem_cons.mp member with rfl | member
    · exact ⟨by decide, not_coded_of_plain backslash_plain⟩
    · rcases mem_cons.mp member with rfl | member
      · exact ⟨by decide, not_coded_of_plain uPlain⟩
      · have plain := plain_of_hexDigit signedChar (areDigits d member)
        exact ⟨plain.2.2, not_coded_of_plain plain.1⟩
  · intro part suffix nonempty pendingSuffix c coded
    rcases List.suffix_cons_iff.mp suffix with rfl | short
    · -- The whole code of an escaped character: it comes out, and is not pending.
      intro starts
      obtain ⟨-, others, codeEnds⟩ := starts_of_code starts
      have whole : digits ++ rest = (code c).tail.tail ++ others := (List.cons.inj codeEnds).2
      have plain : PlainText signedChar (code c).tail.tail := fun d member =>
        plainText_code signedChar c d (mem_of_mem_tail member)
      rw [whole, flatMap_append, flatMap_plainText _ plain, append_assoc,
        rawString_plainText _ _ plain] at later
      obtain ⟨final, -, rfl⟩ := map_eq_some_iff.mp later
      have value : (hexCode 4 0 ((code c).tail.tail ++ final)).1 = c :=
        congrArg Prod.fst (hexCode_code c final)
      rw [value] at split
      cases pending with
      | nil =>
        obtain ⟨-, rfl⟩ := List.cons.inj split
        have long := pendingSuffix.length_le
        simp only [length_cons] at long
        omega
      | cons d pending =>
        obtain ⟨rfl, -⟩ := List.cons.inj split
        cases (before.not_coded d mem_cons_self).symm.trans coded
    · rcases List.suffix_cons_iff.mp short with rfl | inDigits
      · exact not_code_of_ne (by decide)
      · cases part with
        | nil => exact absurd rfl nonempty
        | cons d others =>
          have member : d ∈ digits := inDigits.subset mem_cons_self
          exact not_code_of_ne
            (plain_of_hexDigit signedChar (areDigits d member)).2.1

theorem not_continues (signedChar : Bool) (after : Text) (todo pending : Text) :
    ¬ Continues signedChar after pending todo := by
  induction size : todo.length using Nat.strong_induction_on generalizing todo pending with
  | h length ih =>
    subst size
    intro continues
    match todo, continues with
    | [], ⟨before, raw, string, decoded⟩ =>
      obtain rfl := Option.some.inj ((rawString_quotes after).symm.trans string)
      have none : [] = pending ++ [] := Option.some.inj decoded
      rcases before.behind with nonempty | head
      · exact nonempty (append_eq_nil_iff.mp none.symm).1
      · cases head
    | [c], continues =>
      by_cases isBackslash : c = backslash
      · subst isBackslash
        exact continues.last
      · obtain ⟨left, goes⟩ := continues.single isBackslash
        exact ih 0 Nat.one_pos [] left rfl goes
    | c :: d :: rest, continues =>
      by_cases isBackslash : c = backslash
      · subst isBackslash
        have shorter : rest.length < (backslash :: d :: rest).length :=
          Nat.lt_add_of_pos_right Nat.two_pos
        by_cases again : d = backslash
        · subst again
          obtain ⟨left, goes⟩ := continues.backslashes
          exact ih _ shorter rest left rfl goes
        · by_cases isCode : d = char 'u'
          · subst isCode
            obtain ⟨left, others, short, goes⟩ := continues.code
            exact ih _ (short.trans_lt shorter) others left rfl goes
          · cases escaped : mustEscape signedChar d with
            | true =>
              obtain ⟨left, goes⟩ := continues.escaped escaped
              exact ih _ shorter rest left rfl goes
            | false =>
              obtain ⟨left, goes⟩ := continues.pair escaped again isCode
              exact ih _ shorter rest left rfl goes
      · obtain ⟨left, goes⟩ := continues.single isBackslash
        exact ih _ (Nat.lt_succ_self _) (d :: rest) left rfl goes

/-- A string that begins after its opening quotes, and is not the tag when it is read. -/
def Unread (tag text : Text) : Prop := ∀ raw, rawString text = some raw → decode raw ≠ some tag

theorem unread_of_backslash (tag rest : Text) (member : backslash ∈ tag) :
    Unread tag (insertEscapedContent signedChar tag ++ quotes :: rest) := by
  rw [insertEscapedContent_eq]
  induction tag with
  | nil => cases member
  | cons c others ih =>
    intro raw string decoded
    by_cases isBackslash : c = backslash
    · subst isBackslash
      apply not_continues signedChar rest (backslash :: others) []
      refine ⟨⟨Or.inr rfl, nofun, nofun, ?_⟩, raw, string, decoded⟩
      intro part suffix nonempty
      exact absurd (List.suffix_nil.mp suffix) nonempty
    · rw [flatMap_cons, append_assoc, rawString_written isBackslash] at string
      obtain ⟨remaining, later, rfl⟩ := map_eq_some_iff.mp string
      rw [decode_written isBackslash] at decoded
      obtain ⟨characters, comes, same⟩ := map_eq_some_iff.mp decoded
      obtain ⟨-, rfl⟩ := List.cons.inj same
      exact ih ((mem_cons.mp member).resolve_left fun same => isBackslash same.symm)
        remaining later comes

theorem closingQuotes_take (escape : Bool) (text : Text) (count length : Nat)
    (closed : closingQuotes escape (text.take count) = some length) :
    closingQuotes escape text = some length ∧ length ≤ count := by
  induction text generalizing escape count length with
  | nil =>
    rw [take_nil] at closed
    cases closed
  | cons c rest ih =>
    cases count with
    | zero => cases closed
    | succ count =>
      rw [take_succ_cons, closingQuotes] at closed
      rw [closingQuotes]
      split at closed
      next inside =>
        rw [if_pos inside]
        obtain ⟨before, later, rfl⟩ := map_eq_some_iff.mp closed
        obtain ⟨whole, short⟩ := ih _ count before later
        rw [whole]
        exact ⟨rfl, Nat.succ_le_succ short⟩
      next outside =>
        rw [if_neg outside]
        obtain rfl := Option.some.inj closed
        exact ⟨rfl, Nat.zero_le _⟩

theorem Unread.take {tag text : Text} (unread : Unread tag text) (count : Nat) :
    Unread tag (text.take count) := by
  intro raw string
  obtain ⟨length, closed, rfl⟩ := map_eq_some_iff.mp string
  obtain ⟨whole, short⟩ := closingQuotes_take false text count length closed
  apply unread
  rw [rawString, whole, take_take, min_eq_left short]
  rfl

end Json
