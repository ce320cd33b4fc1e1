import EmbeddedInfra.Json.Escaping
import Mathlib.Data.List.TakeWhile

/-! What a token is copied as, and how long it is, compared with the text that it was read from. -/

namespace Json

open JsonTokenizer List

/-- The loop over the trailing zeros of a fraction, from a width of one more digit. -/
def trimmedFraction : Nat → Nat → Nat × Nat
  | 0, fractional => (1, fractional)
  | more + 1, fractional =>
    if fractional % 10 = 0 then trimmedFraction more (fractional / 10) else (more + 2, fractional)

def padded (width fractional : Nat) : Text :=
  let digits := outputDigits 10 (BitVec.ofNat 64 fractional)
  List.replicate (width - digits.length) (char '0') ++ digits

/-- What `CopyToken` writes; it aborts on `End` and `Error`. -/
def Token.text : Token → Text
  | .finished | .error => []
  | .colon => [Json.colon]
  | .comma => [Json.comma]
  | .dot => [Json.dot]
  | .null => [char 'n', char 'u', char 'l', char 'l']
  | .leftBrace _ => [Json.leftBrace]
  | .rightBrace _ => [Json.rightBrace]
  | .leftBracket _ => [Json.leftBracket]
  | .rightBracket _ => [Json.rightBracket]
  | .string value => quotes :: value ++ [quotes]
  | .biggerInt value negative => outputAsDecimal value negative
  | .float intValue nanoFractionalValue negative =>
    let (width, fractional) := trimmedFraction (nanoValueWidth - 1) nanoFractionalValue.toNat
    outputAsDecimal intValue negative ++ Json.dot :: padded width fractional
  | .boolean true => [char 't', char 'r', char 'u', char 'e']
  | .boolean false => [char 'f', char 'a', char 'l', char 's', char 'e']

namespace JsonTokenizer

variable (tokenizer : JsonTokenizer)

theorem advance_advance (m n : Nat) :
    (tokenizer.advance m).advance n = tokenizer.advance (m + n) := by
  simp only [advance, Nat.add_assoc, drop_drop]

theorem length_advance (count : Nat) :
    (tokenizer.advance count).rest.length = tokenizer.rest.length - count := length_drop

/-- The length of the sign of a number. -/
def signLength : Nat := if decide (tokenizer.rest.head? = some minus) = true then 1 else 0

def integerDigits : Text := (tokenizer.advance tokenizer.signLength).rest.takeWhile isDigit

def fractionDigits : Text :=
  (tokenizer.advance (tokenizer.signLength + tokenizer.integerDigits.length + 1)).rest.takeWhile isDigit

/-- The digits that a number is without, and that are copied as a zero each. -/
def missingDigits : Token → Nat
  | .biggerInt _ _ => if tokenizer.integerDigits = [] then 1 else 0
  | .float _ _ _ =>
    (if tokenizer.integerDigits = [] then 1 else 0) + if tokenizer.fractionDigits = [] then 1 else 0
  | _ => 0

/-- The digits that a number is copied without. -/
def leftOutDigits : Token → Nat
  | .biggerInt value _ => tokenizer.integerDigits.length - (outputDigits 10 value).length
  | .float intValue nanoFractionalValue _ =>
    tokenizer.integerDigits.length - (outputDigits 10 intValue).length +
      (tokenizer.fractionDigits.length -
        (trimmedFraction (nanoValueWidth - 1) nanoFractionalValue.toNat).1)
  | _ => 0

end JsonTokenizer

/-! ### Digits -/

theorem firstMask_spec (radix : Nat) (two : 2 ≤ radix) (v bits first : Nat)
    (small : v < radix ^ (first + bits)) :
    ∃ last, firstMask radix bits v (radix ^ first) = radix ^ last ∧ v < radix ^ (last + 1) ∧
      last ≤ first + bits ∧ (last = first ∨ radix ^ last ≤ v) := by
  have positive : 0 < radix := by omega
  induction bits generalizing first with
  | zero =>
    refine ⟨first, rfl, ?_, le_rfl, .inl rfl⟩
    exact small.trans_le (Nat.pow_le_pow_right positive (Nat.le_succ first))
  | succ bits ih =>
    rw [firstMask]
    split
    next more =>
      rw [← Nat.pow_succ]
      obtain ⟨last, same, bound, le, reached⟩ := ih (first + 1) (by rwa [Nat.add_right_comm])
      refine ⟨last, same, bound, by omega, .inr (reached.elim (fun equal => ?_) id)⟩
      rw [equal, Nat.pow_succ, Nat.mul_comm]
      exact (Nat.le_div_iff_mul_le (Nat.pow_pos positive)).mp more
    next enough =>
      refine ⟨first, rfl, ?_, Nat.le_add_right _ _, .inl rfl⟩
      rw [Nat.pow_succ, Nat.mul_comm]
      exact (Nat.div_lt_iff_lt_mul (Nat.pow_pos positive)).mp (Nat.not_le.mp enough)

theorem digitsFrom_spec (radix : Nat) (two : 2 ≤ radix) (bits v weight : Nat)
    (enough : weight < bits) :
    ∃ digits : List Nat, digitsFrom radix bits v (radix ^ weight) = digits.map hexChar ∧
      digits.length = weight + 1 ∧ (∀ digit ∈ digits, digit < radix) ∧
      digits.foldl (fun value digit => value * radix + digit) (v / radix ^ (weight + 1)) = v := by
  induction bits generalizing weight with
  | zero => cases Nat.not_lt_zero _ enough
  | succ bits ih =>
    have positive : 0 < radix := by omega
    have digit := Nat.mod_lt (v / radix ^ weight) positive
    have step : v / radix ^ (weight + 1) * radix + v / radix ^ weight % radix =
        v / radix ^ weight := by
      rw [Nat.pow_succ, ← Nat.div_div_eq_div_mul, Nat.mul_comm]
      exact Nat.div_add_mod _ _
    rw [digitsFrom, if_pos (Nat.pow_pos positive).ne']
    cases weight with
    | zero =>
      have ends : digitsFrom radix bits v (radix ^ 0 / radix) = [] := by
        rw [Nat.pow_zero, Nat.div_eq_of_lt two]
        cases bits <;> rfl
      rw [Nat.pow_zero, Nat.div_one] at digit step
      rw [ends]
      refine ⟨[v % radix], by rw [Nat.pow_zero, Nat.div_one]; rfl, rfl, ?_, step⟩
      exact fun other member => mem_singleton.mp member ▸ digit
    | succ weight =>
      obtain ⟨digits, same, length, small, value⟩ := ih weight (by omega)
      rw [Nat.pow_succ radix weight, Nat.mul_div_cancel _ positive, same]
      refine ⟨_ :: digits, rfl, congrArg Nat.succ length, ?_, ?_⟩
      · exact forall_mem_cons.mpr ⟨Nat.mod_lt _ positive, small⟩
      · rw [foldl_cons, ← Nat.pow_succ, step]
        exact value

theorem outputDigits_digits (radix : Nat) (two : 2 ≤ radix) (v : BitVec 64) :
    ∃ digits : List Nat, outputDigits radix v = digits.map hexChar ∧ digits ≠ [] ∧
      (∀ digit ∈ digits, digit < radix) ∧
      digits.foldl (fun value digit => value * radix + digit) 0 = v.toNat ∧
      ∀ more, v.toNat < radix ^ (more + 1) → digits.length ≤ more + 1 := by
  obtain ⟨last, mask, bound, small, reached⟩ := firstMask_spec radix two v.toNat 64 0
    (v.isLt.trans_le (Nat.pow_le_pow_left two 64))
  obtain ⟨digits, same, length, below, value⟩ := digitsFrom_spec radix two 65 v.toNat last (by omega)
  rw [Nat.div_eq_of_lt bound] at value
  rw [Nat.pow_zero] at mask
  have nonempty : digits ≠ [] := ne_nil_of_length_eq_add_one length
  refine ⟨digits, by rw [outputDigits, mask, same], nonempty, below, value, fun more less => ?_⟩
  obtain rfl | enough := reached
  · omega
  · have := (Nat.pow_lt_pow_iff_right two).mp (enough.trans_lt less)
    omega

def magnitude (digits : Text) : Nat :=
  digits.foldl (fun value c => value * 10 + (c.toNat - 48)) 0

theorem magnitude_lt {digits : Text} (all : ∀ c ∈ digits, isDigit c = true) :
    magnitude digits < 10 ^ digits.length := by
  induction digits using List.reverseRecOn with
  | nil => decide
  | append_singleton digits c ih =>
    have digit : c.toNat ≤ 57 := UInt8.le_iff_toNat_le.mp
      (of_decide_eq_true (Bool.and_eq_true_iff.mp (all c (by simp))).2)
    have front := ih fun d member => all d (mem_append_left _ member)
    rw [magnitude, foldl_concat, ← magnitude, length_append, length_singleton, Nat.pow_succ]
    omega

theorem toInt_eq_magnitude {width : Nat} {digits : Text} (all : ∀ c ∈ digits, isDigit c = true) :
    toInt width digits = BitVec.ofNat width (magnitude digits) := by
  have any : ∀ start, digits.foldl
      (fun value c => value * 10 + BitVec.ofNat width c.toNat - 48) (BitVec.ofNat width start) =
        BitVec.ofNat width (digits.foldl (fun value c => value * 10 + (c.toNat - 48)) start) := by
    induction digits with
    | nil => exact fun _ => rfl
    | cons c rest ih =>
      intro start
      have digit : 48 ≤ c.toNat := UInt8.le_iff_toNat_le.mp
        (of_decide_eq_true (Bool.and_eq_true_iff.mp (all c mem_cons_self)).1)
      have step : BitVec.ofNat width start * 10 + BitVec.ofNat width c.toNat - 48 =
          BitVec.ofNat width (start * 10 + (c.toNat - 48)) := by
        obtain ⟨digit, same⟩ := Nat.exists_eq_add_of_le digit
        rw [same, Nat.add_sub_cancel_left, BitVec.ofNat_add, BitVec.ofNat_add, BitVec.ofNat_mul,
          BitVec.add_comm (BitVec.ofNat width 48), ← BitVec.add_assoc]
        exact BitVec.add_sub_cancel _ _
      rw [foldl_cons, foldl_cons, step]
      exact ih (fun c member => all c (mem_cons_of_mem _ member)) _
  exact any 0

theorem outputDigits_toInt {digits : Text} (all : ∀ c ∈ digits, isDigit c = true) :
    (outputDigits 10 (toInt 64 digits)).length + (digits.length -
      (outputDigits 10 (toInt 64 digits)).length) =
        digits.length + if digits = [] then 1 else 0 := by
  cases digits with
  | nil => rfl
  | cons c digits =>
    obtain ⟨printed, same, -, -, -, least⟩ := outputDigits_digits 10 (by omega) (toInt 64 (c :: digits))
    have short := least digits.length (by
      rw [toInt_eq_magnitude all, BitVec.toNat_ofNat]
      exact (Nat.mod_le _ _).trans_lt (magnitude_lt all))
    rw [same, length_map, if_neg (cons_ne_nil _ _), length_cons]
    omega

theorem trimmedFraction_spec (more fractional length : Nat) (small : fractional < 10 ^ (more + 1))
    (zeros : 10 ^ (more + 1 - length) ∣ fractional) (within : length ≤ more + 1) :
    0 < (trimmedFraction more fractional).1 ∧ (trimmedFraction more fractional).1 ≤ max 1 length ∧
      (trimmedFraction more fractional).2 < 10 ^ (trimmedFraction more fractional).1 := by
  induction more generalizing fractional length with
  | zero => exact ⟨Nat.one_pos, le_max_left _ _, small⟩
  | succ more ih =>
    rw [trimmedFraction]
    split
    next zero =>
      obtain ⟨rest, rfl⟩ := Nat.dvd_of_mod_eq_zero zero
      rw [Nat.mul_div_cancel_left _ (by decide)]
      have below : rest < 10 ^ (more + 1) := by
        rw [Nat.pow_succ'] at small
        exact Nat.lt_of_mul_lt_mul_left small
      have divides : 10 ^ (more + 1 - min length (more + 1)) ∣ rest := by
        by_cases whole : length ≤ more + 1
        · rw [Nat.succ_sub whole, Nat.pow_succ'] at zeros
          rw [Nat.min_eq_left whole]
          exact Nat.dvd_of_mul_dvd_mul_left (by decide) zeros
        · rw [Nat.min_eq_right (by omega), Nat.sub_self]
          exact one_dvd _
      obtain ⟨positive, le, less⟩ := ih rest _ below divides (Nat.min_le_right _ _)
      exact ⟨positive, le.trans (max_le_max le_rfl (Nat.min_le_left _ _)), less⟩
    next digit =>
      refine ⟨Nat.succ_pos _, le_max_of_le_right ?_, small⟩
      by_contra short
      rw [show more + 1 + 1 - length = more + 1 - length + 1 by omega, Nat.pow_succ'] at zeros
      exact digit (Nat.mod_eq_zero_of_dvd (dvd_of_mul_right_dvd zeros))

theorem length_padded {width fractional : Nat} (positive : 0 < width)
    (small : fractional < 10 ^ width) : (padded width fractional).length = width := by
  obtain ⟨more, rfl⟩ := Nat.exists_eq_add_one_of_ne_zero positive.ne'
  obtain ⟨printed, same, -, -, -, least⟩ :=
    outputDigits_digits 10 (by omega) (BitVec.ofNat 64 fractional)
  have short := least more (by
    rw [BitVec.toNat_ofNat]
    exact (Nat.mod_le _ _).trans_lt small)
  rw [padded, same, length_append, length_replicate, length_map]
  omega

/-- The fraction that is read from digits. -/
def nanoFraction (digits : Text) : BitVec 32 :=
  toInt 32 (digits.take nanoValueWidth) * 10 ^ (nanoValueWidth - (digits.take nanoValueWidth).length)

theorem length_fraction {digits : Text} (all : ∀ c ∈ digits, isDigit c = true) :
    (padded (trimmedFraction (nanoValueWidth - 1) (nanoFraction digits).toNat).1
        (trimmedFraction (nanoValueWidth - 1) (nanoFraction digits).toNat).2).length +
      (digits.length - (trimmedFraction (nanoValueWidth - 1) (nanoFraction digits).toNat).1) =
        digits.length + if digits = [] then 1 else 0 := by
  have digitsOf : ∀ c ∈ digits.take nanoValueWidth, isDigit c = true :=
    fun c member => all c (mem_of_mem_take member)
  generalize printed : digits.take nanoValueWidth = front at digitsOf
  have short : front.length ≤ 9 := printed ▸ length_take_le ..
  have less : magnitude front * 10 ^ (9 - front.length) < 10 ^ 9 := by
    calc
      _ < 10 ^ front.length * 10 ^ (9 - front.length) :=
        Nat.mul_lt_mul_of_pos_right (magnitude_lt digitsOf) (Nat.pow_pos (by decide))
      _ = 10 ^ 9 := by rw [← Nat.pow_add, Nat.add_sub_cancel' short]
  have value : (nanoFraction digits).toNat = magnitude front * 10 ^ (9 - front.length) := by
    have power : ∀ k < 10, (10 : BitVec 32) ^ k = BitVec.ofNat 32 (10 ^ k) := by decide
    rw [nanoFraction, printed, toInt_eq_magnitude digitsOf, nanoValueWidth, power _ (by omega),
      ← BitVec.ofNat_mul, BitVec.toNat_ofNat, Nat.mod_eq_of_lt (less.trans (by decide))]
  rw [value]
  change (padded (trimmedFraction 8 _).1 (trimmedFraction 8 _).2).length +
    (_ - (trimmedFraction 8 _).1) = _
  obtain ⟨positive, le, small⟩ := trimmedFraction_spec 8 _ front.length less (dvd_mul_left _ _) short
  rw [length_padded positive small]
  cases digits with
  | nil =>
    obtain rfl : front = [] := printed.symm
    rw [if_pos rfl, length_nil, Nat.zero_sub]
    exact le_antisymm le positive
  | cons c digits =>
    have within : front.length ≤ digits.length + 1 := printed ▸ length_take_le' ..
    have some : 0 < front.length := printed ▸ Nat.succ_pos _
    rw [if_neg (cons_ne_nil _ _), length_cons]
    rw [max_eq_right some] at le
    omega

namespace JsonTokenizer

/-- A token takes some of the text, and is copied with some digits less and some digits more. -/
structure Accounted (tokenizer : JsonTokenizer) (result : Token × JsonTokenizer) : Prop where
  advances : ∃ count, result.2 = tokenizer.advance count ∧
    (¬ (result.1 = .finished ∨ result.1 = .error) →
      0 < count ∧ count ≤ tokenizer.rest.length ∧
      result.1.text.length + tokenizer.leftOutDigits result.1 =
        count + tokenizer.missingDigits result.1 ∧
      ∀ value, result.1 = .string value →
        ∃ after, tokenizer.rest = quotes :: (value ++ quotes :: after) ∧ count = value.length + 2)
  index : ∀ pairing index, Pairing.closes pairing result.1 = some index →
    index = tokenizer.parseIndex

variable {tokenizer : JsonTokenizer} {token : Token} {count : Nat}

theorem Accounted.of_error (count : Nat) : Accounted tokenizer (.error, tokenizer.advance count) where
  advances := ⟨count, rfl, fun notEnded => absurd (.inr rfl) notEnded⟩
  index := by rintro (_ | _) _ ⟨⟩

theorem Accounted.of_mark (positive : 0 < count) (within : count ≤ tokenizer.rest.length)
    (whole : token.text.length = count) (plain : tokenizer.leftOutDigits token = 0)
    (complete : tokenizer.missingDigits token = 0) (other : ∀ value, token ≠ .string value)
    (index : ∀ pairing index, Pairing.closes pairing token = some index →
      index = tokenizer.parseIndex) : Accounted tokenizer (token, tokenizer.advance count) where
  advances := ⟨count, rfl, fun _ =>
    ⟨positive, within, by rw [plain, complete, whole], fun value same => absurd same (other value)⟩⟩
  index := index

theorem drop_of_closed (escape : Bool) (text : Text) (length : Nat)
    (closed : closingQuotes escape text = some length) :
    text.drop length = quotes :: text.drop (length + 1) := by
  induction text generalizing escape length with
  | nil => cases closed
  | cons c rest ih =>
    rw [closingQuotes] at closed
    split at closed
    next =>
      obtain ⟨before, later, rfl⟩ := Option.map_eq_some_iff.mp closed
      exact ih _ before later
    next ends =>
      obtain rfl := Option.some.inj closed
      obtain ⟨-, same⟩ := not_or.mp ends
      rw [drop_zero, not_not.mp same]
      rfl

theorem length_of_closed (escape : Bool) (text : Text) (length : Nat)
    (closed : closingQuotes escape text = some length) : length < text.length := by
  by_contra outside
  have ends := drop_of_closed escape text length closed
  rw [drop_of_length_le (Nat.le_of_not_lt outside)] at ends
  cases ends

theorem accounted_string {rest : Text} (head : tokenizer.rest = quotes :: rest) :
    Accounted tokenizer tokenizer.tryCreateStringToken := by
  have next : (tokenizer.advance 1).rest = rest := by rw [advance, head]; rfl
  rw [tryCreateStringToken]
  simp only [next, advance_advance]
  split
  next length closed =>
    have short := length_of_closed false rest length closed
    have size : (rest.take length).length = length := by rw [length_take, Nat.min_eq_left short.le]
    refine ⟨⟨_, rfl, fun _ => ⟨by omega, ?_, ?_, ?_⟩⟩, by rintro (_ | _) _ ⟨⟩⟩
    · rw [head, length_cons]
      omega
    · change (quotes :: rest.take length ++ [quotes]).length + 0 = _ + 0
      rw [length_append, length_cons, size, Nat.add_comm 1]
      rfl
    · rintro _ ⟨⟩
      refine ⟨rest.drop (length + 1), ?_, by rw [size, Nat.add_comm 1]⟩
      rw [head, ← drop_of_closed false rest length closed, take_append_drop]
  next => exact .of_error _

theorem accounted_identifier {c : UInt8} {rest : Text} (head : tokenizer.rest = c :: rest)
    (starts : isAlpha c = true) : Accounted tokenizer tokenizer.tryCreateIdentifierToken := by
  have positive : 0 < (tokenizer.rest.takeWhile isAlpha).length := by
    rw [head, takeWhile_cons_of_pos starts]
    exact Nat.succ_pos _
  have within := (takeWhile_sublist isAlpha (l := tokenizer.rest)).length_le
  unfold tryCreateIdentifierToken
  dsimp only
  split
  next same =>
    exact .of_mark positive within (congrArg length same).symm rfl rfl nofun (by rintro (_ | _) _ ⟨⟩)
  next =>
    split
    next same =>
      exact .of_mark positive within (congrArg length same).symm rfl rfl nofun
        (by rintro (_ | _) _ ⟨⟩)
    next =>
      split
      next same =>
        exact .of_mark positive within (congrArg length same).symm rfl rfl nofun
          (by rintro (_ | _) _ ⟨⟩)
      next => exact .of_error _

theorem length_number (v : BitVec 64) :
    (outputAsDecimal v (decide (tokenizer.rest.head? = some minus))).length =
      tokenizer.signLength + (outputDigits 10 v).length := by
  rw [outputAsDecimal, length_append, signLength]
  split <;> rfl

theorem integer_le : tokenizer.signLength + tokenizer.integerDigits.length ≤ tokenizer.rest.length := by
  have digits := (takeWhile_sublist isDigit (l := (tokenizer.advance tokenizer.signLength).rest)).length_le
  have sign : tokenizer.signLength ≤ tokenizer.rest.length := by
    rw [signLength]
    split
    next signed => exact length_pos_of_ne_nil fun none => by simp [none] at signed
    next => exact Nat.zero_le _
  rw [length_advance] at digits
  rw [integerDigits]
  omega

theorem integer_pos {c : UInt8} {rest : Text} (head : tokenizer.rest = c :: rest)
    (starts : isDigit c = true ∨ c = minus) :
    0 < tokenizer.signLength + tokenizer.integerDigits.length := by
  by_cases isMinus : c = minus
  · have signed : tokenizer.signLength = 1 := by
      rw [signLength, head, isMinus]
      rfl
    omega
  · have unsigned : tokenizer.signLength = 0 := by
      rw [signLength, head]
      exact if_neg fun same => isMinus (Option.some.inj (of_decide_eq_true same))
    rw [unsigned, integerDigits, unsigned]
    change 0 < 0 + (tokenizer.rest.takeWhile isDigit).length
    rw [head, takeWhile_cons_of_pos (starts.resolve_right isMinus), length_cons]
    omega

theorem text_float (integer : BitVec 64) (fraction : BitVec 32) (negative : Bool) :
    (Token.float integer fraction negative).text = outputAsDecimal integer negative ++ dot ::
      padded (trimmedFraction (nanoValueWidth - 1) fraction.toNat).1
        (trimmedFraction (nanoValueWidth - 1) fraction.toNat).2 := rfl

theorem accounted_number {c : UInt8} {rest : Text} (head : tokenizer.rest = c :: rest)
    (starts : isDigit c = true ∨ c = minus) :
    Accounted tokenizer tokenizer.tryCreateIntegerOrFloatToken := by
  have positive := integer_pos head starts
  have integer := @outputDigits_toInt tokenizer.integerDigits
    fun c member => mem_takeWhile_imp member
  have within := @integer_le tokenizer
  have size := @length_number tokenizer (toInt 64 tokenizer.integerDigits)
  unfold tryCreateIntegerOrFloatToken
  simp only [advance_advance]
  change Accounted tokenizer (if (tokenizer.advance
    (tokenizer.signLength + tokenizer.integerDigits.length)).rest.head? = some dot then _ else _)
  split
  next point =>
    change Accounted tokenizer (tryCreateFloatToken (tokenizer.advance
      (tokenizer.signLength + tokenizer.integerDigits.length + 1))
      (toInt 64 tokenizer.integerDigits) (decide (tokenizer.rest.head? = some minus)))
    rw [tryCreateFloatToken]
    split
    next => exact .of_error _
    next =>
      have fraction := @length_fraction tokenizer.fractionDigits
        fun c member => mem_takeWhile_imp member
      have behind : 0 < (tokenizer.advance
          (tokenizer.signLength + tokenizer.integerDigits.length)).rest.length :=
        length_pos_of_ne_nil fun none => by simp [none] at point
      have digits := (takeWhile_sublist isDigit (l := (tokenizer.advance
        (tokenizer.signLength + tokenizer.integerDigits.length + 1)).rest)).length_le
      rw [length_advance] at behind digits
      change Accounted tokenizer (.float (toInt 64 tokenizer.integerDigits)
        (nanoFraction tokenizer.fractionDigits) (decide (tokenizer.rest.head? = some minus)), _)
      rw [advance_advance]
      refine ⟨⟨_, rfl, fun _ => ⟨Nat.add_pos_left (Nat.succ_pos _) _,
        Nat.add_le_of_le_sub' (by omega) digits, ?_, nofun⟩⟩, by rintro (_ | _) _ ⟨⟩⟩
      change _ = _ + tokenizer.fractionDigits.length + _
      simp only [text_float, leftOutDigits, missingDigits, length_append, length_cons, size]
      omega
  next =>
    change Accounted tokenizer (.biggerInt (toInt 64 tokenizer.integerDigits)
      (decide (tokenizer.rest.head? = some minus)), _)
    refine ⟨⟨_, rfl, fun _ => ⟨positive, within, ?_, nofun⟩⟩, by rintro (_ | _) _ ⟨⟩⟩
    change _ = tokenizer.signLength + tokenizer.integerDigits.length + _
    simp only [Token.text, leftOutDigits, missingDigits, size]
    omega

theorem accounted_token (tokenizer : JsonTokenizer) :
    Accounted tokenizer.skipWhitespace tokenizer.token := by
  rw [JsonTokenizer.token]
  generalize tokenizer.skipWhitespace = skipped
  cases head : skipped.rest with
  | nil => exact ⟨⟨0, rfl, fun notEnded => absurd (.inl rfl) notEnded⟩, by rintro (_ | _) _ ⟨⟩⟩
  | cons c rest =>
    have mark {token : Token} (one : token.text.length = 1) (plain : skipped.leftOutDigits token = 0)
        (complete : skipped.missingDigits token = 0) (other : ∀ value, token ≠ .string value)
        (index : ∀ pairing index, Pairing.closes pairing token = some index →
          index = skipped.parseIndex) : Accounted skipped (token, skipped.advance 1) :=
      .of_mark Nat.one_pos (by rw [head]; exact Nat.succ_pos _) one plain complete other index
    dsimp only
    split
    next same => exact accounted_string (same ▸ head)
    split
    next => exact mark rfl rfl rfl nofun (by rintro (_ | _) _ ⟨⟩)
    split
    next => exact mark rfl rfl rfl nofun (by rintro (_ | _) _ ⟨⟩)
    split
    next => exact mark rfl rfl rfl nofun (by rintro (_ | _) _ ⟨⟩)
    split
    next => exact mark rfl rfl rfl nofun (by rintro (_ | _) _ ⟨⟩)
    split
    next => exact mark rfl rfl rfl nofun (by rintro (_ | _) _ ⟨⟩; rfl)
    split
    next => exact mark rfl rfl rfl nofun (by rintro (_ | _) _ ⟨⟩)
    split
    next => exact mark rfl rfl rfl nofun (by rintro (_ | _) _ ⟨⟩; rfl)
    split
    next starts => exact accounted_number head starts
    split
    next letters => exact accounted_identifier head letters
    next => exact .of_error 0

end JsonTokenizer

end Json
