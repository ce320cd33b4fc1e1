import Mathlib.Tactic.IntervalCases

/-! Base64 is written and read a few bits at a time. -/

namespace Base64

open List

def base64Table : List Char :=
  "ABCDEFGHIJKLMNOPQRSTUVWXYZabcdefghijklmnopqrstuvwxyz0123456789+/".toList

def symbol (value : BitVec 8) : Char := base64Table.getD value.toNat '='

def decodeBase64Byte (base64 : Char) : Nat := base64Table.idxOf base64

/-- What was written to the stream, and the bits that are not written yet. -/
structure Encoder where
  text : List Char := []
  bitIndex : Nat := 2
  encodedByte : BitVec 8 := 0
  size : Nat := 0

namespace Encoder

variable (encoder : Encoder)

def put (c : Char) : Encoder :=
  { encoder with text := encoder.text ++ [c], size := (encoder.size + 1) % 2 ^ 32 }

/-- The body of the loop in `Encode`. -/
def encodeByte (byte : BitVec 8) : Encoder :=
  let encoder := encoder.put (symbol (encoder.encodedByte ||| byte >>> encoder.bitIndex))
  let encoder :=
    { encoder with
      encodedByte := (byte <<< (8 - encoder.bitIndex)) >>> 2
      bitIndex := encoder.bitIndex + 2 }
  if encoder.bitIndex = 8 then
    { encoder.put (symbol encoder.encodedByte) with encodedByte := 0, bitIndex := 2 }
  else encoder

def encode (data : List (BitVec 8)) : Encoder := data.foldl encodeByte encoder

/-- `~Base64Encoder` -/
def finish : List Char :=
  let encoder := if encoder.size &&& 3 ≠ 0 then encoder.put (symbol encoder.encodedByte) else encoder
  let encoder := if encoder.size &&& 3 ≠ 0 then encoder.put '=' else encoder
  let encoder := if encoder.size &&& 3 ≠ 0 then encoder.put '=' else encoder
  encoder.text

end Encoder

variable (data : List (BitVec 8)) (decodedWord : BitVec 16)

def asBase64 : List Char := (Encoder.encode {} data).finish

def asCombinedBase64 (ranges : List (List (BitVec 8))) : List Char :=
  (ranges.foldl Encoder.encode {}).finish

/-- How far the first loop comes: what it wrote, how many bytes are missing, and what it leaves of the
text; not `valid` where it returns at a character that is not a symbol. -/
structure Decoded where
  written : List (BitVec 8)
  remaining : Nat
  bitIndex : Nat
  text : List Char
  valid : Bool

def decodeLoop : Nat → Nat → BitVec 16 → List Char → Decoded
  | remaining, bitIndex, _, [] => ⟨[], remaining, bitIndex, [], true⟩
  | remaining, bitIndex, decodedWord, currentChar :: text =>
    if remaining = 0 then ⟨[], remaining, bitIndex, currentChar :: text, true⟩
    else
      let decodedValue := decodeBase64Byte currentChar
      if 64 ≤ decodedValue then ⟨[], remaining, bitIndex, text, false⟩
      else
        let decodedWord := (decodedWord <<< 6) ||| BitVec.ofNat 16 decodedValue
        let bitIndex := bitIndex + 6
        if 8 ≤ bitIndex then
          let later := decodeLoop (remaining - 1) (bitIndex - 8) decodedWord text
          { later with written := (decodedWord >>> (bitIndex - 8)).setWidth 8 :: later.written }
        else decodeLoop remaining bitIndex decodedWord text

/-- The second loop: whether only padding was read, and what is left of the text. -/
def paddingLoop : Nat → List Char → Bool × List Char
  | _, [] => (true, [])
  | bitIndex, currentChar :: text =>
    if bitIndex = 0 then (true, currentChar :: text)
    else
      let (padded, rest) := paddingLoop (bitIndex - 2) text
      (currentChar == '=' && padded, rest)

/-- What is read into a range of some size, what is left of the text, and whether no failure was
reported. -/
def fromBase64 (size : Nat) (text : List Char) : List (BitVec 8) × List Char × Bool :=
  let decoded := decodeLoop size 0 0 text
  if decoded.valid then
    let (padded, rest) := paddingLoop decoded.bitIndex decoded.text
    (decoded.written, rest, padded && decoded.remaining == 0)
  else (decoded.written, decoded.text, false)

def base64DecodedSize (encodedContents : List Char) : Nat :=
  if encodedContents.length < 4 then 0
  else encodedContents.length / 4 * 3 - (encodedContents.reverse.takeWhile (· == '=')).length

/-- Three bytes are four symbols. -/
def quads : List (BitVec 8) → List Char
  | [] => []
  | [a] => [symbol (a >>> 2), symbol ((a <<< 6) >>> 2), '=', '=']
  | [a, b] => [symbol (a >>> 2), symbol ((a <<< 6) >>> 2 ||| b >>> 4), symbol ((b <<< 4) >>> 2), '=']
  | a :: b :: c :: rest =>
    symbol (a >>> 2) :: symbol ((a <<< 6) >>> 2 ||| b >>> 4) ::
      symbol ((b <<< 4) >>> 2 ||| c >>> 6) :: symbol ((c <<< 2) >>> 2) :: quads rest

theorem encode_append (encoder : Encoder) (front back : List (BitVec 8)) :
    encoder.encode (front ++ back) = (encoder.encode front).encode back :=
  foldl_append

theorem asCombinedBase64_eq (ranges : List (List (BitVec 8))) :
    asCombinedBase64 ranges = asBase64 ranges.flatten := by
  have folded (encoder : Encoder) : ranges.foldl Encoder.encode encoder = encoder.encode ranges.flatten := by
    induction ranges generalizing encoder with
    | nil => rfl
    | cons range rest ih => rw [foldl_cons, ih, flatten_cons, encode_append]
  rw [asCombinedBase64, asBase64, folded]

theorem and_three (n : Nat) : n &&& 3 = n % 4 := Nat.and_two_pow_sub_one_eq_mod n 2

theorem finish_encode (text : List Char) (size : Nat) (aligned : size % 4 = 0)
    (data : List (BitVec 8)) :
    (Encoder.encode ⟨text, 2, 0, size⟩ data).finish = text ++ quads data := by
  induction data using quads.induct generalizing text size with
  | case1 => simp [Encoder.encode, Encoder.finish, and_three, aligned, quads]
  | case2 a =>
    have one : (size + 1) % 4 ≠ 0 := by omega
    have two : (size + 1 + 1) % 4 ≠ 0 := by omega
    have three : (size + 1 + 1 + 1) % 4 ≠ 0 := by omega
    simp [Encoder.encode, Encoder.encodeByte, Encoder.put, Encoder.finish, and_three, one, two, three,
      quads]
  | case3 a b =>
    have two : (size + 1 + 1) % 4 ≠ 0 := by omega
    have three : (size + 1 + 1 + 1) % 4 ≠ 0 := by omega
    have four : (size + 1 + 1 + 1 + 1) % 4 = 0 := by omega
    simp [Encoder.encode, Encoder.encodeByte, Encoder.put, Encoder.finish, and_three, two, three, four,
      quads]
  | case4 a b c rest ih =>
    have four : ((((size + 1) % 2 ^ 32 + 1) % 2 ^ 32 + 1) % 2 ^ 32 + 1) % 2 ^ 32 % 4 = 0 := by omega
    have group : Encoder.encode ⟨text, 2, 0, size⟩ [a, b, c] =
        ⟨text ++ [symbol (a >>> 2), symbol ((a <<< 6) >>> 2 ||| b >>> 4),
          symbol ((b <<< 4) >>> 2 ||| c >>> 6), symbol ((c <<< 2) >>> 2)], 2, 0,
          ((((size + 1) % 2 ^ 32 + 1) % 2 ^ 32 + 1) % 2 ^ 32 + 1) % 2 ^ 32⟩ := by
      simp [Encoder.encode, Encoder.encodeByte, Encoder.put]
    rw [show a :: b :: c :: rest = [a, b, c] ++ rest from rfl, encode_append, group, ih _ _ four,
      append_assoc]
    rfl

theorem asBase64_eq : asBase64 data = quads data :=
  finish_encode [] 0 rfl data

theorem length_quads : (quads data).length = (data.length + 2) / 3 * 4 := by
  induction data using quads.induct with
  | case1 => rfl
  | case2 a | case3 a b => simp [quads]
  | case4 a b c rest ih =>
    simp only [quads, length_cons, ih]
    omega

theorem table_spec : ∀ n < 64, base64Table.idxOf (base64Table.getD n '=') = n ∧
    base64Table.getD n '=' ≠ '=' := by
  decide +kernel

theorem decode_symbol {value : BitVec 8} (small : value.toNat < 64) :
    decodeBase64Byte (symbol value) = value.toNat :=
  (table_spec value.toNat small).1

theorem symbol_ne_padding {value : BitVec 8} (small : value.toNat < 64) : symbol value ≠ '=' :=
  (table_spec value.toNat small).2

theorem small_of_clear {value : BitVec 8} (clear : value >>> 6 = 0) : value.toNat < 64 := by
  have shifted := congrArg BitVec.toNat clear
  rw [BitVec.toNat_ushiftRight, Nat.shiftRight_eq_div_pow] at shifted
  have zero : (0 : BitVec 8).toNat = 0 := rfl
  omega

theorem small_first (a : BitVec 8) : (a >>> 2).toNat < 64 := by
  rw [BitVec.toNat_ushiftRight, Nat.shiftRight_eq_div_pow]
  have := a.isLt
  omega

theorem small_second (a b : BitVec 8) : ((a <<< 6) >>> 2 ||| b >>> 4).toNat < 64 := by
  apply small_of_clear
  apply BitVec.eq_of_getLsbD_eq
  intro i inside
  interval_cases i <;> simp

theorem small_third (b c : BitVec 8) : ((b <<< 4) >>> 2 ||| c >>> 6).toNat < 64 := by
  apply small_of_clear
  apply BitVec.eq_of_getLsbD_eq
  intro i inside
  interval_cases i <;> simp

theorem small_fourth (c : BitVec 8) : ((c <<< 2) >>> 2).toNat < 64 := by
  apply small_of_clear
  apply BitVec.eq_of_getLsbD_eq
  intro i inside
  interval_cases i <;> simp

def shifted (value : BitVec 8) : BitVec 16 :=
  (decodedWord <<< 6) ||| value.setWidth 16

theorem decodeLoop_symbol {remaining : Nat} (missing : remaining ≠ 0) (bitIndex : Nat)
    (decodedWord : BitVec 16) {value : BitVec 8} (small : value.toNat < 64) (text : List Char) :
    decodeLoop remaining bitIndex decodedWord (symbol value :: text) =
      if 8 ≤ bitIndex + 6 then
        let later := decodeLoop (remaining - 1) (bitIndex + 6 - 8) (shifted decodedWord value) text
        { later with written :=
            (shifted decodedWord value >>> (bitIndex + 6 - 8)).setWidth 8 :: later.written }
      else decodeLoop remaining (bitIndex + 6) (shifted decodedWord value) text := by
  have word : BitVec.ofNat 16 value.toNat = value.setWidth 16 := BitVec.ofNat_toNat 16 value
  rw [decodeLoop, if_neg missing]
  simp only [decode_symbol small, Nat.not_le.mpr small, if_false, word, shifted]

theorem first_byte (a b : BitVec 8) :
    (shifted (shifted decodedWord (a >>> 2)) ((a <<< 6) >>> 2 ||| b >>> 4) >>> 4).setWidth 8 = a := by
  apply BitVec.eq_of_getLsbD_eq
  intro i inside
  interval_cases i <;> simp [shifted]

theorem second_byte (a b c : BitVec 8) :
    (shifted (shifted decodedWord ((a <<< 6) >>> 2 ||| b >>> 4)) ((b <<< 4) >>> 2 ||| c >>> 6) >>>
      2).setWidth 8 = b := by
  apply BitVec.eq_of_getLsbD_eq
  intro i inside
  interval_cases i <;> simp [shifted]

theorem third_byte (b c : BitVec 8) :
    (shifted (shifted decodedWord ((b <<< 4) >>> 2 ||| c >>> 6)) ((c <<< 2) >>> 2) >>> 0).setWidth 8 =
      c := by
  apply BitVec.eq_of_getLsbD_eq
  intro i inside
  interval_cases i <;> simp [shifted]

theorem decodeLoop_quads (decodedWord : BitVec 16) :
    ∃ padding, decodeLoop data.length 0 decodedWord (quads data) =
        ⟨data, 0, 2 * padding, List.replicate padding '=', true⟩ ∧
      padding = (data.length + 2) / 3 * 3 - data.length := by
  induction data using quads.induct generalizing decodedWord with
  | case1 => exact ⟨0, rfl, rfl⟩
  | case2 a =>
    refine ⟨2, ?_, by simp⟩
    have second : symbol ((a <<< 6) >>> 2) = symbol ((a <<< 6) >>> 2 ||| 0#8 >>> 4) := by simp
    rw [quads, second, length_singleton, decodeLoop_symbol Nat.one_ne_zero 0 _ (small_first a),
      if_neg (by omega), decodeLoop_symbol Nat.one_ne_zero _ _ (small_second a 0#8), if_pos (by omega),
      first_byte]
    rfl
  | case3 a b =>
    refine ⟨1, ?_, by simp⟩
    have third : symbol ((b <<< 4) >>> 2) = symbol ((b <<< 4) >>> 2 ||| 0#8 >>> 6) := by simp
    rw [quads, third, decodeLoop_symbol (by simp) 0 _ (small_first a), if_neg (by omega),
      decodeLoop_symbol (by simp) _ _ (small_second a b), if_pos (by omega), first_byte,
      decodeLoop_symbol (by simp) _ _ (small_third b 0#8), if_pos (by omega), second_byte]
    rfl
  | case4 a b c rest ih =>
    obtain ⟨padding, loop, count⟩ := ih (shifted (shifted (shifted (shifted decodedWord (a >>> 2))
      ((a <<< 6) >>> 2 ||| b >>> 4)) ((b <<< 4) >>> 2 ||| c >>> 6)) ((c <<< 2) >>> 2))
    refine ⟨padding, ?_, ?_⟩
    · rw [quads, decodeLoop_symbol (by simp) 0 _ (small_first a), if_neg (by omega),
        decodeLoop_symbol (by simp) _ _ (small_second a b), if_pos (by omega), first_byte,
        decodeLoop_symbol (by simp) _ _ (small_third b c), if_pos (by omega), second_byte,
        decodeLoop_symbol (by simp) _ _ (small_fourth c), if_pos (by omega), third_byte]
      have left : (a :: b :: c :: rest).length - 1 - 1 - 1 = rest.length := by simp
      rw [left]
      dsimp only
      rw [loop]
    · rw [count]
      simp only [length_cons]
      omega

theorem paddingLoop_replicate (padding : Nat) :
    paddingLoop (2 * padding) (List.replicate padding '=') = (true, []) := by
  induction padding with
  | zero => rfl
  | succ padding ih =>
    rw [replicate_succ, paddingLoop, if_neg (by omega),
      show 2 * (padding + 1) - 2 = 2 * padding by omega, ih]
    rfl

theorem takeWhile_stop {p : Char → Bool} (front : List Char) {c : Char} (stops : p c = false)
    (back : List Char) : (front ++ c :: back).takeWhile p = front.takeWhile p := by
  induction front with
  | nil => simp [stops]
  | cons first rest ih => simp [takeWhile_cons, ih]

theorem padding_quads :
    ((quads data).reverse.takeWhile (· == '=')).length = (data.length + 2) / 3 * 3 - data.length := by
  induction data using quads.induct with
  | case1 => rfl
  | case2 a =>
    have second : symbol ((a <<< 6) >>> 2) ≠ '=' := by
      have := symbol_ne_padding (small_second a 0#8)
      simpa using this
    simp [quads, second]
  | case3 a b =>
    have third : symbol ((b <<< 4) >>> 2) ≠ '=' := by
      have := symbol_ne_padding (small_third b 0#8)
      simpa using this
    simp [quads, third]
  | case4 a b c rest ih =>
    have fourth := symbol_ne_padding (small_fourth c)
    simp only [quads, reverse_cons, append_assoc, cons_append, length_cons]
    rw [takeWhile_stop _ (by simp [fourth]), ih]
    omega

/-- What is written is read back, with its padding. -/
theorem decodes_encoded (ranges : List (List (BitVec 8))) :
    (asCombinedBase64 ranges).length % 4 = 0 ∧
    asCombinedBase64 ranges = asBase64 ranges.flatten ∧
    (asCombinedBase64 ranges ≠ [] →
      base64DecodedSize (asCombinedBase64 ranges) = ranges.flatten.length) ∧
    fromBase64 ranges.flatten.length (asCombinedBase64 ranges) = (ranges.flatten, [], true) := by
  have text : asCombinedBase64 ranges = quads ranges.flatten := by
    rw [asCombinedBase64_eq, asBase64_eq]
  have length := length_quads ranges.flatten
  refine ⟨?_, asCombinedBase64_eq ranges, ?_, ?_⟩
  · rw [text]
    omega
  · intro nonempty
    rw [text] at nonempty ⊢
    have some := length_pos_iff.mpr nonempty
    rw [base64DecodedSize, if_neg (by omega), padding_quads]
    omega
  · obtain ⟨padding, loop, -⟩ := decodeLoop_quads ranges.flatten 0
    rw [text, fromBase64, loop]
    dsimp only
    rw [if_pos rfl, paddingLoop_replicate]
    rfl

end Base64
