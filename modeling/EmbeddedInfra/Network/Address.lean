import EmbeddedInfra.Stream.TextInputStream
import Mathlib.Algebra.BigOperators.Fin

/-! IP addresses as text: how they are parsed, and how they are printed. -/

namespace IpAddresses

open Json TextStreams List

section

variable (separator : UInt8)

/-- `SkipConsecutiveSeparators`: what is left of the string, and nothing for `npos`. -/
def skipConsecutiveSeparators (rest : Text) : Text := rest.dropWhile (· == separator)

def startOfNextToken (rest : Text) : Text :=
  skipConsecutiveSeparators separator (rest.dropWhile (· != separator))

def skipTokens : Nat → Text → Text
  | 0, rest => rest
  | tokenIndex + 1, rest => skipTokens tokenIndex (startOfNextToken separator rest)

def makeToken (rest : Text) : Text := rest.takeWhile (· != separator)

def token (string : Text) (tokenIndex : Nat) : Text :=
  makeToken separator (skipTokens separator tokenIndex (skipConsecutiveSeparators separator string))

/-- The loop over the tokens, and the check that nothing else is in the string. -/
def parseGroups {bits : Nat} (count : Nat) (read : Text → Option (BitVec bits)) (address : Text) :
    Option (Fin count → BitVec bits) :=
  if (∀ i : Fin count, (read (token separator address i)).isSome = true) ∧
      ∑ i : Fin count, (token separator address i).length + (count - 1) = address.length then
    some fun i => (read (token separator address i)).getD 0
  else none

end

/-- A token is one integer that is at most `width` characters wide. -/
def readGroup (radix : Radix) (width bits : Nat) (token : Text) : Option (BitVec bits) :=
  let (decimal, stream) := TextInputStream.read radix (some width) false bits ⟨token, false⟩
  if stream.failed = true ∨ stream.rest ≠ [] then none else some decimal

def readDecimal (token : Text) : Option (BitVec 8) := do
  let decimal ← readGroup .dec 3 16 token
  if decimal ≠ (decimal.setWidth 8).setWidth 16 then none else some (decimal.setWidth 8)

def readHexadecimal (token : Text) : Option (BitVec 16) :=
  (readGroup .hex 4 32 token).map (BitVec.setWidth 16)

def parseIpv4Address (address : Text) : Option (Fin 4 → BitVec 8) :=
  parseGroups (char '.') 4 readDecimal address

def parseFullIpv6Address (address : Text) : Option (Fin 8 → BitVec 16) :=
  parseGroups (char ':') 8 readHexadecimal address

inductive IPAddress where
  | ipv4 (address : Fin 4 → BitVec 8)
  | ipv6 (address : Fin 8 → BitVec 16)

def parseIpAddress (address : Text) : Option IPAddress :=
  match parseIpv4Address address with
  | some ipv4 => some (.ipv4 ipv4)
  | none => (parseFullIpv6Address address).map .ipv6

def joined (separator : UInt8) {count : Nat} (groups : Fin count → Text) : Text :=
  [separator].intercalate (List.ofFn groups)

/-- `operator<<` on a stream that has no radix or width set. -/
def print : IPAddress → Text
  | .ipv4 address => joined (char '.') fun i => write .dec ⟨0, space⟩ false (address i)
  | .ipv6 address => joined (char ':') fun i => write .hex ⟨0, space⟩ false (address i)

/-- One to `width` digits of a value, with spaces before them if those are let through. -/
def Group (lenient : Bool) (radix : Radix) (width : Nat) {bits : Nat} (value : BitVec bits)
    (group : Text) : Prop :=
  ∃ spaces number digits, group = List.replicate spaces space ++ number ∧
    (lenient = false → spaces = 0) ∧ 0 < number.length ∧ number.length ≤ width ∧
    List.Forall₂ (fun c digit => radix.digit c = some digit) number digits ∧
    valueOf radix digits = value.toNat

/-- Groups between single separators. -/
def Groups (lenient : Bool) (radix : Radix) (separator : UInt8) (width : Nat) {count bits : Nat}
    (address : Fin count → BitVec bits) (string : Text) : Prop :=
  ∃ groups : Fin count → Text, (∀ i, Group lenient radix width (address i) (groups i)) ∧
    string = joined separator groups

def Spelled (lenient : Bool) (string : Text) : IPAddress → Prop
  | .ipv4 address => Groups lenient .dec (char '.') 3 address string
  | .ipv6 address => Groups lenient .hex (char ':') 4 address string

/-- The string is an address if and only if it looks like one. -/
def ParsedExactly (string : Text) : Prop :=
  ∀ address, parseIpAddress string = some address ↔ Spelled false string address

section

variable {separator : UInt8}

theorem makeToken_skip {group : Text} (whole : separator ∉ group) (rest : Text) :
    makeToken separator (group ++ separator :: rest) = group ∧
      (group ++ separator :: rest).dropWhile (· != separator) = separator :: rest := by
  have all : ∀ c ∈ group, (c != separator) = true := fun c member =>
    bne_iff_ne.mpr fun same => whole (same ▸ member)
  constructor
  · rw [makeToken, takeWhile_append_of_pos all, takeWhile_cons_of_neg (by simp),
      append_nil]
  · rw [dropWhile_append_of_pos all, dropWhile_cons_of_neg (by simp)]

theorem skip_group {group : Text} (present : group ≠ []) (whole : separator ∉ group) (rest : Text) :
    skipConsecutiveSeparators separator (group ++ rest) = group ++ rest := by
  obtain ⟨c, group, rfl⟩ := exists_cons_of_ne_nil present
  exact dropWhile_cons_of_neg fun same => whole (beq_iff_eq.mp same ▸ mem_cons_self)

variable {count : Nat}

theorem joined_succ (groups : Fin (count + 2) → Text) :
    joined separator groups = groups 0 ++ separator :: joined separator fun i : Fin (count + 1) =>
      groups i.succ := by
  rw [joined, joined, List.ofFn_succ, List.ofFn_succ, List.intercalate_cons_cons,
    append_assoc]
  rfl

theorem joined_one (groups : Fin 1 → Text) : joined separator groups = groups 0 := by
  simp [joined]

theorem skipTokens_joined {groups : Fin (count + 1) → Text}
    (proper : ∀ i, groups i ≠ [] ∧ separator ∉ groups i) :
    skipConsecutiveSeparators separator (joined separator groups) = joined separator groups ∧
      ∀ i : Fin (count + 1), makeToken separator (skipTokens separator i (joined separator groups)) =
        groups i := by
  induction count with
  | zero =>
    rw [joined_one]
    obtain ⟨present, whole⟩ := proper 0
    refine ⟨?_, fun i => ?_⟩
    · simpa using skip_group present whole []
    · rw [Fin.fin_one_eq_zero i]
      have all : ∀ c ∈ groups 0, (c != separator) = true := fun c member =>
        bne_iff_ne.mpr fun same => whole (same ▸ member)
      have found := @takeWhile_append_of_pos _ _ _ [] all
      rwa [append_nil, takeWhile_nil, append_nil] at found
  | succ count ih =>
    obtain ⟨same, tokens⟩ := ih fun i => proper i.succ
    obtain ⟨present, whole⟩ := proper 0
    rw [joined_succ]
    refine ⟨skip_group present whole _, Fin.cases ?_ fun i => ?_⟩
    · exact (makeToken_skip whole _).1
    · rw [Fin.val_succ, skipTokens, startOfNextToken, (makeToken_skip whole _).2,
        skipConsecutiveSeparators, List.dropWhile_cons_of_pos (by simp), ← skipConsecutiveSeparators,
        same]
      exact tokens i

theorem joined_tokens (count : Nat) (rest : Text)
    (present : ∀ i : Fin (count + 1), makeToken separator (skipTokens separator i rest) ≠ []) :
    ∑ i : Fin (count + 1), (makeToken separator (skipTokens separator i rest)).length + count ≤
        rest.length ∧
      (∑ i : Fin (count + 1), (makeToken separator (skipTokens separator i rest)).length + count =
          rest.length →
        rest = joined separator fun i : Fin (count + 1) =>
          makeToken separator (skipTokens separator i rest)) := by
  have whole : makeToken separator rest ++ rest.dropWhile (· != separator) = rest :=
    takeWhile_append_dropWhile
  have lengths := congrArg List.length whole
  rw [length_append] at lengths
  induction count generalizing rest with
  | zero =>
    rw [Fin.sum_univ_one, joined_one]
    refine ⟨by simp only [skipTokens]; omega, fun equal => ?_⟩
    simp only [skipTokens] at equal ⊢
    have none := eq_nil_of_length_eq_zero (l := rest.dropWhile (· != separator)) (by omega)
    rwa [none, append_nil, eq_comm] at whole
  | succ count ih =>
    rw [Fin.sum_univ_succ, joined_succ]
    simp only [Fin.val_zero, Fin.val_succ, skipTokens]
    cases behind : rest.dropWhile (· != separator) with
    | nil =>
      have empty := present 1
      rw [Fin.val_one, skipTokens, startOfNextToken, behind] at empty
      exact absurd rfl empty
    | cons c more =>
      have same : (c != separator) = false := by
        have first := head?_dropWhile_not (· != separator) rest
        rwa [behind] at first
      have next : startOfNextToken separator rest = more.dropWhile (· == separator) := by
        rw [startOfNextToken, behind, skipConsecutiveSeparators,
          List.dropWhile_cons_of_pos (by simpa using same)]
      have suffix := List.dropWhile_suffix (· == separator) (l := more)
      obtain ⟨le, equal⟩ := ih (startOfNextToken separator rest) (fun i => present i.succ)
        takeWhile_append_dropWhile (by
          rw [← length_append]
          exact congrArg List.length takeWhile_append_dropWhile)
      rw [behind, length_cons] at lengths
      have shorter := suffix.length_le
      rw [← next] at shorter suffix
      refine ⟨by omega, fun all => ?_⟩
      have exact := suffix.eq_of_length (by omega)
      rw [← equal (by omega), exact]
      rw [behind, show c = separator by simpa using same] at whole
      exact whole.symm

theorem length_joined (groups : Fin (count + 1) → Text) :
    (joined separator groups).length = ∑ i, (groups i).length + count := by
  induction count with
  | zero => simp [joined_one]
  | succ count ih =>
    rw [joined_succ, length_append, length_cons, ih, Fin.sum_univ_succ (n := count + 1)]
    omega

theorem parseGroups_iff {bits : Nat} {read : Text → Option (BitVec bits)}
    (proper : ∀ group value, read group = some value → group ≠ [] ∧ separator ∉ group)
    {address : Fin (count + 1) → BitVec bits} {string : Text} :
    parseGroups separator (count + 1) read string = some address ↔
      ∃ groups, (∀ i, read (groups i) = some (address i)) ∧ string = joined separator groups := by
  rw [parseGroups]
  constructor
  · intro parsed
    split at parsed
    next whole =>
      obtain ⟨present, length⟩ := whole
      cases parsed
      have reads (i : Fin (count + 1)) := Option.isSome_iff_exists.mp (present i)
      refine ⟨fun i => token separator string i, fun i => ?_, ?_⟩
      · obtain ⟨value, is⟩ := reads i
        simp only [is, Option.getD_some]
      · obtain ⟨le, equal⟩ := joined_tokens count (skipConsecutiveSeparators separator string)
          fun i => (reads i).elim fun value is => (proper _ _ is).1
        have suffix := List.dropWhile_suffix (· == separator) (l := string)
        have shorter := suffix.length_le
        rw [← skipConsecutiveSeparators] at suffix shorter
        simp only [token, Nat.add_sub_cancel] at length
        have exact := suffix.eq_of_length (by omega)
        rw [exact] at equal
        simp only [exact] at length
        simpa only [token, exact] using equal length
    next => cases parsed
  · rintro ⟨groups, reads, rfl⟩
    obtain ⟨same, tokens⟩ := skipTokens_joined fun i => proper _ _ (reads i)
    have found (i : Fin (count + 1)) : token separator (joined separator groups) i = groups i := by
      rw [token, same]
      exact tokens i
    simp only [found, reads, length_joined]
    simp

end

section

variable {radix : Radix}

theorem digit_lt {c : UInt8} {digit : Nat} (is : radix.digit c = some digit) : digit < radix.base := by
  have nine : (char '9').toNat = 57 := rfl
  have small : (char 'f').toNat = 102 := rfl
  have capital : (char 'F').toNat = 70 := rfl
  cases radix
  all_goals
    simp only [Radix.digit, UInt8.le_iff_toNat_le] at is
    split_ifs at is
    all_goals
      cases is
      rw [Radix.base]
      omega

theorem digits_lt {number : Text} {digits : List Nat}
    (all : List.Forall₂ (fun c digit => radix.digit c = some digit) number digits) :
    valueOf radix digits < radix.base ^ number.length := by
  rw [all.length_eq]
  refine valueOf_lt ?_
  induction all with
  | nil => exact nofun
  | cons is _ ih => exact forall_mem_cons.mpr ⟨digit_lt is, ih⟩

theorem exists_digit {number : Text} {digits : List Nat}
    (all : List.Forall₂ (fun c digit => radix.digit c = some digit) number digits) :
    ∀ c ∈ number, ∃ digit, radix.digit c = some digit := by
  induction all with
  | nil => exact nofun
  | cons is _ ih => exact forall_mem_cons.mpr ⟨⟨_, is⟩, ih⟩

theorem readDigits_all {width bits count : Nat} {text : Text} {v value : BitVec bits}
    (le : count ≤ width) (positive : 0 < width)
    (read : readDigits radix (some width) count v text = (value, [], true)) :
    0 < count + text.length ∧ count + text.length ≤ width ∧
      ∃ digits, List.Forall₂ (fun c digit => radix.digit c = some digit) text digits := by
  induction text generalizing count v with
  | nil => exact ⟨of_decide_eq_true (congrArg (fun result => result.2.2) read), le, [], .nil⟩
  | cons c text ih =>
    rw [readDigits] at read
    split at read
    next goesOn =>
      have less : count < width := by
        refine lt_of_le_of_ne le fun same => ?_
        obtain other | none := goesOn
        · exact other (congrArg some same)
        · omega
      split at read
      next digit is =>
        obtain ⟨-, most, digits, all⟩ := ih (show count + 1 ≤ width from less) read
        rw [length_cons]
        exact ⟨by omega, by omega, digit :: digits, .cons is all⟩
      next => cases congrArg (fun result => result.2.1) read
    next => cases congrArg (fun result => result.2.1) read

theorem readGroup_iff {width bits : Nat} (positive : 0 < width) {token : Text} {value : BitVec bits} :
    readGroup radix width bits token = some value ↔
      ∃ spaces number digits, token = List.replicate spaces space ++ number ∧ 0 < number.length ∧
        number.length ≤ width ∧
        List.Forall₂ (fun c digit => radix.digit c = some digit) number digits ∧
        BitVec.ofNat bits (valueOf radix digits) = value := by
  rw [readGroup, TextInputStream.read, if_neg Bool.false_ne_true, TextInputStream.readUnsigned]
  constructor
  · intro read
    rw [TextInputStream.skipSpaces] at read
    have front : token.takeWhile (· == space) =
        List.replicate (token.takeWhile (· == space)).length space :=
      List.eq_replicate_of_mem fun c member => 
        beq_iff_eq.mp (mem_takeWhile_imp (p := (· == space)) member)
    have whole : token.takeWhile (· == space) ++ token.dropWhile (· == space) = token :=
      takeWhile_append_dropWhile
    generalize token.dropWhile (· == space) = number at read whole
    rw [front] at whole
    cases found : readDigits radix (some width) 0 (0 : BitVec (max 32 bits)) number with
    | mk v result =>
      obtain ⟨rest, ok⟩ := result
      simp only [found] at read
      split at read
      next => cases read
      next fine =>
        obtain ⟨⟨-, rfl⟩, rfl⟩ : (number ≠ [] ∧ ok = true) ∧ rest = [] := by simpa using fine
        cases read
        obtain ⟨some, most, digits, all⟩ := readDigits_all (Nat.zero_le width) positive found
        rw [Nat.zero_add] at some most
        refine ⟨_, number, digits, whole.symm, some, most, all, ?_⟩
        have taken := readDigits_front width (max 32 bits) all [] 0 0
          fun _ same => by cases same; omega
        rw [append_nil, readDigits] at taken
        have value := congrArg Prod.fst (found.symm.trans taken)
        simp only at value
        rw [value, BitVec.setWidth_ofNat_of_le (le_max_right 32 bits)]
        rfl
  · rintro ⟨spaces, number, digits, rfl, some, most, all, rfl⟩
    have left : TextInputStream.skipSpaces ⟨List.replicate spaces space ++ number, false⟩ =
        ⟨number, false⟩ := by
      cases all with
      | nil => cases some
      | cons is _ => exact TextInputStream.skipSpaces_spaces (digit_ne is).1 _ _ _
    have taken := readDigits_front width (max 32 bits) all [] 0 0
      fun _ same => by cases same; omega
    rw [append_nil, readDigits, Nat.zero_add, decide_eq_true some] at taken
    have same : readDigits radix width 0 (0 : BitVec (max 32 bits)) number = _ := taken
    simp only [left, same]
    rw [if_neg (by simp), BitVec.setWidth_ofNat_of_le (le_max_right 32 bits)]
    rfl

end

theorem readDecimal_iff {token : Text} {value : BitVec 8} :
    readDecimal token = some value ↔ Group true .dec 3 value token := by
  constructor
  · intro read
    obtain ⟨decimal, group, read⟩ := Option.bind_eq_some_iff.mp read
    obtain ⟨spaces, number, digits, rfl, some, most, all, rfl⟩ := (readGroup_iff (by decide)).mp group
    split at read
    next => cases read
    next fits =>
      cases read
      refine ⟨spaces, number, digits, rfl, nofun, some, most, all, ?_⟩
      have less := (digits_lt all).trans_le (Nat.pow_le_pow_right (by decide) most)
      have same := congrArg BitVec.toNat (not_not.mp fits)
      simp only [BitVec.toNat_setWidth, BitVec.toNat_ofNat, Radix.base] at same less ⊢
      omega
  · rintro ⟨spaces, number, digits, rfl, -, some, most, all, same⟩
    have group := (@readGroup_iff _ _ 16 (by decide) _ _).mpr
      ⟨spaces, number, digits, rfl, some, most, all, rfl⟩
    rw [readDecimal, group, same]
    simp

theorem readHexadecimal_iff {token : Text} {value : BitVec 16} :
    readHexadecimal token = some value ↔ Group true .hex 4 value token := by
  rw [readHexadecimal, Option.map_eq_some_iff]
  constructor
  · rintro ⟨decimal, group, rfl⟩
    obtain ⟨spaces, number, digits, rfl, some, most, all, rfl⟩ := (readGroup_iff (by decide)).mp group
    refine ⟨spaces, number, digits, rfl, nofun, some, most, all, ?_⟩
    have less := (digits_lt all).trans_le (Nat.pow_le_pow_right (by decide) most)
    simp only [BitVec.toNat_setWidth, BitVec.toNat_ofNat, Radix.base] at less ⊢
    omega
  · rintro ⟨spaces, number, digits, rfl, -, some, most, all, same⟩
    have group := (@readGroup_iff _ _ 32 (by decide) _ _).mpr
      ⟨spaces, number, digits, rfl, some, most, all, rfl⟩
    exact ⟨_, group, by rw [same]; simp⟩

section

variable {radix : Radix} {width bits : Nat} {value : BitVec bits} {group : Text}

namespace Group

theorem mem {lenient : Bool} (is : Group lenient radix width value group) {c : UInt8}
    (member : c ∈ group) : lenient = true ∧ c = space ∨ ∃ digit, radix.digit c = some digit := by
  obtain ⟨spaces, number, digits, rfl, strict, -, -, all, -⟩ := is
  obtain before | digit := mem_append.mp member
  · obtain ⟨present, same⟩ := mem_replicate.mp before
    exact .inl ⟨Bool.not_eq_false _ ▸ mt strict present, same⟩
  · exact .inr (exists_digit all c digit)

theorem not_mem {lenient : Bool} (is : Group lenient radix width value group) {c : UInt8}
    (other : c ≠ space) (none : radix.digit c = none) : c ∉ group := by
  intro member
  obtain ⟨-, same⟩ | ⟨digit, found⟩ := is.mem member
  · exact other same
  · cases none.symm.trans found

theorem ne_nil {lenient : Bool} (is : Group lenient radix width value group) : group ≠ [] := by
  obtain ⟨spaces, number, digits, rfl, -, some, -⟩ := is
  exact append_ne_nil_of_right_ne_nil _ (ne_nil_of_length_pos some)

theorem lenient (is : Group false radix width value group) : Group true radix width value group := by
  obtain ⟨spaces, number, digits, same, -, rest⟩ := is
  exact ⟨spaces, number, digits, same, nofun, rest⟩

theorem strict (is : Group true radix width value group) (none : space ∉ group) :
    Group false radix width value group := by
  obtain ⟨spaces, number, digits, rfl, -, rest⟩ := is
  refine ⟨spaces, number, digits, rfl, fun _ => ?_, rest⟩
  cases spaces with
  | zero => rfl
  | succ spaces => exact absurd mem_cons_self none

end Group

theorem group_write (le : bits ≤ 64) {more : Nat} (enough : 2 ^ bits ≤ radix.base ^ (more + 1)) :
    Group false radix (more + 1) value (write radix ⟨0, space⟩ false value) := by
  obtain ⟨digits, same, nonempty, small, total, most⟩ := outputDigits_digits radix.base
    (two_le_base radix) (value.setWidth 64)
  have whole : (value.setWidth 64).toNat = value.toNat := by
    rw [BitVec.toNat_setWidth]
    exact Nat.mod_eq_of_lt (value.isLt.trans_le (Nat.pow_le_pow_right Nat.two_pos le))
  rw [whole] at total most
  refine ⟨0, digits.map hexChar, digits, ?_, fun _ => rfl, ?_, ?_, forall₂_hexChar small, total⟩
  · simp [write, output, unpadded, same]
  · rw [length_map]
    exact length_pos_of_ne_nil nonempty
  · rw [length_map]
    exact most more (value.isLt.trans_le enough)

end

section

variable {separator : UInt8}

theorem mem_joined {count : Nat} (groups : Fin (count + 2) → Text) (c : UInt8) :
    c ∈ joined separator groups ↔ c = separator ∨ ∃ i, c ∈ groups i := by
  induction count with
  | zero =>
    rw [joined_succ, joined_one, mem_append, mem_cons, Fin.exists_fin_two]
    exact or_left_comm
  | succ count ih =>
    rw [joined_succ, mem_append, mem_cons, ih,
      Fin.exists_fin_succ (n := count + 2), or_self_left]
    exact or_left_comm

variable {radix : Radix} {width count bits : Nat} {address : Fin (count + 2) → BitVec bits}
  {string : Text}

theorem Groups.lenient (is : Groups false radix separator width address string) :
    Groups true radix separator width address string := by
  obtain ⟨groups, each, same⟩ := is
  exact ⟨groups, fun i => (each i).lenient, same⟩

theorem Groups.strict (is : Groups true radix separator width address string)
    (none : space ∉ string) : Groups false radix separator width address string := by
  obtain ⟨groups, each, rfl⟩ := is
  refine ⟨groups, fun i => (each i).strict fun member => none ?_, rfl⟩
  exact (mem_joined groups space).mpr (.inr ⟨i, member⟩)

theorem Groups.no_space (is : Groups false radix separator width address string)
    (other : space ≠ separator) : space ∉ string := by
  obtain ⟨groups, each, rfl⟩ := is
  intro member
  obtain same | ⟨i, member⟩ := (mem_joined groups space).mp member
  · exact other same
  · obtain ⟨wrong, -⟩ | ⟨digit, is⟩ := (each i).mem member
    · cases wrong
    · exact (digit_ne is).1 rfl

end

variable {string : Text} {address : IPAddress}

theorem parseIpv4Address_iff {address : Fin 4 → BitVec 8} :
    parseIpv4Address string = some address ↔ Groups true .dec (char '.') 3 address string := by
  rw [parseIpv4Address, @parseGroups_iff _ 3 _ _ fun group value read => ?_]
  · simp only [readDecimal_iff, Groups]
  · have is := readDecimal_iff.mp read
    exact ⟨is.ne_nil, is.not_mem (by decide) rfl⟩

theorem parseFullIpv6Address_iff {address : Fin 8 → BitVec 16} :
    parseFullIpv6Address string = some address ↔ Groups true .hex (char ':') 4 address string := by
  rw [parseFullIpv6Address, @parseGroups_iff _ 7 _ _ fun group value read => ?_]
  · simp only [readHexadecimal_iff, Groups]
  · have is := readHexadecimal_iff.mp read
    exact ⟨is.ne_nil, is.not_mem (by decide) rfl⟩

theorem not_both {ipv4 : Fin 4 → BitVec 8} {ipv6 : Fin 8 → BitVec 16}
    (four : Groups true .dec (char '.') 3 ipv4 string)
    (six : Groups true .hex (char ':') 4 ipv6 string) : False := by
  obtain ⟨groups, each, rfl⟩ := four
  obtain ⟨others, -, same⟩ := six
  have colon : char ':' ∈ joined (char '.') groups :=
    same ▸ (mem_joined others (char ':')).mpr (.inl rfl)
  obtain wrong | ⟨i, member⟩ := (mem_joined groups (char ':')).mp colon
  · exact absurd wrong (by decide)
  · exact (each i).not_mem (by decide) rfl member

theorem parseIpAddress_iff :
    parseIpAddress string = some address ↔ Spelled true string address := by
  rw [parseIpAddress]
  cases found : parseIpv4Address string with
  | none =>
    cases address with
    | ipv4 address =>
      rw [Spelled, ← parseIpv4Address_iff, found]
      simp
    | ipv6 address =>
      rw [Spelled, ← parseFullIpv6Address_iff]
      simp
  | some ipv4 =>
    cases address with
    | ipv4 address =>
      rw [Spelled, ← parseIpv4Address_iff, found]
      simp
    | ipv6 address => exact iff_of_false (by simp) (not_both (parseIpv4Address_iff.mp found))

theorem spelled_print (address : IPAddress) : Spelled false (print address) address := by
  cases address with
  | ipv4 address | ipv6 address => exact ⟨_, fun i => group_write (by decide) (by decide), rfl⟩

theorem Spelled.lenient (is : Spelled false string address) : Spelled true string address := by
  cases address with
  | ipv4 address | ipv6 address => exact Groups.lenient is

theorem Spelled.no_space (is : Spelled false string address) : space ∉ string := by
  cases address with
  | ipv4 address | ipv6 address => exact Groups.no_space is (by decide)

/-- Addresses are parsed exactly, unless spaces stand before groups of what is an address without
them; what is printed is parsed back. -/
theorem parsed_exactly_iff (string : Text) (printed : IPAddress) :
    (ParsedExactly string ↔ (space ∈ string → ∀ address, ¬ Spelled true string address)) ∧
      parseIpAddress (print printed) = some printed := by
  refine ⟨⟨fun exactly member address lenient => ?_, fun fine address => ?_⟩,
    parseIpAddress_iff.mpr (spelled_print printed).lenient⟩
  · exact Spelled.no_space ((exactly address).mp (parseIpAddress_iff.mpr lenient)) member
  · rw [parseIpAddress_iff]
    refine ⟨fun lenient => ?_, Spelled.lenient⟩
    have none : space ∉ string := fun member => fine member address lenient
    cases address with
    | ipv4 address | ipv6 address => exact Groups.strict lenient none

/-- The address ` 1.2.3.4` is parsed, and is none. -/
theorem not_parsed_exactly :
    ¬ ((∀ string, ParsedExactly string) ∧
      ∀ address, parseIpAddress (print address) = some address) := by
  rintro ⟨exactly, -⟩
  have parsed : (parseIpAddress (" 1.2.3.4".toList.map char)).isSome = true := by decide
  obtain ⟨address, parsed⟩ := Option.isSome_iff_exists.mp parsed
  exact ((exactly _ address).mp parsed).no_space mem_cons_self

end IpAddresses
