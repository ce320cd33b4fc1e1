import Mathlib.Data.List.TakeWhile
import Mathlib.Tactic

/-! Consistent overhead byte stuffing: the encoding of a list of bytes without the byte
zero, its size, and a decoder that takes one byte at a time. A message is followed by a
zero on the wire. -/

namespace Cobs

open List

abbrev Bytes := List UInt8

def longestRun : Nat := 254

variable (run : Bytes) (messages : List Bytes) (before : Nat)

def frame : Bytes := UInt8.ofNat (run.length + 1) :: run

/-- Encode `run` followed by the rest, where the run has no zero and is not full. -/
def encodeFrom (run : Bytes) : Bytes → Bytes
  | [] => frame run
  | byte :: rest =>
    if byte = 0 then frame run ++ encodeFrom [] rest
    else if run.length + 1 = longestRun then
      frame (run ++ [byte]) ++ if rest = [] then [] else encodeFrom [] rest
    else encodeFrom (run ++ [byte]) rest

def encode (contents : Bytes) : Bytes := encodeFrom [] contents

def Partial : Prop := run.length < longestRun ∧ 0 ∉ run

theorem partial_nil : Partial [] := ⟨by decide, by simp⟩

theorem Partial.concat {run : Bytes} {byte : UInt8} (partial' : Partial run)
    (nonzero : byte ≠ 0) (more : run.length + 1 ≠ longestRun) : Partial (run ++ [byte]) := by
  refine ⟨?_, ?_⟩
  · have short := partial'.1
    rw [length_append, length_singleton]
    omega
  · simpa [partial'.2] using nonzero.symm

theorem zero_notMem_frame {run : Bytes} (short : run.length ≤ longestRun) (nonzero : 0 ∉ run) :
    0 ∉ frame run := by
  have overhead : UInt8.ofNat (run.length + 1) ≠ 0 := by
    intro zero
    have value := congrArg UInt8.toNat zero
    rw [UInt8.toNat_ofNat_of_lt' (lt_of_le_of_lt (Nat.succ_le_succ short) (by decide))] at value
    cases value
  rw [frame, mem_cons, not_or]
  exact ⟨overhead.symm, nonzero⟩

theorem zero_notMem_encodeFrom (rest : Bytes) (runs : Partial run) : 0 ∉ encodeFrom run rest := by
  induction rest generalizing run with
  | nil => exact zero_notMem_frame runs.1.le runs.2
  | cons byte rest ih =>
    simp only [encodeFrom]
    split
    next =>
      rw [mem_append, not_or]
      exact ⟨zero_notMem_frame runs.1.le runs.2, ih [] partial_nil⟩
    next nonzero =>
      split
      next full =>
        rw [mem_append, not_or]
        refine ⟨zero_notMem_frame (by simp [full]) ?_, ?_⟩
        · simpa [runs.2] using Ne.symm nonzero
        · split
          · simp
          · exact ih [] partial_nil
      next more => exact ih _ (runs.concat nonzero more)

theorem zero_notMem_encode (contents : Bytes) : 0 ∉ encode contents :=
  zero_notMem_encodeFrom [] contents partial_nil

theorem length_encodeFrom_le (rest : Bytes) (runs : Partial run) :
    (encodeFrom run rest).length ≤
      run.length + rest.length + (run.length + rest.length) / longestRun + 1 := by
  induction rest generalizing run with
  | nil =>
    simp only [encodeFrom, frame, length_cons, length_nil, longestRun]
    omega
  | cons byte rest ih =>
    simp only [encodeFrom]
    split
    next =>
      have tail := ih [] partial_nil
      simp only [frame, length_append, length_cons, length_nil] at tail ⊢
      have monotone : (0 + rest.length) / longestRun ≤
          (run.length + (rest.length + 1)) / longestRun := Nat.div_le_div_right (by omega)
      omega
    next nonzero =>
      split
      next full =>
        have more : (run.length + (rest.length + 1)) / longestRun =
            rest.length / longestRun + 1 := by
          rw [show run.length + (rest.length + 1) = rest.length + longestRun by omega,
            Nat.add_div_right _ (by decide)]
        split
        next empty =>
          simp only [frame, length_append, length_cons, length_nil, longestRun]
          omega
        next =>
          have tail := ih [] partial_nil
          simp only [frame, length_append, length_cons, length_nil,
            Nat.zero_add] at tail ⊢
          omega
      next more =>
        have tail := ih _ (runs.concat nonzero more)
        simp only [length_append, length_cons, length_nil] at tail ⊢
        rw [show run.length + (0 + 1) + rest.length = run.length + (rest.length + 1) by omega]
          at tail
        omega

theorem length_encode_le (contents : Bytes) :
    (encode contents).length + 1 ≤ contents.length + contents.length / longestRun + 2 := by
  have bound := length_encodeFrom_le [] contents partial_nil
  simp only [length_nil, Nat.zero_add] at bound
  exact Nat.succ_le_succ bound

/-- Encode by whole runs: the run up to the first zero, or the longest one, and what is
left after it. -/
theorem encodeFrom_append (front rest : Bytes) (nonzero : 0 ∉ front)
    (short : (run ++ front).length < longestRun) :
    encodeFrom run (front ++ rest) = encodeFrom (run ++ front) rest := by
  induction front generalizing run with
  | nil => simp
  | cons byte front ih =>
    rw [mem_cons, not_or] at nonzero
    have notFull : run.length + 1 ≠ longestRun := by
      simp only [length_append, length_cons] at short
      omega
    rw [cons_append, encodeFrom, if_neg (Ne.symm nonzero.1), if_neg notFull,
      ih (run ++ [byte]) nonzero.2 (by simpa using short)]
    simp

def firstRun (contents : Bytes) : Bytes := (contents.take longestRun).takeWhile (· ≠ 0)

/-- What follows a run of the given length, where `rest` begins behind it: a zero that ends
the run is not encoded itself. -/
def encodeAfter (length : Nat) (rest : Bytes) : Bytes :=
  if rest = [] then []
  else if length = longestRun then encode rest
  else encode rest.tail

theorem zero_notMem_firstRun (contents : Bytes) : 0 ∉ firstRun contents := by
  intro member
  have nonzero := mem_takeWhile_imp member
  simp at nonzero

theorem length_firstRun_le (contents : Bytes) : (firstRun contents).length ≤ longestRun :=
  (List.takeWhile_prefix _).length_le.trans (length_take_le _ _)

theorem take_length_firstRun (contents : Bytes) :
    contents.take (firstRun contents).length = firstRun contents :=
  (List.prefix_iff_eq_take.mp ((List.takeWhile_prefix _).trans (List.take_prefix _ _))).symm

theorem firstRun_cases (contents : Bytes) :
    contents.drop (firstRun contents).length = [] ∨
      (firstRun contents).length = longestRun ∨
        ∃ rest, contents.drop (firstRun contents).length = 0 :: rest := by
  have split : contents.drop (firstRun contents).length =
      (contents.take longestRun).dropWhile (· ≠ 0) ++ contents.drop longestRun := by
    have whole : firstRun contents ++ ((contents.take longestRun).dropWhile (· ≠ 0) ++
        contents.drop longestRun) = contents := by
      rw [← append_assoc, firstRun, takeWhile_append_dropWhile, take_append_drop]
    have dropped := take_append_drop (firstRun contents).length contents
    rw [take_length_firstRun] at dropped
    exact append_cancel_left (dropped.trans whole.symm)
  cases left : (contents.take longestRun).dropWhile (· ≠ 0) with
  | nil =>
    have all : firstRun contents = contents.take longestRun := by
      rw [firstRun, takeWhile_eq_self_iff]
      exact dropWhile_eq_nil_iff.mp left
    by_cases short : contents.length ≤ longestRun
    · left
      rw [all, take_of_length_le short, drop_length]
    · right
      left
      rw [all, length_take]
      omega
  | cons byte rest =>
    right
    right
    have zero : byte = 0 := by
      have stopped := head?_dropWhile_not (· ≠ 0) (contents.take longestRun)
      rw [left] at stopped
      simpa using stopped
    exact ⟨rest ++ contents.drop longestRun, by rw [split, left, zero, cons_append]⟩

theorem encode_eq (contents : Bytes) :
    encode contents = frame (firstRun contents) ++
      encodeAfter (firstRun contents).length (contents.drop (firstRun contents).length) := by
  have nonzero := zero_notMem_firstRun contents
  have short := length_firstRun_le contents
  have cases := firstRun_cases contents
  have whole := take_append_drop (firstRun contents).length contents
  rw [take_length_firstRun] at whole
  generalize firstRun contents = run at nonzero short cases whole ⊢
  generalize contents.drop run.length = rest at cases whole ⊢
  subst whole
  by_cases full : run.length = longestRun
  · obtain rfl | ⟨front, last, rfl⟩ := eq_nil_or_concat' run
    · cases full
    · rw [mem_append, not_or, mem_singleton] at nonzero
      have length := full
      rw [length_append, length_singleton] at length
      rw [encodeAfter, if_pos full, encode, append_assoc,
        encodeFrom_append [] front ([last] ++ rest) nonzero.1 (by simp; omega),
        nil_append, singleton_append, encodeFrom, if_neg (Ne.symm nonzero.2),
        if_pos length, encode]
  · have less : run.length < longestRun := lt_of_le_of_ne short full
    rw [encode, encodeFrom_append [] run rest nonzero (by simpa using less), nil_append,
      encodeAfter, if_neg full]
    rcases cases with rfl | full' | ⟨tail, rfl⟩
    · simp [encodeFrom]
    · exact absurd full' full
    · simp [encodeFrom, encode]

theorem drop_encode (contents : Bytes) :
    (encode contents).drop (1 + (firstRun contents).length) =
      encodeAfter (firstRun contents).length (contents.drop (firstRun contents).length) := by
  rw [encode_eq, Nat.add_comm]
  exact drop_left

/-- A decoder between two bytes: the overhead that is left, whether the next overhead byte
stands for no zero, the message so far, and the bytes taken since the last message. -/
structure Decoder where
  overhead : Nat
  pseudo : Bool
  contents : Bytes
  taken : Nat
  deriving DecidableEq

namespace Decoder

def start : Decoder := ⟨1, true, [], 0⟩

variable (s : Decoder)

/-- At a zero: the decoder starts anew, with the message if there is one. -/
def boundary : Decoder × Option (Bytes × Nat) :=
  if s.contents = [] then ({ start with taken := s.taken + 1 }, none)
  else (start, some (s.contents, s.taken + 1))

def take (byte : UInt8) : Decoder × Option (Bytes × Nat) :=
  if byte = 0 then s.boundary
  else if s.overhead = 1 then
    ({ overhead := byte.toNat
       pseudo := byte.toNat = 255
       contents := if s.pseudo then s.contents else s.contents ++ [0]
       taken := s.taken + 1 }, none)
  else
    ({ s with
      overhead := s.overhead - 1
      contents := s.contents ++ [byte]
      taken := s.taken + 1 }, none)

def feed (s : Decoder) : Bytes → Decoder × List (Bytes × Nat)
  | [] => (s, [])
  | byte :: rest =>
    let (next, message) := s.take byte
    let (last, messages) := next.feed rest
    (last, message.toList ++ messages)

theorem feed_append (front back : Bytes) :
    s.feed (front ++ back) = ((((s.feed front).1.feed back).1),
      (s.feed front).2 ++ ((s.feed front).1.feed back).2) := by
  induction front generalizing s with
  | nil => simp [feed]
  | cons byte rest ih => simp [feed, ih]

theorem feed_run (run : Bytes) (nonzero : 0 ∉ run) (inside : run.length < s.overhead) :
    s.feed run = ({ s with
      overhead := s.overhead - run.length
      contents := s.contents ++ run
      taken := s.taken + run.length }, []) := by
  induction run generalizing s with
  | nil => simp [feed]
  | cons byte run ih =>
    rw [mem_cons, not_or] at nonzero
    have positive : s.overhead ≠ 1 := by
      rw [length_cons] at inside
      omega
    have tail := ih { s with
      overhead := s.overhead - 1
      contents := s.contents ++ [byte]
      taken := s.taken + 1 } nonzero.2 (by
        simp only [length_cons] at inside ⊢
        omega)
    simp only [feed, take, if_neg (Ne.symm nonzero.1), if_neg positive, tail, length_cons,
      Option.toList_none, nil_append, append_assoc, singleton_append]
    congr 2
    · omega
    · omega

def pending : Bytes := if s.pseudo then s.contents else s.contents ++ [0]

theorem feed_frame (run : Bytes) (ready : s.overhead = 1) (nonzero : 0 ∉ run)
    (short : run.length ≤ longestRun) :
    s.feed (frame run) = (⟨1, decide (run.length = longestRun), s.pending ++ run,
      s.taken + (frame run).length⟩, []) := by
  have value : (UInt8.ofNat (run.length + 1)).toNat = run.length + 1 :=
    UInt8.toNat_ofNat_of_lt' (lt_of_le_of_lt (Nat.succ_le_succ short) (by decide))
  have overhead : UInt8.ofNat (run.length + 1) ≠ 0 := by
    intro zero
    rw [zero] at value
    cases value
  have full : decide (run.length + 1 = 255) = decide (run.length = longestRun) :=
    decide_eq_decide.mpr (by unfold longestRun; omega)
  have body := feed_run ⟨run.length + 1, decide (run.length = longestRun), s.pending,
    s.taken + 1⟩ run nonzero (by simp)
  simp only [frame, feed, take, if_neg overhead, if_pos ready, value, full]
  rw [show (if s.pseudo = true then s.contents else s.contents ++ [0]) = s.pending from rfl, body]
  simp only [Option.toList_none, nil_append, length_cons, Nat.add_sub_cancel_left]
  congr 2
  omega

theorem feed_encodeFrom (run rest : Bytes) (ready : s.overhead = 1) (runs : Partial run) :
    ∃ pseudo, s.feed (encodeFrom run rest) = (⟨1, pseudo, s.pending ++ run ++ rest,
      s.taken + (encodeFrom run rest).length⟩, []) := by
  induction rest generalizing s run with
  | nil =>
    refine ⟨decide (run.length = longestRun), ?_⟩
    rw [encodeFrom, feed_frame s run ready runs.2 runs.1.le, append_nil]
  | cons byte rest ih =>
    simp only [encodeFrom]
    split
    next zero =>
      have notFull : decide (run.length = longestRun) = false :=
        decide_eq_false runs.1.ne
      obtain ⟨pseudo, tail⟩ := ih ⟨1, false, s.pending ++ run,
        s.taken + (frame run).length⟩ [] rfl partial_nil
      refine ⟨pseudo, ?_⟩
      rw [feed_append, feed_frame s run ready runs.2 runs.1.le, notFull, tail, zero]
      simp [pending, Nat.add_assoc]
    next nonzero =>
      split
      next full =>
        have clean : 0 ∉ run ++ [byte] := by simpa [runs.2] using Ne.symm nonzero
        have length : (run ++ [byte]).length = longestRun := by simpa using full
        have head := feed_frame s (run ++ [byte]) ready clean length.le
        rw [decide_eq_true length] at head
        split
        next empty =>
          refine ⟨true, ?_⟩
          subst empty
          rw [append_nil, head]
          simp
        next =>
          obtain ⟨pseudo, tail⟩ := ih ⟨1, true, s.pending ++ (run ++ [byte]),
            s.taken + (frame (run ++ [byte])).length⟩ [] rfl partial_nil
          refine ⟨pseudo, ?_⟩
          rw [feed_append, head, tail]
          simp [pending, Nat.add_assoc]
      next more =>
        obtain ⟨pseudo, tail⟩ := ih s (run ++ [byte]) ready (runs.concat nonzero more)
        exact ⟨pseudo, by rw [tail]; simp⟩

/-- A decoder that has not begun a message gives back the message that it is fed, with the
size that it takes. -/
theorem feed_message (taken : Nat) (contents : Bytes) (nonempty : contents ≠ []) :
    ({ start with taken := taken } : Decoder).feed (encode contents ++ [0]) =
      (start, [(contents, taken + (encode contents).length + 1)]) := by
  obtain ⟨pseudo, body⟩ := feed_encodeFrom { start with taken := taken } [] contents rfl
    partial_nil
  rw [feed_append, encode, body]
  simp [feed, take, boundary, pending, start, nonempty]

theorem length_contents_le (rest : Bytes) :
    (∃ message, (s.feed rest).2.head? = some message ∧ s.contents.length ≤ message.1.length) ∨
      ((s.feed rest).2 = [] ∧ s.contents.length ≤ (s.feed rest).1.contents.length) := by
  induction rest generalizing s with
  | nil => exact .inr ⟨rfl, le_rfl⟩
  | cons byte rest ih =>
    simp only [feed]
    by_cases zero : byte = 0
    · by_cases empty : s.contents = []
      · rcases ih { start with taken := s.taken + 1 } with ⟨message, first, _⟩ | ⟨none, _⟩
        · exact .inl ⟨message, by simp [take, zero, boundary, empty, first], by simp [empty]⟩
        · exact .inr ⟨by simp [take, zero, boundary, empty, none], by simp [empty]⟩
      · exact .inl ⟨(s.contents, s.taken + 1), by simp [take, zero, boundary, empty], le_rfl⟩
    · have silent : (s.take byte).2 = none := by
        unfold take
        rw [if_neg zero]
        split <;> rfl
      have grown : s.contents.length ≤ (s.take byte).1.contents.length := by
        unfold take
        rw [if_neg zero]
        split
        · simp only
          split <;> simp
        · simp
      rw [silent]
      rcases ih (s.take byte).1 with ⟨message, first, bound⟩ | ⟨none, bound⟩
      · exact .inl ⟨message, by simpa using first, grown.trans bound⟩
      · exact .inr ⟨by simpa using none, grown.trans bound⟩

/-- The message so far never exceeds a capacity. -/
def Fits (capacity : Nat) (s : Decoder) : Bytes → Prop
  | [] => s.contents.length ≤ capacity
  | byte :: rest => s.contents.length ≤ capacity ∧ (s.take byte).1.Fits capacity rest

theorem Fits.contents {capacity : Nat} {s : Decoder} {data : Bytes} (fits : s.Fits capacity data) :
    s.contents.length ≤ capacity := by
  cases data with
  | nil => exact fits
  | cons byte rest => exact fits.1

theorem fits_append {capacity : Nat} (front back : Bytes) (fits : s.Fits capacity (front ++ back)) :
    s.Fits capacity front ∧ (s.feed front).1.Fits capacity back := by
  induction front generalizing s with
  | nil => exact ⟨Fits.contents fits, fits⟩
  | cons byte rest ih =>
    obtain ⟨here, later⟩ := fits
    obtain ⟨tail, last⟩ := ih (s.take byte).1 later
    exact ⟨⟨here, tail⟩, last⟩

theorem fits_of_feed {capacity : Nat} (data : Bytes)
    (messages : ∀ message ∈ (s.feed data).2, message.1.length ≤ capacity)
    (last : (s.feed data).1.contents.length ≤ capacity) : s.Fits capacity data := by
  have here : s.contents.length ≤ capacity := by
    rcases length_contents_le s data with ⟨message, first, bound⟩ | ⟨_, bound⟩
    · exact bound.trans (messages message (mem_of_mem_head? first))
    · exact bound.trans last
  induction data generalizing s with
  | nil => exact here
  | cons byte rest ih =>
    have later : ∀ message ∈ ((s.take byte).1.feed rest).2, message.1.length ≤ capacity :=
      fun message member => messages message (by simp [feed, member])
    refine ⟨here, ih _ later last ?_⟩
    rcases length_contents_le (s.take byte).1 rest with ⟨message, first, bound⟩ | ⟨_, bound⟩
    · exact bound.trans (later message (mem_of_mem_head? first))
    · exact bound.trans last

end Decoder

/-- The messages as they follow each other on the wire. -/
def stream : List Bytes → Bytes
  | [] => []
  | contents :: rest => encode contents ++ 0 :: stream rest

theorem stream_append (front back : List Bytes) :
    stream (front ++ back) = stream front ++ stream back := by
  induction front with
  | nil => rfl
  | cons contents rest ih => simp [stream, ih]

def wireSize (contents : Bytes) : Nat := (encode contents).length + 1

/-- The messages with the sizes they take, the first one with what came before it. -/
def reports (before : Nat) : List Bytes → List (Bytes × Nat)
  | [] => []
  | contents :: rest => (contents, before + wireSize contents) :: reports 0 rest

open Decoder in
theorem feed_stream (before : Nat) (messages : List Bytes)
    (nonempty : ∀ contents ∈ messages, contents ≠ []) :
    ({ start with taken := before } : Decoder).feed (stream messages) =
      ({ start with taken := if messages = [] then before else 0 }, reports before messages) := by
  induction messages generalizing before with
  | nil => rfl
  | cons contents rest ih =>
    rw [forall_mem_cons] at nonempty
    have later := ih 0 nonempty.2
    rw [ite_self] at later
    change start.feed _ = (start, _) at later
    rw [stream, show encode contents ++ 0 :: stream rest =
      (encode contents ++ [0]) ++ stream rest by simp, feed_append,
      feed_message before contents nonempty.1, later]
    simp [reports, wireSize, Nat.add_assoc, start]

/-- All that is sent for the messages: a zero comes before the first one. -/
def wire : Bytes :=
  if messages = [] then [] else 0 :: stream messages

open Decoder in
theorem feed_wire (nonempty : ∀ contents ∈ messages, contents ≠ []) :
    start.feed (wire messages) = (start, reports 1 messages) := by
  unfold wire
  split
  next empty =>
    subst empty
    rfl
  next some =>
    have body := feed_stream 1 messages nonempty
    rw [if_neg some] at body
    have zero : start.take 0 = ({ start with taken := 1 }, none) := rfl
    simp only [feed, zero, body, Option.toList_none, nil_append]
    rfl

open Decoder in
theorem fits_wire {capacity : Nat} (nonempty : ∀ contents ∈ messages, contents ≠ [])
    (small : ∀ contents ∈ messages, contents.length ≤ capacity) :
    start.Fits capacity (wire messages) := by
  have listed : ∀ (before : Nat) (messages : List Bytes),
      (∀ contents ∈ messages, contents.length ≤ capacity) →
        ∀ message ∈ reports before messages, message.1.length ≤ capacity := by
    intro before messages small
    induction messages generalizing before with
    | nil => simp [reports]
    | cons contents rest ih =>
      rw [forall_mem_cons] at small
      rw [reports, forall_mem_cons]
      exact ⟨small.1, ih 0 small.2⟩
  apply fits_of_feed
  · rw [feed_wire messages nonempty]
    exact listed 1 messages small
  · rw [feed_wire messages nonempty]
    exact Nat.zero_le _

theorem wire_concat (contents : Bytes) :
    wire (messages ++ [contents]) =
      wire messages ++ ((if messages = [] then [0] else []) ++ encode contents ++ [0]) := by
  by_cases empty : messages = []
  · subst empty
    rfl
  · have some : messages ++ [contents] ≠ [] := by simp
    rw [wire, wire, if_neg some, if_neg empty, if_neg empty, stream_append]
    simp [stream]

theorem map_reports (messages : List Bytes) :
    (reports before messages).map Prod.fst = messages := by
  induction messages generalizing before with
  | nil => rfl
  | cons contents rest ih => simp [reports, ih]

theorem reports_concat (messages : List Bytes) (contents : Bytes) :
    reports before (messages ++ [contents]) = reports before messages ++
      [(contents, (if messages = [] then before else 0) + wireSize contents)] := by
  induction messages generalizing before with
  | nil => rfl
  | cons first rest ih => simp [reports, ih]

/-- No message takes more than a byte for every full run and two, and the first one what
came before it. -/
theorem reports_le (messages : List Bytes) (i : Nat) (message : Bytes × Nat)
    (found : (reports before messages)[i]? = some message) :
    message.2 ≤ message.1.length + message.1.length / longestRun + 2 +
      (if i = 0 then before else 0) := by
  induction messages generalizing before i with
  | nil => cases found
  | cons contents rest ih =>
    cases i with
    | zero =>
      cases found
      have bound := length_encode_le contents
      simp only [wireSize, if_true]
      omega
    | succ i =>
      have bound := ih 0 i found
      simpa using bound

end Cobs
