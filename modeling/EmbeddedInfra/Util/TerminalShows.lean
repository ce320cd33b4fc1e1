import EmbeddedInfra.Util.Terminal
import Mathlib.Tactic.ByContra

/-! The terminal displays the line that it edits. -/

namespace Terminals

open List

/-! ### Screens -/

def Printable (c : UInt8) : Prop := 31 < c ∧ c < 127

theorem prompt_printable : ∀ c ∈ prompt, Printable c := by
  intro c member
  simp only [prompt, mem_cons, not_mem_nil, or_false] at member
  rcases member with rfl | rfl <;> exact ⟨by decide, by decide⟩

namespace Screen

variable {screen : Screen} {text line : List UInt8} {cursor : Nat} {c : UInt8}

theorem put_printable (screen : Screen) (printable : Printable c) : screen.put c =
    { line := fun i => if i = screen.cursor then c else screen.line i
      cursor := screen.cursor + 1 } := by
  have ⟨above, _⟩ := printable
  rw [put]
  all_goals
    rintro rfl
    exact absurd above (by decide)

theorem write_append (screen : Screen) (text more : List UInt8) :
    screen.write (text ++ more) = (screen.write text).write more := foldl_append

theorem write_cons (screen : Screen) (c : UInt8) (text : List UInt8) :
    screen.write (c :: text) = (screen.put c).write text := rfl

theorem write_nil (screen : Screen) : screen.write [] = screen := rfl

theorem getD_blanks (line : List UInt8) (n i : Nat) :
    (line ++ List.replicate n 32).getD i 32 = line.getD i 32 := by
  rw [getD_eq_getElem?_getD, getD_eq_getElem?_getD]
  by_cases inside : i < line.length
  · rw [getElem?_append_left inside]
  · rw [getElem?_append_right (by omega), getElem?_replicate,
      getElem?_eq_none (by omega)]
    split <;> rfl

namespace Displays

theorem put (displays : screen.Displays line cursor) (printable : Printable c)
    (within : cursor ≤ line.length) :
    (screen.put c).Displays (line.take cursor ++ c :: line.drop (cursor + 1)) (cursor + 1) := by
  obtain ⟨here, shown⟩ := displays
  rw [put_printable screen printable, here]
  refine ⟨rfl, fun i => ?_⟩
  have length : (line.take cursor).length = cursor := by
    rw [length_take]
    omega
  dsimp only
  rw [getD_eq_getElem?_getD]
  by_cases before : i < cursor
  · rw [if_neg (by omega), shown, getElem?_append_left (by omega), getElem?_take_of_lt before,
      getD_eq_getElem?_getD]
  · rw [getElem?_append_right (by omega), length]
    by_cases same : i = cursor
    · rw [if_pos same, same, Nat.sub_self]
      rfl
    · obtain ⟨k, rfl⟩ : ∃ k, i = cursor + 1 + k := ⟨i - (cursor + 1), by omega⟩
      have place : cursor + 1 + k - cursor = k + 1 := by omega
      rw [if_neg same, shown, place, getElem?_cons_succ, getElem?_drop,
        getD_eq_getElem?_getD]

theorem write (displays : screen.Displays line cursor) (printable : ∀ c ∈ text, Printable c)
    (within : cursor ≤ line.length) :
    (screen.write text).Displays (line.take cursor ++ text ++ line.drop (cursor + text.length))
      (cursor + text.length) := by
  induction text generalizing screen line cursor with
  | nil =>
    rw [write_nil, append_nil, length_nil, Nat.add_zero, take_append_drop]
    exact displays
  | cons c rest ih =>
    have length : (line.take cursor).length = cursor := by
      rw [length_take]
      omega
    have next := displays.put (printable c mem_cons_self) within
    have written := ih next (fun d member => printable d (mem_cons_of_mem _ member)) (by
      rw [length_append, length, length_cons]
      omega)
    have front : (line.take cursor ++ c :: line.drop (cursor + 1)).take (cursor + 1) =
        line.take cursor ++ [c] := by
      rw [take_append, length, Nat.add_sub_cancel_left, take_of_length_le (by omega)]
      rfl
    have back : (line.take cursor ++ c :: line.drop (cursor + 1)).drop (cursor + 1 + rest.length) =
        line.drop (cursor + (c :: rest).length) := by
      have place : cursor + 1 + rest.length - cursor = rest.length + 1 := by omega
      rw [drop_append, length, drop_of_length_le (by omega), nil_append, place,
        drop_succ_cons, drop_drop, length_cons]
      congr 1
      omega
    rw [front, back, append_assoc (line.take cursor), singleton_append] at written
    rw [write_cons, length_cons, Nat.add_comm rest.length, ← Nat.add_assoc]
    rw [length_cons, Nat.add_comm rest.length, ← Nat.add_assoc] at written
    exact written

theorem of_blanks {n : Nat} (displays : screen.Displays (line ++ List.replicate n 32) cursor) :
    screen.Displays line cursor :=
  ⟨displays.1, fun i => (displays.2 i).trans (getD_blanks line n i)⟩

theorem back {n : Nat} (displays : screen.Displays line cursor) :
    (screen.write (List.replicate n 8)).Displays line (cursor - n) := by
  induction n generalizing screen cursor with
  | zero => exact displays
  | succ n ih =>
    have moved : (screen.put 8).Displays line (cursor - 1) :=
      ⟨congrArg (· - 1) displays.1, displays.2⟩
    rw [replicate_succ, write_cons, Nat.add_comm, ← Nat.sub_sub]
    exact ih moved

theorem start (displays : screen.Displays line cursor) :
    (screen.write [13]).Displays line 0 := ⟨rfl, displays.2⟩

theorem bell (displays : screen.Displays line cursor) :
    (screen.write [7]).Displays line cursor := displays

end Displays

theorem displays_feed (screen : Screen) : (screen.write [13, 10]).Displays [] 0 := ⟨rfl, fun _ => rfl⟩

end Screen

/-! ### Steps -/

/-- What is kept between characters. -/
structure Edits (maxBuffer maxHistory : Nat) (s : TerminalBase) : Prop
    extends Consistent maxBuffer s where
  printable : ∀ c ∈ s.buffer, Printable c
  entries : ∀ entry ∈ s.history, entry.length ≤ maxBuffer ∧ ∀ c ∈ entry, Printable c
  index : s.historyIndex ≤ s.history.length
  room : s.history.length ≤ maxHistory

variable {maxBuffer maxHistory : Nat} {s t : TerminalBase} {c : UInt8}

variable (maxBuffer maxHistory s) in
/-- The outcome of a key that completes no line. -/
def KeepsEditing (outcome : Option TerminalBase) : Prop :=
  ∃ t, outcome = some t ∧ Edits maxBuffer maxHistory t ∧ t.received = s.received

variable (maxBuffer maxHistory s) in
def MayReceive (outcome : Option TerminalBase) : Prop :=
  ∃ t, outcome = some t ∧ Edits maxBuffer maxHistory t ∧
    (t.received = s.received ∨ t.received = s.received ++ [s.buffer])

def screen (s : TerminalBase) : Screen := Screen.blank.write s.output

theorem screen_print (s : TerminalBase) (message : List UInt8) :
    screen (s.print message) = (screen s).write message := Screen.write_append _ _ _

theorem drop_line (buffer : List UInt8) (k : Nat) :
    (prompt ++ buffer).drop (prompt.length + k) = buffer.drop k := by
  rw [drop_append, drop_of_length_le (Nat.le_add_right _ _), Nat.add_sub_cancel_left,
    nil_append]

theorem take_line (buffer : List UInt8) (k : Nat) :
    (prompt ++ buffer).take (prompt.length + k) = prompt ++ buffer.take k := by
  rw [take_append, take_of_length_le (Nat.le_add_right _ _), Nat.add_sub_cancel_left]

namespace Edits

section

variable (edits : Edits maxBuffer maxHistory s)

include edits

theorem shown :
    (screen s).Displays (prompt ++ s.buffer) (prompt.length + s.cursorPosition) := edits.displays

theorem change (history : t.history = s.history) (index : t.historyIndex ≤ s.historyIndex)
    (cursor : t.cursorPosition ≤ t.buffer.length) (size : t.buffer.length ≤ maxBuffer)
    (printable : ∀ c ∈ t.buffer, Printable c)
    (displays : (screen t).Displays (prompt ++ t.buffer) (prompt.length + t.cursorPosition)) :
    Edits maxBuffer maxHistory t where
  cursor := cursor
  size := size
  displays := displays
  printable := printable
  entries := by
    rw [history]
    exact edits.entries
  index := by
    rw [history]
    exact Nat.le_trans index edits.index
  room := by
    rw [history]
    exact edits.room

theorem moves {cursor : Nat} {message : List UInt8} (inside : cursor ≤ s.buffer.length)
    (displays : ((screen s).write message).Displays (prompt ++ s.buffer) (prompt.length + cursor)) :
    Edits maxBuffer maxHistory { s.print message with cursorPosition := cursor } := by
  refine edits.change rfl (Nat.le_refl _) inside edits.size edits.printable ?_
  rw [← screen_print] at displays
  exact displays

theorem sendBell : Edits maxBuffer maxHistory s.sendBell :=
  edits.moves edits.cursor edits.shown.bell

theorem moveCursorHome : Edits maxBuffer maxHistory s.moveCursorHome := by
  refine edits.change rfl (Nat.le_refl _) (Nat.zero_le _) edits.size edits.printable ?_
  have written := edits.shown.start.write prompt_printable (Nat.zero_le _)
  rw [take_zero, nil_append, Nat.zero_add] at written
  have whole := drop_line s.buffer 0
  rw [Nat.add_zero, drop_zero] at whole
  rw [whole] at written
  rw [TerminalBase.moveCursorHome, screen_print, screen_print]
  exact written

theorem resends (n : Nat) :
    ((screen s).write ((s.buffer.drop s.cursorPosition).take n)).Displays (prompt ++ s.buffer)
      (prompt.length + (s.cursorPosition + ((s.buffer.drop s.cursorPosition).take n).length)) := by
  have part : ∀ c ∈ (s.buffer.drop s.cursorPosition).take n, Printable c := fun c member =>
    edits.printable c (mem_of_mem_drop (mem_of_mem_take member))
  have cursor := edits.cursor
  have written := edits.shown.write part (by rw [length_append]; omega)
  have whole : (prompt ++ s.buffer).take (prompt.length + s.cursorPosition) ++
      (s.buffer.drop s.cursorPosition).take n ++ (prompt ++ s.buffer).drop
        (prompt.length + s.cursorPosition + ((s.buffer.drop s.cursorPosition).take n).length) =
      prompt ++ s.buffer := by
    rw [take_line, Nat.add_assoc, drop_line, ← drop_drop, append_assoc, append_assoc]
    congr 1
    have rest : (s.buffer.drop s.cursorPosition).take n ++
        (s.buffer.drop s.cursorPosition).drop ((s.buffer.drop s.cursorPosition).take n).length =
          s.buffer.drop s.cursorPosition := by
      rw [length_take]
      rcases Nat.le_total n (s.buffer.drop s.cursorPosition).length with shorter | longer
      · rw [Nat.min_eq_left shorter, take_append_drop]
      · rw [Nat.min_eq_right longer, take_of_length_le longer, drop_length, append_nil]
    rw [rest, take_append_drop]
  rw [whole, Nat.add_assoc] at written
  exact written

end

theorem moveCursorEnd (fits : maxBuffer < 2 ^ 32) (edits : Edits maxBuffer maxHistory s) :
    Edits maxBuffer maxHistory s.moveCursorEnd := by
  have size := edits.size
  have cursor := edits.cursor
  have small : s.buffer.length % 2 ^ 32 = s.buffer.length := Nat.mod_eq_of_lt (by omega)
  by_cases before : s.cursorPosition < s.buffer.length
  · have sent := edits.resends s.buffer.length
    rw [take_of_length_le (by rw [length_drop]; omega), length_drop,
      Nat.add_sub_cancel' cursor] at sent
    rw [TerminalBase.moveCursorEnd, if_pos ⟨by omega, before⟩]
    dsimp only [TerminalBase.print]
    rw [small]
    exact edits.moves (Nat.le_refl _) sent
  · have same : s.cursorPosition = s.buffer.length := by omega
    rw [TerminalBase.moveCursorEnd, if_neg (by omega), small, ← same]
    exact edits

theorem moveCursorLeft (edits : Edits maxBuffer maxHistory s) :
    Edits maxBuffer maxHistory s.moveCursorLeft := by
  rw [TerminalBase.moveCursorLeft]
  split
  · next positive =>
    have cursor := edits.cursor
    have left : ((screen s).write [8]).Displays _ _ := edits.shown.back (n := 1)
    rw [Nat.add_sub_assoc positive] at left
    exact edits.moves (by omega) left
  · exact edits.sendBell

theorem moveCursorRight (fits : maxBuffer < 2 ^ 32) (edits : Edits maxBuffer maxHistory s) :
    Edits maxBuffer maxHistory s.moveCursorRight := by
  rw [TerminalBase.moveCursorRight]
  split
  · next c isHere =>
    obtain ⟨inside, value⟩ := List.getElem?_eq_some_iff.mp isHere
    have size := edits.size
    have small : (s.cursorPosition + 1) % 2 ^ 32 = s.cursorPosition + 1 :=
      Nat.mod_eq_of_lt (by omega)
    have one : (s.buffer.drop s.cursorPosition).take 1 = [c] := by
      rw [drop_eq_getElem_cons inside, value]
      rfl
    have sent := edits.resends 1
    rw [one] at sent
    rw [small]
    exact edits.moves inside sent
  · exact edits.sendBell

theorem erases (edits : Edits maxBuffer maxHistory s) (inside : s.cursorPosition < s.buffer.length) :
    Edits maxBuffer maxHistory
      { s.print (s.buffer.drop (s.cursorPosition + 1) ++ [32] ++
          List.replicate (s.buffer.length - s.cursorPosition) 8) with
        buffer := s.buffer.eraseIdx s.cursorPosition } := by
  have shorter := length_eraseIdx_of_lt inside
  have size := edits.size
  have cursor : s.cursorPosition ≤ (s.buffer.eraseIdx s.cursorPosition).length := by omega
  refine edits.change rfl (Nat.le_refl _) cursor (by dsimp only; omega) ?_ ?_
  · exact fun c member => edits.printable c (mem_of_mem_eraseIdx member)
  · have sent : ∀ c ∈ s.buffer.drop (s.cursorPosition + 1) ++ [32], Printable c := by
      intro c member
      rcases mem_append.mp member with rest | single
      · exact edits.printable c (mem_of_mem_drop rest)
      · rw [mem_singleton.mp single]
        exact ⟨by decide, by decide⟩
    have length : (s.buffer.drop (s.cursorPosition + 1) ++ [32]).length =
        s.buffer.length - s.cursorPosition := by
      rw [length_append, length_drop, length_singleton]
      omega
    have nothing : s.buffer.drop (s.cursorPosition + (s.buffer.length - s.cursorPosition)) = [] :=
      drop_of_length_le (by omega)
    have written := edits.shown.write sent (by rw [length_append]; omega)
    rw [take_line, length, Nat.add_assoc, drop_line, nothing, append_nil] at written
    have line : prompt ++ s.buffer.take s.cursorPosition ++
        (s.buffer.drop (s.cursorPosition + 1) ++ [32]) =
          prompt ++ s.buffer.eraseIdx s.cursorPosition ++ List.replicate 1 32 := by
      rw [eraseIdx_eq_take_drop_succ, append_assoc, append_assoc, append_assoc]
      rfl
    rw [line] at written
    have returned := written.of_blanks.back (n := s.buffer.length - s.cursorPosition)
    rw [← Screen.write_append, ← Nat.add_assoc, Nat.add_sub_cancel, ← screen_print] at returned
    exact returned

theorem eraseCharacterUnderCursor (fits : maxBuffer < 2 ^ 32) (edits : Edits maxBuffer maxHistory s)
    (inside : s.cursorPosition < s.buffer.length) :
    KeepsEditing maxBuffer maxHistory s s.eraseCharacterUnderCursor := by
  have size := edits.size
  have shorter := length_eraseIdx_of_lt inside
  have small : (s.buffer.eraseIdx s.cursorPosition).length % 2 ^ 32 - s.cursorPosition + 1 =
      s.buffer.length - s.cursorPosition := by
    rw [Nat.mod_eq_of_lt (by omega)]
    omega
  refine ⟨_, ?_, edits.erases inside, rfl⟩
  have blanks (n : Nat) : [32, 8] ++ List.replicate n 8 = [32] ++ List.replicate (n + 1) (8 : UInt8) := by
    rw [replicate_succ]
    rfl
  have isDropped : (s.buffer.eraseIdx s.cursorPosition).drop s.cursorPosition =
      s.buffer.drop (s.cursorPosition + 1) := by
    rw [eraseIdx_eq_take_drop_succ, drop_append,
      drop_of_length_le (length_take_le _ _), nil_append, length_take,
      Nat.min_eq_left (by omega), Nat.sub_self, drop_zero]
  rw [TerminalBase.eraseCharacterUnderCursor, if_pos inside]
  dsimp only
  by_cases last : s.buffer.length = s.cursorPosition + 1
  · have nothing : s.buffer.drop (s.cursorPosition + 1) = [] := drop_of_length_le (by omega)
    have isLast : s.buffer.dropLast = s.buffer.eraseIdx s.cursorPosition := by
      rw [dropLast_eq_take, last, Nat.add_sub_cancel, eraseIdx_eq_take_drop_succ, nothing,
        append_nil]
    rw [if_pos last, isLast, nothing]
    simp only [TerminalBase.print, append_assoc, blanks, small, nil_append]
  · rw [if_neg last, isDropped]
    simp only [TerminalBase.print, append_assoc, blanks, small]

theorem processDelete (fits : maxBuffer < 2 ^ 32) (edits : Edits maxBuffer maxHistory s) :
    KeepsEditing maxBuffer maxHistory s s.processDelete := by
  rw [TerminalBase.processDelete]
  split
  · next inside => exact edits.eraseCharacterUnderCursor fits inside
  · exact ⟨_, rfl, edits.sendBell, rfl⟩

theorem received_moveCursorLeft (s : TerminalBase) : s.moveCursorLeft.received = s.received := by
  rw [TerminalBase.moveCursorLeft]
  split <;> rfl

section

variable (fits : maxBuffer < 2 ^ 32) (edits : Edits maxBuffer maxHistory s)

include fits edits

theorem processBackspace : KeepsEditing maxBuffer maxHistory s s.processBackspace := by
  rw [TerminalBase.processBackspace, KeepsEditing, ← received_moveCursorLeft s]
  exact edits.moveCursorLeft.processDelete fits

theorem overwriteBuffer {element : List UInt8} {historyIndex : Nat}
    (size : element.length ≤ maxBuffer) (printable : ∀ c ∈ element, Printable c)
    (index : historyIndex ≤ s.history.length) :
    KeepsEditing maxBuffer maxHistory s
      ({ s with historyIndex := historyIndex }.overwriteBuffer maxBuffer element) := by
  refine ⟨{ s with
    buffer := element
    historyIndex := historyIndex
    cursorPosition := element.length
    output := s.output ++ ([13] ++ (prompt ++ element ++
      List.replicate (s.buffer.length - element.length) 32) ++
        List.replicate (s.buffer.length - element.length) 8) }, ?_, ?_, rfl⟩
  · rw [TerminalBase.overwriteBuffer, if_pos size]
    cases element with
    | nil => simp [TerminalBase.print]
    | cons c rest =>
      have short : rest.length + 1 < 4294967296 := by
        rw [length_cons] at size
        omega
      simp [TerminalBase.print, short]
  · have sent : ∀ c ∈ prompt ++ element ++ List.replicate (s.buffer.length - element.length) 32,
        Printable c := by
      intro c member
      rcases mem_append.mp member with text | blanks
      · rcases mem_append.mp text with isPrompt | isElement
        · exact prompt_printable c isPrompt
        · exact printable c isElement
      · rw [(mem_replicate.mp blanks).2]
        exact ⟨by decide, by decide⟩
    have written := edits.shown.start.write sent (Nat.zero_le _)
    rw [take_zero, nil_append, Nat.zero_add, drop_of_length_le (by
      simp only [length_append, length_replicate]
      omega), append_nil] at written
    have returned := written.of_blanks.back (n := s.buffer.length - element.length)
    have length : (prompt ++ element ++ List.replicate (s.buffer.length - element.length) 32).length -
        (s.buffer.length - element.length) = prompt.length + element.length := by
      simp only [length_append, length_replicate]
      omega
    rw [length, ← Screen.write_append, ← Screen.write_append] at returned
    refine ⟨⟨Nat.le_refl _, size, ?_⟩, printable, edits.entries, index, edits.room⟩
    rw [Screen.write_append]
    exact returned

theorem clears :
    KeepsEditing maxBuffer maxHistory s (s.overwriteBuffer maxBuffer []) :=
  edits.overwriteBuffer fits (Nat.zero_le _) (fun _ member => nomatch member) edits.index

theorem historyForward :
    KeepsEditing maxBuffer maxHistory s (s.historyForward maxBuffer) := by
  rw [TerminalBase.historyForward]
  split
  · next more =>
    have inside : (s.historyIndex + 1) % 2 ^ 32 < s.history.length := by
      have below := Nat.mod_le (s.historyIndex + 1) (2 ^ 32)
      omega
    have entry := edits.entries _ (getElem_mem inside)
    dsimp only
    rw [getElem?_eq_getElem inside, Option.bind_some]
    exact edits.overwriteBuffer fits entry.1 entry.2 (Nat.le_of_lt inside)
  · exact edits.clears fits

theorem historyBackward :
    KeepsEditing maxBuffer maxHistory s (s.historyBackward maxBuffer) := by
  rw [TerminalBase.historyBackward]
  split
  · next positive =>
    have index := edits.index
    have inside : s.historyIndex - 1 < s.history.length := by omega
    have entry := edits.entries _ (getElem_mem inside)
    dsimp only
    rw [getElem?_eq_getElem inside, Option.bind_some]
    exact edits.overwriteBuffer fits entry.1 entry.2 (Nat.le_of_lt inside)
  · exact ⟨_, rfl, edits.sendBell, rfl⟩

end

theorem newLine (screen_ : Screen) :
    ((screen_.write [13, 10]).write prompt).Displays (prompt ++ []) (prompt.length + 0) := by
  have written := (Screen.displays_feed screen_).write prompt_printable (Nat.le_refl 0)
  rw [take_nil, nil_append, drop_nil] at written
  exact written

theorem storeHistory (room : s.history.length ≤ maxHistory) (some_ : 0 < maxHistory)
    (element : List UInt8) :
    ∃ history, s.storeHistory maxHistory element =
        some { s with history := history, historyIndex := history.length % 2 ^ 32 } ∧
      history.length ≤ maxHistory ∧ ∀ entry ∈ history, entry = element ∨ entry ∈ s.history := by
  rw [TerminalBase.storeHistory]
  by_cases full : s.history.length = maxHistory
  · have notEmpty : s.history.isEmpty = false := by
      rw [isEmpty_eq_false_iff]
      rintro nothing
      rw [nothing] at full
      exact absurd full (Nat.ne_of_lt some_)
    have shorter : s.history.tail.length < maxHistory := by
      rw [length_tail]
      omega
    refine ⟨s.history.tail ++ [element], ?_, ?_, ?_⟩
    · rw [if_pos full, notEmpty]
      exact if_pos shorter
    · rw [length_append, length_singleton]
      omega
    · intro entry member
      rcases mem_append.mp member with old | new
      · exact .inr (mem_of_mem_tail old)
      · exact .inl (mem_singleton.mp new)
  · refine ⟨s.history ++ [element], ?_, ?_, ?_⟩
    · rw [if_neg full, Option.bind_some]
      exact if_pos (by omega)
    · rw [length_append, length_singleton]
      omega
    · intro entry member
      rcases mem_append.mp member with old | new
      · exact .inr old
      · exact .inl (mem_singleton.mp new)

theorem processEnter (edits : Edits maxBuffer maxHistory s)
    (some_ : s.buffer ≠ [] → 0 < maxHistory) :
    MayReceive maxBuffer maxHistory s (s.processEnter maxHistory) := by
  have displays := newLine (screen s)
  rw [← screen_print, ← screen_print] at displays
  by_cases nothing : 0 < (s.print [13, 10]).buffer.length
  · have notEmpty : s.buffer ≠ [] := length_pos_iff.mp nothing
    have kept : (s.print [13, 10]).history.length ≤ maxHistory := edits.room
    obtain ⟨history, stores, room, entries⟩ := storeHistory kept (some_ notEmpty) s.buffer
    simp only [TerminalBase.processEnter]
    rw [if_pos nothing, show (s.print [13, 10]).buffer = s.buffer from rfl, stores]
    refine ⟨_, rfl, ⟨⟨Nat.le_refl _, Nat.zero_le _, displays⟩, (fun _ member => nomatch member), ?_,
      Nat.mod_le _ _, room⟩, .inr rfl⟩
    intro entry member
    rcases entries entry member with rfl | old
    · exact ⟨edits.size, edits.printable⟩
    · exact edits.entries entry old
  · simp only [TerminalBase.processEnter]
    rw [if_neg nothing]
    exact ⟨_, rfl, ⟨⟨Nat.le_refl _, Nat.zero_le _, displays⟩, (fun _ member => nomatch member),
      edits.entries, edits.index, edits.room⟩, .inl rfl⟩

theorem sendPrintable (fits : maxBuffer < 2 ^ 32) (edits : Edits maxBuffer maxHistory s)
    (printable : Printable c) (room : s.buffer.length < maxBuffer)
    (place : s.cursorPosition = s.buffer.length ∨
      c = 32 ∧ s.buffer[s.cursorPosition]? = some 32) :
    KeepsEditing maxBuffer maxHistory s (s.sendNonEscapeChar maxBuffer c) := by
  have cursor := edits.cursor
  have small : (s.cursorPosition + 1) % 2 ^ 32 = s.cursorPosition + 1 := Nat.mod_eq_of_lt (by omega)
  have kept : (s.print [c]).buffer.length ≠ maxBuffer := Nat.ne_of_lt room
  rw [TerminalBase.sendNonEscapeChar, if_pos (show 31 < c ∧ c < 127 from printable)]
  dsimp only
  rw [if_pos kept]
  refine ⟨_, rfl, ?_, rfl⟩
  have all : ∀ d ∈ s.buffer ++ [c], Printable d := by
    intro d member
    rcases mem_append.mp member with old | new
    · exact edits.printable d old
    · exact mem_singleton.mp new ▸ printable
  have inside : (s.cursorPosition + 1) % 2 ^ 32 ≤ (s.buffer ++ [c]).length := by
    rw [small, length_append, length_singleton]
    omega
  have size : (s.buffer ++ [c]).length ≤ maxBuffer := by
    rw [length_append, length_singleton]
    omega
  refine edits.change rfl (Nat.le_refl _) inside size all ?_
  have written := edits.shown.put printable (by rw [length_append]; omega)
  have line : (prompt ++ s.buffer).take (prompt.length + s.cursorPosition) ++
      c :: (prompt ++ s.buffer).drop (prompt.length + s.cursorPosition + 1) =
        prompt ++ (s.buffer.take s.cursorPosition ++ c :: s.buffer.drop (s.cursorPosition + 1)) := by
    rw [take_line, Nat.add_assoc, drop_line, append_assoc]
  rw [line, Nat.add_assoc] at written
  have shows_ : ((screen s).put c).Displays (prompt ++ (s.buffer ++ [c]))
      (prompt.length + (s.cursorPosition + 1)) := by
    rcases place with atEnd | ⟨rfl, over_⟩
    · have nothing : s.buffer.drop (s.cursorPosition + 1) = [] := drop_of_length_le (by omega)
      rw [nothing, atEnd, take_length] at written
      rw [atEnd]
      exact written
    · obtain ⟨within, value⟩ := List.getElem?_eq_some_iff.mp over_
      have same : s.buffer.take s.cursorPosition ++ 32 :: s.buffer.drop (s.cursorPosition + 1) =
          s.buffer := by
        rw [← value, ← drop_eq_getElem_cons within, take_append_drop]
      rw [same] at written
      refine ⟨written.1, fun i => ?_⟩
      rw [written.2 i, ← append_assoc]
      exact (Screen.getD_blanks (prompt ++ s.buffer) 1 i).symm
  change (screen (s.print [c])).Displays _ (prompt.length + (s.cursorPosition + 1) % 2 ^ 32)
  rw [screen_print, small]
  exact shows_

theorem escapes (edits : Edits maxBuffer maxHistory s) (processing : Bool) :
    Edits maxBuffer maxHistory { s with processingEscapeSequence := processing } :=
  ⟨⟨edits.cursor, edits.size, edits.displays⟩, edits.printable, edits.entries, edits.index,
    edits.room⟩

theorem received_moveCursorEnd (s : TerminalBase) : s.moveCursorEnd.received = s.received := by
  rw [TerminalBase.moveCursorEnd]
  split <;> rfl

theorem received_moveCursorRight (s : TerminalBase) : s.moveCursorRight.received = s.received := by
  rw [TerminalBase.moveCursorRight]
  split <;> rfl

theorem processEscapeSequence (fits : maxBuffer < 2 ^ 32) (edits : Edits maxBuffer maxHistory s)
    (c : UInt8) :
    ∃ t again, s.processEscapeSequence maxBuffer c = some (t, again) ∧
      Edits maxBuffer maxHistory t ∧ t.received = s.received := by
  have ends {outcome : Option TerminalBase}
      (kept : KeepsEditing maxBuffer maxHistory s outcome) :
      ∃ t again, outcome.map (·, false) = some (t, again) ∧ Edits maxBuffer maxHistory t ∧
        t.received = s.received := by
    obtain ⟨t, isSome, kept⟩ := kept
    exact ⟨t, false, by rw [isSome, Option.map_some], kept⟩
  unfold TerminalBase.processEscapeSequence
  split
  · exact ⟨s, true, rfl, edits, rfl⟩
  · apply ends
    split
    · exact edits.historyBackward fits
    · exact edits.historyForward fits
    · exact ⟨_, rfl, edits.moveCursorRight fits, received_moveCursorRight s⟩
    · exact ⟨_, rfl, edits.moveCursorLeft, received_moveCursorLeft s⟩
    · exact ⟨_, rfl, edits.moveCursorEnd fits, received_moveCursorEnd s⟩
    · exact ⟨_, rfl, edits.moveCursorHome, rfl⟩
    · exact ⟨_, rfl, edits.sendBell, rfl⟩

theorem handleNonEscapeChar (fits : maxBuffer < 2 ^ 32) (edits : Edits maxBuffer maxHistory s)
    (c : UInt8)
    (room : 31 < c → c < 127 → s.buffer.length < maxBuffer ∧
      (s.cursorPosition = s.buffer.length ∨ c = 32 ∧ s.buffer[s.cursorPosition]? = some 32))
    (some_ : c = 13 → s.buffer ≠ [] → 0 < maxHistory) :
    MayReceive maxBuffer maxHistory s (s.handleNonEscapeChar maxBuffer maxHistory c) := by
  have silent {outcome : Option TerminalBase}
      (kept : KeepsEditing maxBuffer maxHistory s outcome) :
      MayReceive maxBuffer maxHistory s outcome := by
    obtain ⟨t, isSome, next, received⟩ := kept
    exact ⟨t, isSome, next, .inl received⟩
  unfold TerminalBase.handleNonEscapeChar
  split
  · exact silent ⟨s, rfl, edits, rfl⟩
  · exact edits.processEnter (some_ rfl)
  · exact silent ⟨_, rfl, edits.escapes true, rfl⟩
  · exact silent (edits.processBackspace fits)
  · exact silent (edits.processBackspace fits)
  · exact silent ⟨_, rfl, edits.moveCursorHome, rfl⟩
  · exact silent ⟨_, rfl, edits.moveCursorLeft, received_moveCursorLeft s⟩
  · exact silent (edits.clears fits)
  · exact silent (edits.processDelete fits)
  · exact silent ⟨_, rfl, edits.moveCursorEnd fits, received_moveCursorEnd s⟩
  · exact silent ⟨_, rfl, edits.moveCursorRight fits, received_moveCursorRight s⟩
  · exact silent (edits.historyForward fits)
  · exact silent (edits.historyBackward fits)
  · apply silent
    by_cases printable : 31 < c ∧ c < 127
    · have ⟨fits', place⟩ := room printable.1 printable.2
      exact edits.sendPrintable fits printable fits' place
    · rw [TerminalBase.sendNonEscapeChar, if_neg printable]
      exact ⟨_, rfl, edits.sendBell, rfl⟩

theorem handleChar (fits : maxBuffer < 2 ^ 32) (edits : Edits maxBuffer maxHistory s)
    (meets : Meets maxBuffer maxHistory s c) :
    MayReceive maxBuffer maxHistory s (s.handleChar maxBuffer maxHistory c) := by
  rw [TerminalBase.handleChar]
  split
  · obtain ⟨t, again, processes, next, received⟩ := edits.processEscapeSequence fits c
    rw [processes]
    exact ⟨_, rfl, next.escapes again, .inl received⟩
  · next notProcessing =>
    have ⟨room, some_⟩ := meets ((Bool.not_eq_true _).mp notProcessing)
    exact edits.handleNonEscapeChar fits c room some_

theorem over_blank (edits : Edits maxBuffer maxHistory s) (printable : Printable c)
    (before : s.cursorPosition < s.buffer.length) {cursor : Nat}
    (displays : ((screen s).put c).Displays (prompt ++ (s.buffer ++ [c])) cursor) :
    c = 32 ∧ s.buffer[s.cursorPosition]? = some 32 := by
  have written := edits.shown.put printable (by rw [length_append]; omega)
  have seen : ∀ i, ((prompt ++ s.buffer).take (prompt.length + s.cursorPosition) ++
      c :: (prompt ++ s.buffer).drop (prompt.length + s.cursorPosition + 1)).getD i 32 =
        (prompt ++ (s.buffer ++ [c])).getD i 32 := fun i => (written.2 i).symm.trans (displays.2 i)
  rw [take_line, Nat.add_assoc, drop_line, append_assoc] at seen
  have inLine (text : List UInt8) (k : Nat) :
      (prompt ++ text).getD (prompt.length + k) 32 = text.getD k 32 := by
    rw [getD_eq_getElem?_getD, getElem?_append_right (Nat.le_add_right _ _),
      Nat.add_sub_cancel_left, getD_eq_getElem?_getD]
  have length : (s.buffer.take s.cursorPosition).length = s.cursorPosition := by
    rw [length_take]
    omega
  have isBlank : c = 32 := by
    have atEnd := seen (prompt.length + s.buffer.length)
    rw [inLine, inLine, getD_eq_getElem?_getD, getD_eq_getElem?_getD,
      getElem?_append_right (Nat.le_refl _), Nat.sub_self, getElem?_eq_none (by
        simp only [length_append, length, length_cons, length_drop]
        omega)] at atEnd
    exact atEnd.symm
  have here := seen (prompt.length + s.cursorPosition)
  rw [inLine, inLine, getD_eq_getElem?_getD, getD_eq_getElem?_getD,
    getElem?_append_right (by omega), length, Nat.sub_self, getElem?_append_left before,
    getElem?_eq_getElem before] at here
  refine ⟨isBlank, ?_⟩
  rw [getElem?_eq_getElem before, ← isBlank]
  exact congrArg some here.symm

theorem handle_printable (printable : Printable c)
    (notProcessing : s.processingEscapeSequence = false) :
    s.handleChar maxBuffer maxHistory c = s.sendNonEscapeChar maxBuffer c := by
  obtain ⟨above, below⟩ := printable
  rw [TerminalBase.handleChar, notProcessing]
  change s.handleNonEscapeChar maxBuffer maxHistory c = _
  unfold TerminalBase.handleNonEscapeChar
  split
  all_goals first
    | rfl
    | exact absurd above (by decide)
    | exact absurd below (by decide)

theorem consistent_not (edits : Edits maxBuffer maxHistory s)
    (meetsNot : ¬Meets maxBuffer maxHistory s c)
    (handles : s.handleChar maxBuffer maxHistory c = some t) :
    ¬Consistent maxBuffer t := by
  intro consistent
  apply meetsNot
  intro notProcessing
  constructor
  · intro above below
    rw [handle_printable ⟨above, below⟩ notProcessing, TerminalBase.sendNonEscapeChar,
      if_pos ⟨above, below⟩] at handles
    by_cases full : s.buffer.length = maxBuffer
    · have asserts : ¬(s.print [c]).buffer.length ≠ maxBuffer := not_not_intro full
      cases (if_neg asserts).symm.trans handles
    · have kept : (s.print [c]).buffer.length ≠ maxBuffer := full
      obtain rfl := Option.some.inj ((if_pos kept).symm.trans handles)
      refine ⟨Nat.lt_of_le_of_ne edits.size full, ?_⟩
      rcases Nat.lt_or_eq_of_le edits.cursor with before | atEnd
      · have displays := consistent.displays
        change (screen (s.print [c])).Displays _ _ at displays
        rw [screen_print] at displays
        exact .inr (edits.over_blank ⟨above, below⟩ before displays)
      · exact .inl atEnd
  · rintro rfl some_
    by_contra none_
    have empty : s.history = [] := eq_nil_of_length_eq_zero (by have := edits.room; omega)
    have stores : (s.print [13, 10]).storeHistory maxHistory s.buffer = none := by
      rw [TerminalBase.storeHistory, show (s.print [13, 10]).history = [] from empty]
      rw [if_pos (by rw [length_nil]; omega)]
      rfl
    have notEmpty : 0 < (s.print [13, 10]).buffer.length := length_pos_iff.mpr some_
    rw [TerminalBase.handleChar, notProcessing] at handles
    change s.processEnter maxHistory = some t at handles
    simp only [TerminalBase.processEnter] at handles
    rw [if_pos notEmpty, show (s.print [13, 10]).buffer = s.buffer from rfl, stores] at handles
    cases handles

end Edits

theorem edits_construct : Edits maxBuffer maxHistory construct where
  cursor := Nat.le_refl _
  size := Nat.zero_le _
  displays := by
    have start : Screen.blank.Displays [] 0 := ⟨rfl, fun _ => rfl⟩
    have written := start.write prompt_printable (Nat.le_refl 0)
    rw [take_nil, nil_append, drop_nil] at written
    exact written
  printable _ member := nomatch member
  entries _ member := nomatch member
  index := Nat.le_refl _
  room := Nat.zero_le _

/-- In every run the terminal displays what it executes if and only if every printable character
finds room and is typed at the end of the line, or as a blank over a blank. -/
theorem shows_its_line_iff (fits : maxBuffer < 2 ^ 32) (input : List UInt8) :
    ShowsItsLine maxBuffer maxHistory construct input ↔
      AlwaysMeets maxBuffer maxHistory construct input := by
  have all (s : TerminalBase) (edits : Edits maxBuffer maxHistory s) :
      ShowsItsLine maxBuffer maxHistory s input ↔ AlwaysMeets maxBuffer maxHistory s input := by
    induction input generalizing s with
    | nil => exact ⟨fun _ => trivial, fun _ => edits.toConsistent⟩
    | cons c rest ih =>
      constructor
      · intro ⟨_, t, handles, _, later⟩
        have meets : Meets maxBuffer maxHistory s c := by
          by_contra meetsNot
          apply edits.consistent_not meetsNot handles
          cases rest with
          | nil => exact later
          | cons d rest => exact later.1
        refine ⟨meets, fun u handlesToo => ?_⟩
        obtain rfl := Option.some.inj (handles.symm.trans handlesToo)
        obtain ⟨u, again, next, -⟩ := edits.handleChar fits meets
        obtain rfl := Option.some.inj (handles.symm.trans again)
        exact (ih _ next).mp later
      · intro ⟨meets, later⟩
        obtain ⟨t, handles, next, received⟩ := edits.handleChar fits meets
        refine ⟨edits.toConsistent, t, handles, ?_, (ih t next).mpr (later t handles)⟩
        intro data added
        rcases received with same | more
        · rw [same] at added
          exact absurd added (by simp)
        · rw [more] at added
          obtain ⟨rfl, -⟩ := List.cons.inj (append_cancel_left added)
          exact edits.displays.2
  exact all construct edits_construct

/-- "ab", backspace, cursor home, cursor end, "c", enter, previous command. -/
theorem shows_its_line_edited :
    ShowsItsLine 8 2 construct [97, 98, 8, 1, 5, 99, 13, 16] :=
  (shows_its_line_iff (by decide) [97, 98, 8, 1, 5, 99, 13, 16]).mpr (by decide)

/-- "a", cursor left, "b": the terminal displays "b", and the buffer is "ab". -/
theorem displays_other_line : ¬∀ input, ShowsItsLine 8 2 construct input := by
  intro all
  obtain ⟨-, s, types, -, -, t, moves, -, -, u, inserts, -, consistent⟩ := all [97, 2, 98]
  cases types
  cases moves
  cases inserts
  exact absurd (consistent.displays.2 2) (by decide)

end Terminals
