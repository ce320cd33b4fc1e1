import Mathlib.Algebra.Group.Nat.Defs

/-! The line editor of `TerminalBase`, and the line that a terminal makes of its output. A step on
which an assertion fails has no result. -/

namespace Terminals

/-- The characters sent to the tracer so far, and the texts that were given to `OnData`, are kept
beside the members. -/
structure TerminalBase where
  buffer : List UInt8 := []
  history : List (List UInt8) := []
  processingEscapeSequence : Bool := false
  cursorPosition : Nat := 0
  historyIndex : Nat := 0
  output : List UInt8 := []
  received : List (List UInt8) := []
  deriving DecidableEq

/-- "> " -/
def prompt : List UInt8 := [62, 32]

namespace TerminalBase

variable (s : TerminalBase)

/-- `tracer.Continue() << message` -/
def print (message : List UInt8) : TerminalBase :=
  { s with output := s.output ++ message }

def sendBell : TerminalBase := s.print [7]

def eraseCharacterUnderCursor : Option TerminalBase :=
  if s.cursorPosition < s.buffer.length then
    let s :=
      if s.buffer.length = s.cursorPosition + 1 then { s with buffer := s.buffer.dropLast }
      else
        let s := { s with buffer := s.buffer.eraseIdx s.cursorPosition }
        s.print (s.buffer.drop s.cursorPosition)
    let s := s.print [32, 8]
    some (s.print (List.replicate (s.buffer.length % 2 ^ 32 - s.cursorPosition) 8))
  else none

def moveCursorHome : TerminalBase :=
  ({ s with cursorPosition := 0 }.print [13]).print prompt

def moveCursorEnd : TerminalBase :=
  let s :=
    if 0 < s.buffer.length ∧ s.cursorPosition < s.buffer.length then
      s.print (s.buffer.drop s.cursorPosition)
    else s
  { s with cursorPosition := s.buffer.length % 2 ^ 32 }

def moveCursorLeft : TerminalBase :=
  if 0 < s.cursorPosition then { s.print [8] with cursorPosition := s.cursorPosition - 1 }
  else s.sendBell

def moveCursorRight : TerminalBase :=
  match s.buffer[s.cursorPosition]? with
  | some c => { s.print [c] with cursorPosition := (s.cursorPosition + 1) % 2 ^ 32 }
  | none => s.sendBell

def processDelete : Option TerminalBase :=
  if s.cursorPosition < s.buffer.length then s.eraseCharacterUnderCursor else some s.sendBell

def processBackspace : Option TerminalBase := s.moveCursorLeft.processDelete

variable (maxBuffer maxHistory : Nat)

def overwriteBuffer (element : List UInt8) : Option TerminalBase :=
  let previousSize := s.buffer.length
  if element.length ≤ maxBuffer then
    let s := ({ s with buffer := element }.print [13]).print prompt
    let s := if 0 < s.buffer.length then s.print s.buffer else s
    let s := s.print (List.replicate (previousSize - s.buffer.length) 32)
    let s := s.print (List.replicate (previousSize - s.buffer.length) 8)
    some { s with cursorPosition := s.buffer.length % 2 ^ 32 }
  else none

def storeHistory (element : List UInt8) : Option TerminalBase :=
  let popped :=
    if s.history.length = maxHistory then
      if s.history.isEmpty then none else some { s with history := s.history.tail }
    else some s
  popped.bind fun s =>
    if s.history.length < maxHistory then
      let history := s.history ++ [element]
      some { s with history := history, historyIndex := history.length % 2 ^ 32 }
    else none

def historyForward : Option TerminalBase :=
  if ¬s.history.isEmpty ∧ s.historyIndex < s.history.length - 1 then
    let s := { s with historyIndex := (s.historyIndex + 1) % 2 ^ 32 }
    s.history[s.historyIndex]?.bind (s.overwriteBuffer maxBuffer)
  else s.overwriteBuffer maxBuffer []

def historyBackward : Option TerminalBase :=
  if 0 < s.historyIndex then
    let s := { s with historyIndex := s.historyIndex - 1 }
    s.history[s.historyIndex]?.bind (s.overwriteBuffer maxBuffer)
  else some s.sendBell

/-- `OnData` of the base class does nothing. -/
def onData (data : List UInt8) : TerminalBase :=
  { s with received := s.received ++ [data] }

def processEnter : Option TerminalBase :=
  let s := s.print [13, 10]
  let stored :=
    if 0 < s.buffer.length then (s.storeHistory maxHistory s.buffer).map fun s => s.onData s.buffer
    else some s
  stored.map fun s => { s with buffer := [], cursorPosition := 0 }.print prompt

def sendNonEscapeChar (c : UInt8) : Option TerminalBase :=
  if 31 < c ∧ c < 127 then
    let s := s.print [c]
    if s.buffer.length ≠ maxBuffer then
      some { s with
        buffer := s.buffer ++ [c], cursorPosition := (s.cursorPosition + 1) % 2 ^ 32 }
    else none
  else some s.sendBell

def handleNonEscapeChar (c : UInt8) : Option TerminalBase :=
  match c with
  | 10 => some s
  | 13 => s.processEnter maxHistory
  | 27 => some { s with processingEscapeSequence := true }
  | 8 | 127 => s.processBackspace
  | 1 => some s.moveCursorHome
  | 2 => some s.moveCursorLeft
  | 3 => s.overwriteBuffer maxBuffer []
  | 4 => s.processDelete
  | 5 => some s.moveCursorEnd
  | 6 => some s.moveCursorRight
  | 14 => s.historyForward maxBuffer
  | 16 => s.historyBackward maxBuffer
  | c => s.sendNonEscapeChar maxBuffer c

/-- ";[O0123456789" -/
def ignoredEscapeCharacters : List UInt8 := [59, 91, 79, 48, 49, 50, 51, 52, 53, 54, 55, 56, 57]

/-- The state, and whether the sequence goes on. -/
def processEscapeSequence (c : UInt8) : Option (TerminalBase × Bool) :=
  if ignoredEscapeCharacters.contains c then some (s, true)
  else
    Option.map (·, false) <| match c with
      | 65 => s.historyBackward maxBuffer
      | 66 => s.historyForward maxBuffer
      | 67 => some s.moveCursorRight
      | 68 => some s.moveCursorLeft
      | 70 => some s.moveCursorEnd
      | 72 => some s.moveCursorHome
      | _ => some s.sendBell

def handleChar (c : UInt8) : Option TerminalBase :=
  if s.processingEscapeSequence then
    (s.processEscapeSequence maxBuffer c).map fun (s, again) =>
      { s with processingEscapeSequence := again }
  else s.handleNonEscapeChar maxBuffer maxHistory c

end TerminalBase

def construct : TerminalBase := ({} : TerminalBase).print prompt

/-- The line of a terminal that the cursor is in, with blanks where nothing was written. -/
structure Screen where
  line : Nat → UInt8
  cursor : Nat

namespace Screen

def blank : Screen where
  line _ := 32
  cursor := 0

variable (screen : Screen)

/-- How a terminal interprets a character. -/
def put (c : UInt8) : Screen :=
  match c with
  | 7 => screen
  | 8 => { screen with cursor := screen.cursor - 1 }
  | 10 => { screen with line := fun _ => 32 }
  | 13 => { screen with cursor := 0 }
  | c => { line := fun i => if i = screen.cursor then c else screen.line i, cursor := screen.cursor + 1 }

def write (text : List UInt8) : Screen := text.foldl put screen

def Displays (text : List UInt8) (cursor : Nat) : Prop :=
  screen.cursor = cursor ∧ ∀ i, screen.line i = text.getD i 32

end Screen

/-- The cursor is in the buffer, and the terminal displays the prompt and the buffer. -/
structure Consistent (maxBuffer : Nat) (s : TerminalBase) : Prop where
  cursor : s.cursorPosition ≤ s.buffer.length
  size : s.buffer.length ≤ maxBuffer
  displays : (Screen.blank.write s.output).Displays (prompt ++ s.buffer)
    (prompt.length + s.cursorPosition)

/-- After every character the state is consistent, and what it gave to `OnData` was displayed. -/
def ShowsItsLine (maxBuffer maxHistory : Nat) : TerminalBase → List UInt8 → Prop
  | s, [] => Consistent maxBuffer s
  | s, c :: rest =>
    Consistent maxBuffer s ∧ ∃ t, s.handleChar maxBuffer maxHistory c = some t ∧
      (∀ data, t.received = s.received ++ [data] →
        ∀ i, (Screen.blank.write s.output).line i = (prompt ++ data).getD i 32) ∧
      ShowsItsLine maxBuffer maxHistory t rest

/-- A printable character finds room in the buffer, and is typed at its end or is a blank typed over
a blank; a command finds room in the history. -/
def Meets (maxBuffer maxHistory : Nat) (s : TerminalBase) (c : UInt8) : Prop :=
  s.processingEscapeSequence = false →
    (31 < c → c < 127 → s.buffer.length < maxBuffer ∧
      (s.cursorPosition = s.buffer.length ∨ c = 32 ∧ s.buffer[s.cursorPosition]? = some 32)) ∧
    (c = 13 → s.buffer ≠ [] → 0 < maxHistory)

/-- Every character meets this condition in the state that it is handled in. -/
def AlwaysMeets (maxBuffer maxHistory : Nat) : TerminalBase → List UInt8 → Prop
  | _, [] => True
  | s, c :: rest =>
    Meets maxBuffer maxHistory s c ∧
      ∀ t, s.handleChar maxBuffer maxHistory c = some t → AlwaysMeets maxBuffer maxHistory t rest

instance (maxBuffer maxHistory : Nat) (s : TerminalBase) (c : UInt8) :
    Decidable (Meets maxBuffer maxHistory s c) :=
  inferInstanceAs (Decidable (_ = _ → (_ → _ → _ ∧ (_ ∨ _ ∧ _)) ∧ (_ → _ → _)))

instance decidableAlwaysMeets (maxBuffer maxHistory : Nat) :
    ∀ s input, Decidable (AlwaysMeets maxBuffer maxHistory s input)
  | _, [] => isTrue trivial
  | s, c :: rest =>
    match handles : s.handleChar maxBuffer maxHistory c with
    | none => decidable_of_iff (Meets maxBuffer maxHistory s c)
        ⟨fun meets => ⟨meets, fun _ again => nomatch handles.symm.trans again⟩, And.left⟩
    | some t =>
      have := decidableAlwaysMeets maxBuffer maxHistory t rest
      decidable_of_iff (Meets maxBuffer maxHistory s c ∧ AlwaysMeets maxBuffer maxHistory t rest)
        ⟨fun ⟨meets, later⟩ => ⟨meets, fun _ again =>
          Option.some.inj (handles.symm.trans again) ▸ later⟩,
          fun ⟨meets, later⟩ => ⟨meets, later t handles⟩⟩

end Terminals
