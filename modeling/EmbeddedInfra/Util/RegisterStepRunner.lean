import Mathlib.Tactic

/-! `RegisterStepRunner`, with the bus, the timer and the event dispatcher that it waits for, and
the application that calls it. -/

namespace RegisterSteps

abbrev Bytes := List UInt8

inductive Step
  | writeRegister (address value : UInt8)
  | writeBurst (address : UInt8) (data : Bytes)
  | readBurst (address : UInt8) (size : Nat)
  | modifyRegister (address clearMask setMask : UInt8)
  | delay (duration : Nat)
  | invoke
  | await
  deriving DecidableEq

/-- What a step asks of the bus, the timer or the application. -/
inductive Request
  | write (address : UInt8) (data : Bytes)
  | read (address : UInt8) (size : Nat)
  | startTimer (duration : Nat)
  | action
  deriving DecidableEq

/-- A request of a step; a modification makes a second one. -/
structure Performed where
  index : Nat
  stage : Nat
  request : Request
  deriving DecidableEq

/-- What has become of a run: its requests, how many there were when it was aborted, and how often
`onDone` was called for it. -/
structure Run where
  steps : List Step
  performed : List Performed
  aborted : Option Nat
  done : Nat
  deriving DecidableEq

inductive Callback
  | guarded
  | modify
  deriving DecidableEq

/-- The functions of the application that have been called and have not returned. -/
inductive Frame
  | invoke
  | await
  | done
  deriving DecidableEq

/-- The runner, what was issued and not delivered with the run that issued it, and all runs, the
latest one first. -/
structure Runner where
  steps : List Step := []
  onDone : Option Nat := none
  current : Nat := 0
  callbacksOutstanding : UInt8 := 0
  modifyAddress : UInt8 := 0
  modifyClearMask : UInt8 := 0
  modifySetMask : UInt8 := 0
  running : Bool := false
  callbacks : List (Nat × Callback) := []
  timer : Option Nat := none
  events : List Nat := []
  stack : List Frame := []
  runs : List Run := []
  deriving DecidableEq

def maxSteps : Nat := 20

inductive Event
  | load (steps : List Step)
  | start
  | abort
  | continue_
  | returns
  | busCallback (index : Nat) (modifyValue : UInt8)
  | timerExpires
  | event
  deriving DecidableEq

namespace Runner

variable (s : Runner)

def busy : Bool := s.running || s.callbacksOutstanding != 0

def perform (stage : Nat) (request : Request) : Runner :=
  { s with
    runs := s.runs.modifyHead fun run =>
      { run with performed := run.performed ++ [{ index := s.current, stage, request }] } }

def issue (callback : Callback) : Runner :=
  { s with
    callbacksOutstanding := s.callbacksOutstanding + 1
    callbacks := s.callbacks ++ [(s.runs.length, callback)] }

def complete : Runner :=
  { s with
    callbacksOutstanding := s.callbacksOutstanding + 1
    events := s.events ++ [s.runs.length] }

def execute : Step → Runner
  | .writeRegister address value => (s.perform 0 (.write address [value])).issue .guarded
  | .writeBurst address data => (s.perform 0 (.write address data)).issue .guarded
  | .readBurst address size => (s.perform 0 (.read address size)).issue .guarded
  | .modifyRegister address clearMask setMask =>
    ({ s with
        modifyAddress := address
        modifyClearMask := clearMask
        modifySetMask := setMask }.perform 0 (.read address 1)).issue .modify
  | .delay duration =>
    { s.perform 0 (.startTimer duration) with
      callbacksOutstanding := s.callbacksOutstanding + 1
      timer := some s.runs.length }
  | .invoke => { s.perform 0 .action with stack := .invoke :: s.stack }
  | .await => { s.perform 0 .action with stack := .await :: s.stack }

def executeCurrentStep : Runner :=
  match s.steps[s.current]? with
  | none => s.complete
  | some step => s.execute step

def advance : Runner :=
  if s.running then { s with current := s.current + 1 }.executeCurrentStep else s

def start : Runner :=
  { s with
    onDone := some (s.runs.length + 1)
    current := 0
    running := true
    runs := { steps := s.steps, performed := [], aborted := none, done := 0 } :: s.runs
    }.executeCurrentStep

/-- A run that is aborted while it has not been completed. -/
def abort : Runner :=
  { s with
    running := false
    onDone := none
    timer := none
    runs :=
      if s.running then
        s.runs.modifyHead fun run => { run with aborted := some run.performed.length }
      else s.runs }

/-- The bus calls a callback back; a read has put a value into `modifyValue`. -/
def deliver (modifyValue : UInt8) (callback : Callback) : Runner :=
  let s := { s with callbacksOutstanding := s.callbacksOutstanding - 1 }
  match callback with
  | .guarded => s.advance
  | .modify =>
    if s.running then
      (s.perform 1 (.write s.modifyAddress
        [(modifyValue &&& ~~~s.modifyClearMask) ||| s.modifySetMask])).issue .guarded
    else s

def completed : Runner :=
  let s := { s with callbacksOutstanding := s.callbacksOutstanding - 1, running := false }
  match s.onDone with
  | none => s
  | some run =>
    { s with
      onDone := none
      stack := .done :: s.stack
      runs := s.runs.modify (s.runs.length - run) fun run => { run with done := run.done + 1 } }

def returned : Frame → Runner
  | .invoke => s.advance
  | .await => s
  | .done => s

/-- Steps are pushed while there is no run and none of them is executed; the dispatcher and the
timer call nothing while a function of the application has not returned. -/
def step : Event → Option Runner
  | .load steps =>
    if s.running ∨ maxSteps < steps.length ∨ ∃ frame ∈ s.stack, frame ≠ .done then none
    else some { s with steps, current := 0 }
  | .start => if s.busy then none else some s.start
  | .abort => some s.abort
  | .continue_ => if s.steps[s.current]? = some .await then some s.advance else none
  | .returns =>
    match s.stack with
    | [] => none
    | frame :: stack => some ({ s with stack }.returned frame)
  | .busCallback index modifyValue =>
    match s.callbacks[index]? with
    | none => none
    | some (_, callback) =>
      some ({ s with callbacks := s.callbacks.eraseIdx index }.deliver modifyValue callback)
  | .timerExpires =>
    if s.timer.isSome ∧ s.stack = [] then
      some { s with timer := none, callbacksOutstanding := s.callbacksOutstanding - 1 }.advance
    else none
  | .event =>
    match s.events with
    | [] => none
    | _ :: events => if s.stack = [] then some { s with events }.completed else none

end Runner

end RegisterSteps
