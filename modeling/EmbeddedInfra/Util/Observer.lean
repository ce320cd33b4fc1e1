import EmbeddedInfra.Util.IntrusiveList

/-! `Observer`s, and how a `Subject` notifies those that are attached to it. A step that
dereferences a null pointer, or takes the end of a list for an observer, has no result. -/

namespace Observers

open IntrusiveSets

/-- The lists of the subjects, and the subject of each observer. -/
structure State (ν : Type) where
  observers : Sets ν
  subject : ν → Option Nat

/-- The destructor of an observer detaches it. -/
inductive Action (ν : Type)
  | attach (observer : ν) (subject : Nat)
  | detach (observer : ν)

def Action.observer {ν : Type} : Action ν → ν
  | attach observer _ | detach observer => observer

/-- What a callback does to the observers, and whether it returns true. -/
abbrev Callback (ν : Type) := List (Action ν) × Bool

/-- The observers that were called, each with the subject that it had then, and whether the end of
the list was reached. -/
structure Run (ν : Type) where
  calls : List (ν × Option Nat)
  ended : Bool

variable {ν : Type} [DecidableEq ν]

namespace State

variable (s : State ν)

def registerObserver (subject : Nat) (observer : ν) : State ν :=
  { s with observers := IntrusiveLists.pushBack s.observers (.set subject) observer }

def unregisterObserver (subject : Nat) (observer : ν) : Option (State ν) :=
  (s.observers.listErase (.set subject) observer).map fun observers =>
    { s with observers := observers }

def detach (observer : ν) : Option (State ν) :=
  let unregistered := match s.subject observer with
    | some subject => s.unregisterObserver subject observer
    | none => some s
  unregistered.map fun s => { s with subject := Function.update s.subject observer none }

def attach (observer : ν) (subject : Nat) : Option (State ν) :=
  (s.detach observer).map fun s =>
    { s with subject := Function.update s.subject observer (some subject) }.registerObserver subject
      observer

def perform : Action ν → Option (State ν)
  | .attach observer subject => s.attach observer subject
  | .detach observer => s.detach observer

def performAll (s : State ν) : List (Action ν) → Option (State ν)
  | [] => some s
  | action :: rest => (s.perform action).bind (performAll · rest)

/-- The loop of `Subject::NotifyObservers`, with what each of its callbacks does in turn. It stops
as well where a callback returns true, or where no further callbacks are given. -/
def notifyLoop (subject : Nat) :
    List (Callback ν) → State ν → Option (Place ν) → Option (Run ν)
  | callbacks, s, i =>
    if i = some (.last (.set subject)) then some { calls := [], ended := true }
    else
      match i with
      | some (.node observer) =>
        match callbacks with
        | [] => some { calls := [], ended := false }
        | (actions, stops) :: rest =>
          let i := s.observers.next (.node observer)
          let call := (observer, s.subject observer)
          (s.performAll actions).bind fun s =>
            if stops then some { calls := [call], ended := false }
            else
              (notifyLoop subject rest s i).map fun run =>
                { run with calls := call :: run.calls }
      | _ => none

def notifyObservers (subject : Nat) (callbacks : List (Callback ν)) : Option (Run ν) :=
  notifyLoop subject callbacks s (s.observers.beginNode (.set subject))

end State

def construct (ν : Type) : State ν where
  observers := IntrusiveLists.construct ν
  subject _ := none

abbrev Order (ν : Type) := Nat → List ν

namespace Order

variable (order : Order ν)

def detach (observer : ν) : Order ν := fun subject =>
  (order subject).erase observer

def attach (observer : ν) (subject : Nat) : Order ν :=
  Function.update (order.detach observer) subject (order.detach observer subject ++ [observer])

def perform : Action ν → Order ν
  | .attach observer subject => order.attach observer subject
  | .detach observer => order.detach observer

def performAll (actions : List (Action ν)) : Order ν :=
  actions.foldl perform order

def after (subject : Nat) (observer : ν) : Option ν :=
  ((order subject).dropWhile (· ≠ observer)).tail.head?

/-- No callback detaches the observer that comes next after the one that it is called for. -/
def Spares (subject : Nat) : List (Callback ν) → Order ν → Option ν → Prop
  | _, _, none | [], _, _ => True
  | (actions, stops) :: rest, order, some observer =>
    (∀ action ∈ actions, order.after subject observer ≠ some action.observer) ∧
      (stops = false →
        Spares subject rest (order.performAll actions) (order.after subject observer))

end Order

/-- Every call is for an observer that is attached then, and those on which no callback acts are
called once each and in order, up to the last one if the end is reached. -/
def Notifies (subject : Nat) (callbacks : List (Callback ν)) (order : List ν) (run : Run ν) : Prop :=
  (∀ call ∈ run.calls, call.2 = some subject) ∧
    ∀ stays : ν → Bool,
      (∀ callback ∈ callbacks.take run.calls.length, ∀ action ∈ callback.1,
        stays action.observer = false) →
      (run.calls.map Prod.fst).filter stays <+: order.filter stays ∧
        (run.ended = true → (run.calls.map Prod.fst).filter stays = order.filter stays)

end Observers
