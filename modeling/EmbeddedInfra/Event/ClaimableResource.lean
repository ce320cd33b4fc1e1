import Mathlib.Data.List.Basic

/-! `ClaimableResource`, its claimers, and the evaluations that it schedules in the dispatcher. -/

namespace Event

/-- A claimer; the function in `onGranted` is known by the number of the request it came with. -/
structure Claimer where
  isGranted : Bool := false
  isQueued : Bool := false
  onGranted : Option Nat := none
  deriving DecidableEq

/-- The resource and the claimers that exist, the executions of `ReEvaluateClaim` that the
dispatcher has, and the requests so far with the functions that were called. -/
structure ClaimableResource where
  pendingClaims : List Nat := []
  currentClaim : Option Nat := none
  reEvaluateClaimScheduled : Bool := false
  claimers : Nat → Option Claimer := fun _ => none
  scheduled : Nat := 0
  requests : Nat := 0
  called : List Nat := []

/-- What a program does with claimers, also from inside a function that is called. -/
inductive Call
  | construct (claimer : Nat)
  | claim (claimer : Nat) (urgent : Bool)
  | release (claimer : Nat)
  | moveConstruct (claimer other : Nat)
  | moveAssign (claimer other : Nat)
  | destroy (claimer : Nat)
  deriving DecidableEq

namespace ClaimableResource

variable (s : ClaimableResource)

def put (claimer : Nat) (k : Claimer) : ClaimableResource :=
  { s with claimers := Function.update s.claimers claimer (some k) }

def scheduleReEvaluateClaim : ClaimableResource :=
  if s.reEvaluateClaimScheduled then s
  else { s with reEvaluateClaimScheduled := true, scheduled := s.scheduled + 1 }

def enqueueClaimer (claimer : Nat) (urgent : Bool) : ClaimableResource :=
  if urgent then { s with pendingClaims := claimer :: s.pendingClaims }
  else { s with pendingClaims := s.pendingClaims ++ [claimer] }

def addClaim (claimer : Nat) (urgent : Bool) : ClaimableResource :=
  let s := s.enqueueClaimer claimer urgent
  if s.currentClaim = none then s.scheduleReEvaluateClaim else s

/-- `IntrusiveList::erase` leaves the list as it is if the claimer is not in it. -/
def dequeueClaimer (claimer : Nat) : ClaimableResource :=
  { s with pendingClaims := s.pendingClaims.erase claimer }

def removeClaim (claimer : Nat) : ClaimableResource :=
  if s.currentClaim = some claimer then { s with currentClaim := none }.scheduleReEvaluateClaim
  else if s.pendingClaims ≠ [] then s.dequeueClaimer claimer
  else s

def replaceClaim (claimerOld claimerNew : Nat) : ClaimableResource :=
  { s with
    currentClaim := if s.currentClaim = some claimerOld then some claimerNew else s.currentClaim
    pendingClaims := s.pendingClaims.replace claimerOld claimerNew }

/-- `ClaimerBase::Release` -/
def releaseBase (claimer : Nat) (k : Claimer) : ClaimableResource :=
  (s.put claimer
    { k with isQueued := if k.isGranted then k.isQueued else false, isGranted := false }).removeClaim
      claimer

def releaseAllClaims (claimer : Nat) (k : Claimer) : ClaimableResource :=
  let s := if k.isGranted then s.releaseBase claimer k else s
  if k.isQueued then s.releaseBase claimer { k with isGranted := false } else s

/-- What `claimer` is given when it is moved to. -/
def takeOver (claimer other : Nat) (k : Claimer) : ClaimableResource :=
  let s := (s.put claimer k).put other {}
  if k.isQueued || k.isGranted then s.replaceClaim other claimer else s

/-- A call, unless it aborts or is not possible. -/
def perform : Call → Option ClaimableResource
  | .construct claimer =>
    match s.claimers claimer with
    | none => some (s.put claimer {})
    | some _ => none
  | .claim claimer urgent =>
    match s.claimers claimer with
    | none => none
    | some k =>
      if k.onGranted ≠ none then none
      else
        let s := s.put claimer { k with onGranted := some s.requests, isQueued := true }
        some ({ s with requests := s.requests + 1 }.addClaim claimer urgent)
  | .release claimer =>
    match s.claimers claimer with
    | none => none
    | some k =>
      some (s.releaseBase claimer (if k.isGranted then k else { k with onGranted := none }))
  | .moveConstruct claimer other =>
    match s.claimers claimer, s.claimers other with
    | none, some k => some (s.takeOver claimer other k)
    | _, _ => none
  | .moveAssign claimer other =>
    match s.claimers claimer with
    | none => none
    | some k =>
      let s := s.releaseAllClaims claimer k
      match s.claimers other with
      | none => none
      | some k => some (s.takeOver claimer other k)
  | .destroy claimer =>
    match s.claimers claimer with
    | none => none
    | some k =>
      let s := s.releaseAllClaims claimer k
      some { s with claimers := Function.update s.claimers claimer none }

def performAll (s : ClaimableResource) : List Call → Option ClaimableResource
  | [] => some s
  | call :: rest => (s.perform call).bind fun s => performAll s rest

/-- `ClaimGranted`: the function is taken out of `onGranted` and called, and makes the calls
`inside`. -/
def claimGranted (claimer : Nat) (inside : List Call) : Option ClaimableResource :=
  match s.claimers claimer with
  | none => none
  | some k =>
    match k.onGranted with
    | none => none
    | some function =>
      let s := s.put claimer { isQueued := false, isGranted := true, onGranted := none }
      { s with called := s.called ++ [function] }.performAll inside

def reEvaluateClaim (inside : List Call) : Option ClaimableResource :=
  let s := { s with reEvaluateClaimScheduled := false }
  match s.currentClaim, s.pendingClaims with
  | none, claimer :: rest =>
    { s with currentClaim := some claimer, pendingClaims := rest }.claimGranted claimer inside
  | _, _ => some s

end ClaimableResource

/-- A call, or the dispatcher executes `ReEvaluateClaim`; a function that is called there makes the
calls `inside`. -/
inductive Step
  | call (call : Call)
  | execute (inside : List Call)
  deriving DecidableEq

namespace ClaimableResource

def step (s : ClaimableResource) : Step → Option ClaimableResource
  | .call call => s.perform call
  | .execute inside =>
    match s.scheduled with
    | 0 => none
    | more + 1 => { s with scheduled := more }.reEvaluateClaim inside

end ClaimableResource

end Event
