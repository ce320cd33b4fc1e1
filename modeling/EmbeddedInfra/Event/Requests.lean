import EmbeddedInfra.Event.ClaimableResource
import Mathlib.Data.List.Nodup

/-! What became of every request for a `ClaimableResource`. -/

namespace Event

open List Function

structure Request where
  number : Nat
  claimer : Nat
  urgent : Bool
  deriving DecidableEq

/-- The requests that wait, in the order in which they were made, the one that is granted, and the
numbers of those that were released. -/
structure History where
  asked : Nat := 0
  waiting : List Request := []
  active : List Request := []
  released : List Nat := []
  deriving DecidableEq

def numbers (requests : List Request) : List Nat := requests.map Request.number
def claimers (requests : List Request) : List Nat := requests.map Request.claimer

def own (requests : List Request) (claimer : Nat) : List Request :=
  requests.filter (·.claimer = claimer)

def inTurn (requests : List Request) : List Request :=
  (requests.filter Request.urgent).reverse ++ requests.filter fun request => !request.urgent

def Request.rename (claimer other : Nat) (request : Request) : Request :=
  if request.claimer = other then { request with claimer } else request

namespace History

variable (h : History)

def ask (claimer : Nat) (urgent : Bool) : History :=
  { h with
    asked := h.asked + 1
    waiting := h.waiting ++ [⟨h.asked, claimer, urgent⟩] }

def finish (claimer : Nat) : History :=
  { h with
    active := h.active.filter (·.claimer ≠ claimer)
    released := h.released ++ numbers (own h.active claimer) }

def withdraw (claimer : Nat) : History :=
  { h with
    waiting := h.waiting.filter (·.claimer ≠ claimer)
    released := h.released ++ numbers (own h.waiting claimer) }

/-- `Release` is about the granted request, if there is one. -/
def release (claimer : Nat) : History :=
  if claimer ∈ claimers h.active then h.finish claimer else h.withdraw claimer

def rename (h : History) (claimer other : Nat) : History :=
  { h with
    waiting := h.waiting.map (Request.rename claimer other)
    active := h.active.map (Request.rename claimer other) }

def perform : Call → History
  | .construct _ => h
  | .claim claimer urgent => h.ask claimer urgent
  | .release claimer => h.release claimer
  | .moveConstruct claimer other => h.rename claimer other
  | .moveAssign claimer other => ((h.finish claimer).withdraw claimer).rename claimer other
  | .destroy claimer => (h.finish claimer).withdraw claimer

/-- The first in turn is granted, if none is. -/
def grant (inside : List Call) : History :=
  match h.active, inTurn h.waiting with
  | [], request :: _ =>
    inside.foldl perform
      { h with
        waiting := h.waiting.filter (· ≠ request)
        active := [request] }
  | _, _ => h

def step : Step → History
  | .call call => h.perform call
  | .execute inside => h.grant inside

/-- What became of the requests in a run. -/
def of (steps : List Step) : History := steps.foldl step {}

def view (claimer : Nat) : Claimer where
  isGranted := !(own h.active claimer).isEmpty
  isQueued := !(own h.waiting claimer).isEmpty
  onGranted := (own h.waiting claimer).head?.map Request.number

end History

theorem inTurn_append (requests : List Request) (request : Request) :
    inTurn (requests ++ [request]) =
      if request.urgent then request :: inTurn requests else inTurn requests ++ [request] := by
  cases urgent : request.urgent <;> simp [inTurn, urgent]

theorem inTurn_filter (requests : List Request) (p : Request → Bool) :
    inTurn (requests.filter p) = (inTurn requests).filter p := by
  simp [inTurn, filter_filter, filter_reverse, Bool.and_comm]

theorem inTurn_rename (requests : List Request) (claimer other : Nat) :
    inTurn (requests.map (Request.rename claimer other)) =
      (inTurn requests).map (Request.rename claimer other) := by
  have kept : Request.urgent ∘ Request.rename claimer other = Request.urgent := by
    funext request
    simp only [comp_apply, Request.rename]
    split <;> rfl
  simp only [inTurn, filter_map, map_append, map_reverse, kept]
  congr 2
  apply filter_congr
  intro request _
  exact congrArg not (congrFun kept request)

variable {requests : List Request} {request : Request} {claimer other : Nat}

theorem mem_inTurn : request ∈ inTurn requests ↔ request ∈ requests := by
  simp only [inTurn, mem_append, mem_reverse, mem_filter]
  cases request.urgent <;> simp

theorem inTurn_perm (requests : List Request) : (inTurn requests).Perm requests := by
  apply ((reverse_perm _).append_right _).trans
  exact filter_append_perm _ _

theorem claimers_filter_ne (requests : List Request) (claimer : Nat) :
    claimers (requests.filter (·.claimer ≠ claimer)) = (claimers requests).filter (· ≠ claimer) := by
  simp [claimers, filter_map, comp_def]

theorem claimers_rename (requests : List Request) (claimer other : Nat) :
    claimers (requests.map (Request.rename claimer other)) =
      (claimers requests).map fun c => if c = other then claimer else c := by
  simp only [claimers, List.map_map]
  congr 1
  funext request
  simp only [comp_apply, Request.rename]
  split <;> rfl

@[simp] theorem numbers_rename (requests : List Request) (claimer other : Nat) :
    numbers (requests.map (Request.rename claimer other)) = numbers requests := by
  simp only [numbers, List.map_map]
  congr 1
  funext request
  simp only [comp_apply, Request.rename]
  split <;> rfl

theorem numbers_split_perm (requests : List Request) (claimer : Nat) :
    (numbers (requests.filter (·.claimer ≠ claimer)) ++
      numbers (own requests claimer)).Perm (numbers requests) := by
  rw [numbers, numbers, ← map_append, own]
  apply List.Perm.map
  apply perm_append_comm.trans
  simpa using filter_append_perm (fun request : Request => request.claimer = claimer) requests

theorem replace_eq_map {list : List Nat} (distinct : list.Nodup) (claimer other : Nat) :
    list.replace other claimer = list.map fun c => if c = other then claimer else c := by
  induction list with
  | nil => rfl
  | cons first rest ih =>
    have ⟨notIn, restDistinct⟩ := nodup_cons.mp distinct
    by_cases here : first = other
    · have same : ∀ c ∈ rest, (if c = other then claimer else c) = c := fun c member =>
        if_neg fun (equal : c = other) => notIn (here ▸ equal ▸ member)
      simp [here, map_congr_left same]
    · have differs : (other == first) = false := beq_false_of_ne (Ne.symm here)
      simp [replace_cons, here, differs, ih restDistinct]

theorem own_eq_nil : own requests claimer = [] ↔ claimer ∉ claimers requests := by
  simp [own, claimers, filter_eq_nil_iff]

theorem own_withdrawn (requests : List Request) (claimer : Nat) :
    own (requests.filter (·.claimer ≠ claimer)) claimer = [] := by
  simp [own, filter_filter]

theorem own_other (requests : List Request) {c : Nat} (other : c ≠ claimer) :
    own (requests.filter (·.claimer ≠ claimer)) c = own requests c := by
  simp only [own, filter_filter]
  apply filter_congr
  intro request _
  by_cases here : request.claimer = c
  · simp [here, other]
  · simp [here]

theorem filter_ne_eq_self (free : claimer ∉ claimers requests) :
    requests.filter (·.claimer ≠ claimer) = requests := by
  apply filter_eq_self.mpr
  intro request member
  exact decide_eq_true fun equal => free (equal ▸ mem_map_of_mem member)

theorem rename_of_ne (differs : request.claimer ≠ other) :
    request.rename claimer other = request := if_neg differs

theorem rename_of_eq (same : request.claimer = other) :
    request.rename claimer other = { request with claimer } := if_pos same

theorem own_rename_other (requests : List Request) {c : Nat} (notNew : c ≠ claimer)
    (notOld : c ≠ other) :
    own (requests.map (Request.rename claimer other)) c = own requests c := by
  induction requests with
  | nil => rfl
  | cons request rest ih =>
    simp only [own, map_cons, filter_cons] at ih ⊢
    by_cases moved : request.claimer = other
    · simp [rename_of_eq moved, moved, Ne.symm notNew, Ne.symm notOld, ih]
    · rw [rename_of_ne moved, ih]

theorem own_rename_old (requests : List Request) (differs : claimer ≠ other) :
    own (requests.map (Request.rename claimer other)) other = [] := by
  rw [own_eq_nil, claimers_rename]
  intro member
  have ⟨c, _, renamed⟩ := mem_map.mp member
  split at renamed
  · exact differs renamed
  case isFalse notOther => exact notOther renamed

theorem own_rename_new (free : claimer ∉ claimers requests) :
    own (requests.map (Request.rename claimer other)) claimer =
      (own requests other).map (Request.rename claimer other) := by
  induction requests with
  | nil => rfl
  | cons request rest ih =>
    have ⟨notHere, notRest⟩ := ne_and_not_mem_of_not_mem_cons free
    simp only [own, map_cons, filter_cons] at ih ⊢
    rw [ih notRest]
    by_cases moved : request.claimer = other
    · simp [rename_of_eq moved, moved]
    · simp [rename_of_ne moved, moved, Ne.symm notHere]

theorem rename_self (requests : List Request) (claimer : Nat) :
    requests.map (Request.rename claimer claimer) = requests := by
  have same : ∀ request ∈ requests, request.rename claimer claimer = request := by
    intro request _
    by_cases here : request.claimer = claimer
    · rw [rename_of_eq here, ← here]
    · exact rename_of_ne here
  rw [map_congr_left same, map_id']

theorem own_of_mem (distinct : (claimers requests).Nodup) (member : request ∈ requests) :
    own requests request.claimer = [request] := by
  induction requests with
  | nil => exact absurd member not_mem_nil
  | cons first rest ih =>
    have ⟨notIn, restDistinct⟩ := nodup_cons.mp distinct
    cases member with
    | head =>
      have nothing := own_eq_nil.mpr notIn
      rw [own] at nothing ⊢
      simp [nothing]
    | tail _ later =>
      have differs : first.claimer ≠ request.claimer := fun same =>
        notIn (same ▸ mem_map_of_mem later)
      have single := ih restDistinct later
      rw [own] at single ⊢
      simp [differs, single]

theorem filter_ne_request (distinct : (claimers requests).Nodup) (member : request ∈ requests) :
    requests.filter (· ≠ request) = requests.filter (·.claimer ≠ request.claimer) := by
  apply filter_congr
  intro other inside
  have same : other = request ↔ other.claimer = request.claimer :=
    ⟨congrArg _, inj_on_of_nodup_map distinct inside member⟩
  simp only [ne_eq, same]

end Event
