import EmbeddedInfra.Dns.NameReading
import EmbeddedInfra.Turns

/-! `DnsResolver`: name lookups that wait for each other, and the attempts of the active one. -/

namespace Dns

open Turns

/-- Who is told of the address; `hostname` gives its name. -/
abbrev NameResolverResult := Nat

/-- What `ReplyParser` makes of a datagram. -/
inductive ReplyRead
  /-- It does not answer the current query. -/
  | ignored
  | error
  | answer
  /-- There are canonical names only. -/
  | recurse
  | noAnswer
  deriving DecidableEq

/-- `DnsResolver::ActiveLookup`, with the send streams that it has requested. -/
structure ActiveLookup where
  resolveAttempts : Nat
  recursions : Nat
  requested : Nat
  timeoutTimer : Bool
  deriving DecidableEq

/-- The constructor makes the first attempt. -/
def ActiveLookup.initial : ActiveLookup where
  resolveAttempts := 1
  recursions := 0
  requested := 1
  timeoutTimer := false

def ActiveLookup.resolveAttempt (active : ActiveLookup) : ActiveLookup :=
  { active with requested := active.requested + 1 }

def Requested {α : Type} (q : Queue NameResolverResult α) (result : NameResolverResult) : Prop :=
  result ∈ (q.active.map fun entry => entry.2.1).toList ++ q.waiting.map Prod.snd

instance {α : Type} (q : Queue NameResolverResult α) (result : NameResolverResult) :
    Decidable (Requested q result) :=
  inferInstanceAs (Decidable (result ∈ _))

structure DnsResolver where
  requests : Queue NameResolverResult ActiveLookup
  /-- Observers that are called from `NameLookupDone`, and have not returned. -/
  observerCallbacks : Nat
  stopped : Option Stop

namespace DnsResolver

def maxAttempts : Nat := 3

def maxRecursions : Nat := 5

def construct : DnsResolver where
  requests := .empty
  observerCallbacks := 0
  stopped := none

variable (s : DnsResolver) (hostname : NameResolverResult → Bytes)

def abort : DnsResolver := { s with stopped := some .assertion }

/-- The hostname of the active lookup has room for 253 characters. -/
def tryResolveNext (s : DnsResolver) : DnsResolver :=
  match s.requests.active, s.requests.waiting with
  | none, (_, result) :: _ =>
    if maxHostname < (hostname result).length then s.abort
    else { s with requests := s.requests.start ActiveLookup.initial }
  | _, _ => s

def lookup (s : DnsResolver) (result : NameResolverResult) : DnsResolver :=
  tryResolveNext hostname { s with requests := s.requests.request result }

def cancelLookup (s : DnsResolver) (result : NameResolverResult) : DnsResolver :=
  match s.requests.active with
  -- `activeLookup` is empty, and is dereferenced
  | none => s.abort
  | some (_, resolving, _) =>
    if resolving = result then
      tryResolveNext hostname { s with requests := s.requests.cancel }
    else
      match s.requests.waiting.find? fun entry => entry.2 == result with
      | none => s.abort
      | some (ticket, _) => { s with requests := s.requests.withdraw ticket }

/-- `NameLookupDone`, up to the call of the observer. -/
def nameLookupDone : DnsResolver :=
  { s with requests := s.requests.answer, observerCallbacks := s.observerCallbacks + 1 }

def resolveNextAttempt (active : ActiveLookup) : DnsResolver :=
  if active.resolveAttempts = maxAttempts then s.nameLookupDone
  else
    { s with
      requests := s.requests.advance
        { active with
          resolveAttempts := active.resolveAttempts + 1, recursions := 0 }.resolveAttempt }

def resolveRecursion (active : ActiveLookup) : DnsResolver :=
  let active := { active with recursions := active.recursions + 1 }
  if active.recursions = maxRecursions then s.nameLookupDone
  else { s with requests := s.requests.advance active.resolveAttempt }

def dataReceived (active : ActiveLookup) : ReplyRead → DnsResolver
  | .ignored => s
  | .error => s.resolveNextAttempt active
  | .answer => s.nameLookupDone
  | .recurse => s.resolveRecursion active
  | .noAnswer => s.resolveNextAttempt active

def sendStreamAvailable (active : ActiveLookup) : DnsResolver :=
  { s with
    requests := s.requests.advance
      { active with requested := active.requested - 1, timeoutTimer := true } }

inductive Event
  | lookup (result : NameResolverResult)
  | cancelLookup (result : NameResolverResult)
  | dataReceived (reply : ReplyRead)
  | sendStreamAvailable
  | timeout
  | observerReturns
  deriving DecidableEq

/-- A result is looked up when it is not requested, and cancelled when it is. -/
def step (s : DnsResolver) (event : Event) : Option DnsResolver :=
  if s.stopped ≠ none then none
  else
    match event with
    | .lookup result =>
      if Requested s.requests result then none else some (s.lookup hostname result)
    | .cancelLookup result =>
      if Requested s.requests result then some (s.cancelLookup hostname result) else none
    | .dataReceived reply => s.requests.active.map fun entry => s.dataReceived entry.2.2 reply
    | .sendStreamAvailable =>
      s.requests.active.bind fun entry =>
        if 0 < entry.2.2.requested then some (s.sendStreamAvailable entry.2.2) else none
    | .timeout =>
      s.requests.active.bind fun entry =>
        if entry.2.2.timeoutTimer then
          some (s.resolveNextAttempt { entry.2.2 with timeoutTimer := false })
        else none
    | .observerReturns =>
      if 0 < s.observerCallbacks then
        some (tryResolveNext hostname { s with observerCallbacks := s.observerCallbacks - 1 })
      else none

end DnsResolver

end Dns
