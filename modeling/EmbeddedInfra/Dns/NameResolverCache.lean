import EmbeddedInfra.Dns.DnsResolver
import EmbeddedInfra.Dns.DnsServer

/-! `NameResolverCache` over a resolver that answers a lookup after it has returned. -/

namespace Dns

open Turns

/-- An entry of the cache, with the name that it was added for. -/
structure CacheEntry (η : Type) where
  name : Bytes
  address : IPAddress
  validUntil : Nat
  nameHash : η

/-- A lookup that was answered from the cache, and the last successful answer for its name. -/
structure Hit where
  now : Nat
  address : IPAddress
  validUntil : Nat
  latest : Option IPAddress

/-- What follows when an observer has returned. -/
inductive Caller
  /-- `Lookup` has found an entry. -/
  | lookup
  | nameLookupDone
  deriving DecidableEq

structure NameResolverCache (η : Type) where
  requests : Queue NameResolverResult Unit
  cache : List (CacheEntry η)
  now : Nat
  /-- When `cleanupTimer` expires, unless it is for `TimePoint::max()`. -/
  cleanupTimer : Option Nat
  observerCallbacks : List Caller
  stopped : Option Stop
  /-- The last successful answer for each name. -/
  latest : Bytes → Option IPAddress
  hits : List Hit

/-- What a cache is made with, and the names of the results. -/
structure CacheSetup (η : Type) where
  hash : Bytes → η
  maxSize : Nat
  minimumTtl : Nat
  hostname : NameResolverResult → Bytes

namespace NameResolverCache

variable {η : Type}

def construct : NameResolverCache η where
  requests := .empty
  cache := []
  now := 0
  cleanupTimer := none
  observerCallbacks := []
  stopped := none
  latest _ := none
  hits := []

def abort (s : NameResolverCache η) : NameResolverCache η := { s with stopped := some .assertion }

def tryResolveNext (s : NameResolverCache η) : NameResolverCache η :=
  { s with requests := s.requests.start () }

/-- The entry that expires first is erased. -/
def removeOneCacheEntry (cache : List (CacheEntry η)) : List (CacheEntry η) :=
  match cache with
  | [] => []
  | front :: _ =>
    let firstToExpire :=
      cache.foldl (fun firstToExpire entry => min firstToExpire entry.validUntil) front.validUntil
    cache.eraseP fun entry => entry.validUntil == firstToExpire

/-- `Cleanup`, with the time that the timer is started for. -/
def cleanup (s : NameResolverCache η) : NameResolverCache η :=
  let cache := s.cache.filter fun entry => s.now < entry.validUntil
  { s with cache, cleanupTimer := (cache.map CacheEntry.validUntil).min? }

variable (setup : CacheSetup η)

section

variable [DecidableEq η]

def searchCache (s : NameResolverCache η) (result : NameResolverResult) : Option (CacheEntry η) :=
  s.cache.find? fun entry => entry.nameHash = setup.hash (setup.hostname result)

def lookup (s : NameResolverCache η) (result : NameResolverResult) : NameResolverCache η :=
  match s.searchCache setup result with
  | some entry =>
    { s with
      requests := s.requests.answerAtOnce
      observerCallbacks := .lookup :: s.observerCallbacks
      hits := s.hits ++ [⟨s.now, entry.address, entry.validUntil, s.latest (setup.hostname result)⟩] }
  | none => tryResolveNext { s with requests := s.requests.request result }

end

def cancelLookup (s : NameResolverCache η) (result : NameResolverResult) : NameResolverCache η :=
  match s.requests.active with
  -- `activeLookup` is empty, and is dereferenced
  | none => s.abort
  | some (_, resolving, _) =>
    if resolving = result then tryResolveNext { s with requests := s.requests.cancel }
    else
      match s.requests.waiting.find? fun entry => entry.2 == result with
      | none => s.abort
      | some (ticket, _) => { s with requests := s.requests.withdraw ticket }

/-- `NameLookupDone`, up to the call of the observer. -/
def nameLookupDone (s : NameResolverCache η) : NameResolverCache η :=
  { s with
    requests := s.requests.answer
    observerCallbacks := .nameLookupDone :: s.observerCallbacks }

/-- `AddToCache`; `emplace_back` asserts that there is room. -/
def addToCache (s : NameResolverCache η) (name : Bytes) (address : IPAddress) (validUntil : Nat) :
    NameResolverCache η :=
  if setup.maxSize ≤ s.cache.length then s.abort
  else cleanup { s with cache := s.cache ++ [⟨name, address, validUntil, setup.hash name⟩] }

def tryAddToCache (s : NameResolverCache η) (name : Bytes) (address : IPAddress)
    (validUntil : Nat) : NameResolverCache η :=
  if s.cache.length = setup.maxSize then
    addToCache setup { s with cache := removeOneCacheEntry s.cache } name address validUntil
  else addToCache setup s name address validUntil

def nameLookupSuccess (s : NameResolverCache η) (result : NameResolverResult) (address : IPAddress)
    (validUntil : Nat) : NameResolverCache η :=
  let validUntil := max (s.now + setup.minimumTtl) validUntil
  let name := setup.hostname result
  nameLookupDone
    { tryAddToCache setup s name address validUntil with
      latest := Function.update s.latest name (some address) }

inductive Event
  | lookup (result : NameResolverResult)
  | cancelLookup (result : NameResolverResult)
  /-- The resolver calls `NameLookupDone` of the active lookup. -/
  | nameLookupDone (address : IPAddress) (validUntil : Nat)
  /-- The resolver calls `NameLookupFailed` of the active lookup. -/
  | nameLookupFailed
  | observerReturns
  | progress (time : Nat)
  | cleanup
  deriving DecidableEq

/-- A result is looked up when it is not requested, and cancelled when it is; the resolver answers
just the lookup that it was asked for. -/
def step [DecidableEq η] (s : NameResolverCache η) (event : Event) : Option (NameResolverCache η) :=
  if s.stopped ≠ none then none
  else
    match event with
    | .lookup result => if Requested s.requests result then none else some (s.lookup setup result)
    | .cancelLookup result =>
      if Requested s.requests result then some (s.cancelLookup result) else none
    | .nameLookupDone address validUntil =>
      s.requests.active.map fun entry =>
        s.nameLookupSuccess setup entry.2.1 address validUntil
    | .nameLookupFailed => s.requests.active.map fun _ => s.nameLookupDone
    | .observerReturns =>
      match s.observerCallbacks with
      | [] => none
      | .lookup :: callers => some { s with observerCallbacks := callers }
      | .nameLookupDone :: callers => some (tryResolveNext { s with observerCallbacks := callers })
    | .progress time => some { s with now := s.now + time }
    | .cleanup =>
      match s.cleanupTimer with
      | none => none
      | some time => if time ≤ s.now then some s.cleanup else none

end NameResolverCache

end Dns
