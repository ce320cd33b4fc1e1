import EmbeddedInfra.Dns.NameResolverCache
import EmbeddedInfra.Runs

/-! Every lookup is answered once and in its turn, by the resolver and by the cache, as long as no
observer cancels a lookup while none is active; the cache answers with the last address as long as
no name is resolved for which it has an entry. -/

namespace Dns

open Turns List Function

theorem Requested.waits {α : Type} {q : Queue NameResolverResult α} {ticket : Nat}
    {result resolving : NameResolverResult} {lookup : α} (requested : Requested q result)
    (known : q.active = some (ticket, resolving, lookup)) (other : resolving ≠ result) :
    (q.waiting.find? fun entry => entry.2 == result) ≠ none := by
  intro missing
  rw [Requested, known] at requested
  cases mem_append.mp requested with
  | inl here => exact absurd (mem_singleton.mp here).symm other
  | inr there =>
    obtain ⟨entry, member, same⟩ := mem_map.mp there
    have differs := find?_eq_none.mp missing entry member
    exact absurd (beq_iff_eq.mpr same) differs

/-! ### The resolver -/

namespace DnsResolver

variable (hostname : NameResolverResult → Bytes)

def rank (active : ActiveLookup) : Nat :=
  (maxAttempts - active.resolveAttempts) * maxRecursions + (maxRecursions - active.recursions)

/-- The lookup has attempts left, and a send stream or the end of a time-out to wait for. -/
structure Attempting (active : ActiveLookup) : Prop where
  attempts : active.resolveAttempts ≤ maxAttempts
  recursions : active.recursions < maxRecursions
  waits : 0 < active.requested ∨ active.timeoutTimer = true

/-- Nothing has gone wrong, the lookups take turns, and one is active when some wait, unless an
observer has yet to return. -/
structure Served (s : DnsResolver) : Prop where
  running : s.stopped = none
  orderly : Orderly s.requests
  moving : s.observerCallbacks = 0 → s.requests.waiting ≠ [] → s.requests.active ≠ none
  attempting : ∀ ticket result active, s.requests.active = some (ticket, result, active) →
    Attempting active

/-- Hostnames have at most 253 characters, and a lookup is cancelled only while one is active. -/
def Meets (s : DnsResolver) : Event → Prop
  | .lookup result => (hostname result).length ≤ maxHostname
  | .cancelLookup _ => s.requests.active ≠ none
  | _ => True

/-- The names of the results that wait have room. -/
structure Inv (s : DnsResolver) : Prop extends Served s where
  fits : ∀ entry ∈ s.requests.waiting, (hostname entry.2).length ≤ maxHostname

variable {hostname}

variable {s : DnsResolver} {active : ActiveLookup} {result : NameResolverResult} {ticket : Nat}

theorem Inv.tryResolveNext (running : s.stopped = none) (orderly : Orderly s.requests)
    (attempting : ∀ ticket result active, s.requests.active = some (ticket, result, active) →
      Attempting active)
    (fits : ∀ entry ∈ s.requests.waiting, (hostname entry.2).length ≤ maxHostname) :
    Inv hostname (s.tryResolveNext hostname) := by
  rw [DnsResolver.tryResolveNext]
  split
  next ticket result rest idle first =>
    have short : ¬ maxHostname < (hostname result).length := by
      apply Nat.not_lt.mpr
      apply fits (ticket, result)
      rw [first]
      exact mem_cons_self ..
    rw [if_neg short]
    have started : s.requests.start ActiveLookup.initial =
        { s.requests with
          waiting := rest
          active := some (ticket, result, ActiveLookup.initial)
          started := s.requests.started ++ [ticket] } := by
      rw [Queue.start, idle, first]
    have begun := orderly.start ActiveLookup.initial
    rw [started] at begun ⊢
    exact {
      running := running
      orderly := begun
      moving := by simp
      attempting := by
        intro _ _ active same
        cases same
        exact ⟨by decide, by decide, .inl Nat.one_pos⟩
      fits := by
        intro entry member
        apply fits
        rw [first]
        exact mem_cons_of_mem _ member }
  next other =>
    exact {
      running := running
      orderly := orderly
      moving := by
        intro _ some_ none_
        cases first : s.requests.waiting with
        | nil => exact some_ first
        | cons entry rest => exact other entry.1 entry.2 rest none_ first
      attempting := attempting
      fits := fits }

theorem Inv.nameLookupDone (inv : Inv hostname s) :
    Inv hostname s.nameLookupDone where
  running := inv.running
  orderly := inv.orderly.answer
  moving := fun zero => absurd zero (Nat.succ_ne_zero _)
  attempting := nofun
  fits := inv.fits

theorem Inv.advance (inv : Inv hostname s) (attempting : Attempting active) :
    Inv hostname { s with requests := s.requests.advance active } where
  running := inv.running
  orderly := inv.orderly.advance active
  moving := by
    intro zero some_ none_
    apply inv.moving zero some_
    simpa [Queue.advance] using none_
  attempting := by
    intro ticket result other same
    obtain ⟨_, _, eq⟩ := Option.map_eq_some_iff.mp same
    cases eq
    exact attempting
  fits := inv.fits

theorem Inv.resolveNextAttempt (inv : Inv hostname s)
    (attempts : active.resolveAttempts ≤ maxAttempts) :
    Inv hostname (s.resolveNextAttempt active) := by
  rw [DnsResolver.resolveNextAttempt]
  split
  next => exact inv.nameLookupDone
  next more =>
    apply inv.advance
    exact ⟨Nat.lt_of_le_of_ne attempts more, Nat.succ_pos _, .inl (Nat.succ_pos _)⟩

theorem Inv.resolveRecursion (inv : Inv hostname s) (attempting : Attempting active) :
    Inv hostname (s.resolveRecursion active) := by
  rw [DnsResolver.resolveRecursion]
  simp only
  split
  next => exact inv.nameLookupDone
  next more =>
    apply inv.advance
    exact ⟨attempting.attempts, Nat.lt_of_le_of_ne attempting.recursions more,
      .inl (Nat.succ_pos _)⟩

theorem Inv.cancelLookup (inv : Inv hostname s) (requested : Requested s.requests result)
    (active : s.requests.active ≠ none) :
    Inv hostname (s.cancelLookup hostname result) := by
  rw [DnsResolver.cancelLookup]
  split
  next none_ => exact absurd none_ active
  next ticket resolving lookup known =>
    split
    next same => exact .tryResolveNext inv.running inv.orderly.cancel nofun inv.fits
    next other =>
      split
      next missing => exact absurd missing (requested.waits known other)
      next ticket' _ found =>
        have member := mem_of_find?_eq_some found
        exact {
          running := inv.running
          orderly := inv.orderly.withdraw (mem_map_of_mem member)
          moving := fun _ _ => active
          attempting := inv.attempting
          fits := fun entry kept => inv.fits entry (mem_of_mem_eraseP kept) }

variable {t : DnsResolver} {event : Event}

theorem Inv.step (inv : Inv hostname s) (meets : Meets hostname s event)
    (stepped : s.step hostname event = some t) :
    Inv hostname t := by
  unfold DnsResolver.step at stepped
  rw [if_neg (not_not.mpr inv.running)] at stepped
  cases event with
  | lookup result =>
    simp only at stepped
    split at stepped
    next => cases stepped
    next =>
      cases stepped
      apply Inv.tryResolveNext (s := { s with requests := s.requests.request result }) inv.running
        (inv.orderly.request result) inv.attempting
      intro entry member
      cases mem_append.mp member with
      | inl old => exact inv.fits entry old
      | inr new =>
        cases mem_singleton.mp new
        exact meets
  | cancelLookup result =>
    simp only at stepped
    split at stepped
    next requested =>
      cases stepped
      exact inv.cancelLookup requested meets
    next => cases stepped
  | dataReceived reply =>
    obtain ⟨⟨ticket, result, active⟩, known, received⟩ := Option.map_eq_some_iff.mp stepped
    have attempting := inv.attempting ticket result active known
    rw [← received]
    cases reply with
    | ignored => exact inv
    | error => exact inv.resolveNextAttempt attempting.attempts
    | answer => exact inv.nameLookupDone
    | recurse => exact inv.resolveRecursion attempting
    | noAnswer => exact inv.resolveNextAttempt attempting.attempts
  | sendStreamAvailable =>
    obtain ⟨⟨ticket, result, active⟩, known, granted⟩ := Option.bind_eq_some_iff.mp stepped
    have attempting := inv.attempting ticket result active known
    split at granted
    next =>
      cases granted
      exact inv.advance ⟨attempting.attempts, attempting.recursions, .inr rfl⟩
    next => cases granted
  | timeout =>
    obtain ⟨⟨ticket, result, active⟩, known, expired⟩ := Option.bind_eq_some_iff.mp stepped
    have attempting := inv.attempting ticket result active known
    split at expired
    next =>
      cases expired
      exact inv.resolveNextAttempt attempting.attempts
    next => cases expired
  | observerReturns =>
    simp only at stepped
    split at stepped
    next =>
      cases stepped
      exact .tryResolveNext inv.running inv.orderly inv.attempting inv.fits
    next => cases stepped

theorem served (reached : Runs.Reachable (DnsResolver.step hostname) (Meets hostname) construct s) :
    Served s := by
  have inv : Inv hostname s := by
    refine reached.invariant ⟨⟨rfl, .empty, fun _ some_ => absurd rfl some_, nofun⟩, nofun⟩ ?_
    intro s event t kept meets stepped
    exact kept.step meets stepped
  exact inv.toServed

/-- The lookup is answered, or goes on with less left. -/
inductive Shortens (s t : DnsResolver) : Prop
  | answered {ticket : Nat} {result : NameResolverResult} {active : ActiveLookup}
      (before : s.requests.active = some (ticket, result, active))
      (after : t.requests.active = none) (answered : ticket ∈ t.requests.answered) : Shortens s t
  | left {ticket : Nat} {result : NameResolverResult} {active active' : ActiveLookup}
      (before : s.requests.active = some (ticket, result, active))
      (after : t.requests.active = some (ticket, result, active'))
      (less : rank active' < rank active) : Shortens s t

/-- The end of a time-out, or a reply that is for the query. -/
def Event.Counts : Event → Prop
  | .timeout => True
  | .dataReceived reply => reply ≠ .ignored
  | _ => False

theorem Shortens.nameLookupDone (before : s.requests.active = some (ticket, result, active)) :
    Shortens s s.nameLookupDone := by
  refine .answered before rfl ?_
  simp [DnsResolver.nameLookupDone, Queue.answer, Queue.activeTicket, before]

theorem Shortens.resolveNextAttempt {active' : ActiveLookup}
    (before : s.requests.active = some (ticket, result, active)) (attempting : Attempting active)
    (same : active'.resolveAttempts = active.resolveAttempts) :
    Shortens s (s.resolveNextAttempt active') := by
  rw [DnsResolver.resolveNextAttempt]
  split
  next => exact .nameLookupDone before
  next more =>
    refine .left before (by simp only [Queue.advance, before, Option.map_some]; rfl) ?_
    have attempts := attempting.attempts
    have recursions := attempting.recursions
    rw [same] at more
    simp only [rank, ActiveLookup.resolveAttempt, same, maxAttempts, maxRecursions] at *
    omega

theorem Shortens.resolveRecursion (before : s.requests.active = some (ticket, result, active))
    (attempting : Attempting active) : Shortens s (s.resolveRecursion active) := by
  rw [DnsResolver.resolveRecursion]
  simp only
  split
  next => exact .nameLookupDone before
  next =>
    refine .left before (by simp only [Queue.advance, before, Option.map_some]; rfl) ?_
    have recursions := attempting.recursions
    simp only [rank, ActiveLookup.resolveAttempt, maxAttempts, maxRecursions] at *
    omega

theorem shortens (served : Served s) (counts : event.Counts)
    (stepped : s.step hostname event = some t) : Shortens s t := by
  unfold DnsResolver.step at stepped
  rw [if_neg (not_not.mpr served.running)] at stepped
  cases event with
  | timeout =>
    obtain ⟨⟨ticket, result, active⟩, known, expired⟩ := Option.bind_eq_some_iff.mp stepped
    split at expired
    next =>
      cases expired
      exact .resolveNextAttempt known (served.attempting _ _ _ known) rfl
    next => cases expired
  | dataReceived reply =>
    obtain ⟨⟨ticket, result, active⟩, known, received⟩ := Option.map_eq_some_iff.mp stepped
    have attempting := served.attempting ticket result active known
    rw [← received]
    cases reply with
    | ignored => exact absurd rfl counts
    | error => exact .resolveNextAttempt known attempting rfl
    | answer => exact .nameLookupDone known
    | recurse => exact .resolveRecursion known attempting
    | noAnswer => exact .resolveNextAttempt known attempting rfl
  | lookup | cancelLookup | sendStreamAvailable | observerReturns => exact absurd counts id

end DnsResolver

/-! ### The cache -/

namespace NameResolverCache

variable {η : Type} (setup : CacheSetup η)

/-- Nothing has gone wrong, the lookups take turns, one is active when some wait unless an observer
has yet to return, and what was answered from the cache was valid and the last answer. -/
structure Served (s : NameResolverCache η) : Prop where
  running : s.stopped = none
  orderly : Orderly s.requests
  moving : .nameLookupDone ∉ s.observerCallbacks → s.requests.waiting ≠ [] →
    s.requests.active ≠ none
  hits : ∀ hit ∈ s.hits, hit.now ≤ hit.validUntil ∧ hit.latest = some hit.address

/-- No name is looked up while a clean-up is overdue, a lookup is cancelled only while one is active,
and no name is resolved for which there is an entry. -/
def Meets (s : NameResolverCache η) : Event → Prop
  | .lookup _ => ∀ time, s.cleanupTimer = some time → s.now ≤ time
  | .cancelLookup _ => s.requests.active ≠ none
  | .nameLookupDone _ _ => ∀ active, s.requests.active = some active →
      ∀ entry ∈ s.cache, entry.name ≠ setup.hostname active.2.1
  | _ => True

/-- The entry is the last answer for its name, and is cleaned up in time. -/
structure Kept (latest : Bytes → Option IPAddress) (cleanupTimer : Option Nat)
    (entry : CacheEntry η) : Prop where
  hash : entry.nameHash = setup.hash entry.name
  latest : latest entry.name = some entry.address
  cleaned : ∃ time, cleanupTimer = some time ∧ time ≤ entry.validUntil

structure Inv (s : NameResolverCache η) : Prop extends Served s where
  room : s.cache.length ≤ setup.maxSize
  kept : ∀ entry ∈ s.cache, Kept setup s.latest s.cleanupTimer entry

variable {setup}

theorem start_active (q : Queue NameResolverResult Unit) (some_ : (q.start ()).waiting ≠ []) :
    (q.start ()).active ≠ none := by
  intro none_
  rw [Queue.start] at some_ none_
  split at none_
  next => cases none_
  next other =>
    split at some_
    next idle first => exact other _ _ _ idle first
    next =>
      cases first : q.waiting with
      | nil => exact some_ first
      | cons entry rest => exact other entry.1 entry.2 rest none_ first

variable {s : NameResolverCache η}

theorem Inv.tryResolveNext (running : s.stopped = none) (orderly : Orderly s.requests)
    (hits : ∀ hit ∈ s.hits, hit.now ≤ hit.validUntil ∧ hit.latest = some hit.address)
    (room : s.cache.length ≤ setup.maxSize)
    (kept : ∀ entry ∈ s.cache, Kept setup s.latest s.cleanupTimer entry) :
    Inv setup s.tryResolveNext where
  running := running
  orderly := orderly.start ()
  moving := fun _ some_ => start_active _ some_
  hits := hits
  room := room
  kept := kept

theorem Inv.nameLookupDone (inv : Inv setup s) :
    Inv setup s.nameLookupDone where
  running := inv.running
  orderly := inv.orderly.answer
  moving := fun none_ => absurd (mem_cons_self ..) none_
  hits := inv.hits
  room := inv.room
  kept := inv.kept

theorem cleanup_cleaned (s : NameResolverCache η) :
    ∀ entry ∈ s.cleanup.cache, ∃ time, s.cleanup.cleanupTimer = some time ∧
      time ≤ entry.validUntil := by
  intro entry member
  have valid : entry.validUntil ∈ s.cleanup.cache.map CacheEntry.validUntil :=
    mem_map_of_mem member
  cases first : (s.cleanup.cache.map CacheEntry.validUntil).min? with
  | none =>
    rw [min?_eq_none_iff.mp first] at valid
    cases valid
  | some time =>
    exact ⟨time, first, (le_min?_iff first).mp (Nat.le_refl _) _ valid⟩

theorem Inv.cleanup (inv : Inv setup s) : Inv setup s.cleanup where
  running := inv.running
  orderly := inv.orderly
  moving := inv.moving
  hits := inv.hits
  room := (length_filter_le _ _).trans inv.room
  kept := fun entry member =>
    have old := inv.kept entry (mem_filter.mp member).1
    ⟨old.hash, old.latest, cleanup_cleaned s entry member⟩

theorem foldl_min_mem (cache : List (CacheEntry η)) (start : Nat) :
    cache.foldl (fun first entry => min first entry.validUntil) start = start ∨
      ∃ entry ∈ cache, cache.foldl (fun first entry => min first entry.validUntil) start =
        entry.validUntil := by
  induction cache generalizing start with
  | nil => exact .inl rfl
  | cons entry cache ih =>
    rw [foldl_cons]
    rcases ih (min start entry.validUntil) with same | ⟨other, member, same⟩
    · rw [same]
      rcases Nat.le_total start entry.validUntil with earlier | later
      · exact .inl (Nat.min_eq_left earlier)
      · exact .inr ⟨entry, mem_cons_self .., Nat.min_eq_right later⟩
    · exact .inr ⟨other, mem_cons_of_mem _ member, same⟩

theorem length_removeOneCacheEntry (cache : List (CacheEntry η)) :
    (removeOneCacheEntry cache).length = cache.length - 1 := by
  cases cache with
  | nil => rfl
  | cons front cache =>
    have found : ∃ entry ∈ front :: cache, entry.validUntil = (front :: cache).foldl
        (fun first entry => min first entry.validUntil) front.validUntil := by
      rcases foldl_min_mem (front :: cache) front.validUntil with same | ⟨entry, member, same⟩
      · exact ⟨front, mem_cons_self .., same.symm⟩
      · exact ⟨entry, member, same.symm⟩
    obtain ⟨entry, member, first⟩ := found
    exact length_eraseP_of_mem member (beq_iff_eq.mpr first)

theorem removeOneCacheEntry_subset (cache : List (CacheEntry η)) :
    ∀ entry ∈ removeOneCacheEntry cache, entry ∈ cache := by
  intro entry member
  cases cache with
  | nil => exact member
  | cons front cache =>
    rw [removeOneCacheEntry] at member
    exact mem_of_mem_eraseP member

theorem Inv.removeOneCacheEntry (inv : Inv setup s) :
    Inv setup { s with cache := removeOneCacheEntry s.cache } where
  running := inv.running
  orderly := inv.orderly
  moving := inv.moving
  hits := inv.hits
  room := by
    rw [length_removeOneCacheEntry]
    exact (Nat.sub_le _ _).trans inv.room
  kept := fun entry member =>
    have old := inv.kept entry (removeOneCacheEntry_subset s.cache entry member)
    ⟨old.hash, old.latest, old.cleaned⟩

variable {name : Bytes} {result : NameResolverResult}

theorem Inv.addToCache (inv : Inv setup s) (room : s.cache.length < setup.maxSize)
    (unknown : ∀ entry ∈ s.cache, entry.name ≠ name) (address : IPAddress) (validUntil : Nat) :
    Inv setup { s.addToCache setup name address validUntil with
      latest := update s.latest name (some address) } := by
  rw [NameResolverCache.addToCache, if_neg (Nat.not_le.mpr room)]
  exact {
    running := inv.running
    orderly := inv.orderly
    moving := inv.moving
    hits := inv.hits
    room := by
      refine (length_filter_le _ _).trans ?_
      rw [length_append, length_singleton]
      exact room
    kept := by
      intro entry member
      have cleaned := cleanup_cleaned
        { s with cache := s.cache ++ [⟨name, address, validUntil, setup.hash name⟩] } entry member
      cases mem_append.mp (mem_filter.mp member).1 with
      | inl old =>
        have kept := inv.kept entry old
        exact ⟨kept.hash, (update_of_ne (unknown entry old) _ _).trans kept.latest,
          cleaned⟩
      | inr new =>
        cases mem_singleton.mp new
        exact ⟨rfl, update_self .., cleaned⟩ }

theorem Inv.tryAddToCache (inv : Inv setup s) (holds : 0 < setup.maxSize)
    (unknown : ∀ entry ∈ s.cache, entry.name ≠ name) (address : IPAddress) (validUntil : Nat) :
    Inv setup { s.tryAddToCache setup name address validUntil with
      latest := update s.latest name (some address) } := by
  rw [NameResolverCache.tryAddToCache]
  split
  next full =>
    apply inv.removeOneCacheEntry.addToCache
    · rw [length_removeOneCacheEntry]
      omega
    · intro entry member
      exact unknown entry (removeOneCacheEntry_subset s.cache entry member)
  next space => exact inv.addToCache (Nat.lt_of_le_of_ne inv.room space) unknown address validUntil

theorem Inv.cancelLookup (inv : Inv setup s) (requested : Requested s.requests result)
    (active : s.requests.active ≠ none) :
    Inv setup (s.cancelLookup result) := by
  rw [NameResolverCache.cancelLookup]
  split
  next none_ => exact absurd none_ active
  next ticket resolving lookup known =>
    split
    next same =>
      exact .tryResolveNext inv.running inv.orderly.cancel inv.hits inv.room inv.kept
    next other =>
      split
      next missing => exact absurd missing (requested.waits known other)
      next ticket' _ found =>
        have member := mem_of_find?_eq_some found
        exact {
          running := inv.running
          orderly := inv.orderly.withdraw (mem_map_of_mem member)
          moving := fun _ _ => active
          hits := inv.hits
          room := inv.room
          kept := inv.kept }

theorem Inv.lookup [DecidableEq η] (inv : Inv setup s) (injective : Function.Injective setup.hash)
    (punctual : ∀ time, s.cleanupTimer = some time → s.now ≤ time) :
    Inv setup (s.lookup setup result) := by
  rw [NameResolverCache.lookup]
  split
  next entry found =>
    have member := mem_of_find?_eq_some found
    have kept := inv.kept entry member
    obtain ⟨time, timer, cleaned⟩ := kept.cleaned
    have same : entry.name = setup.hostname result := by
      rw [searchCache] at found
      have matches_ := find?_some found
      apply injective
      rw [← kept.hash]
      exact of_decide_eq_true matches_
    exact {
      running := inv.running
      orderly := inv.orderly.answerAtOnce
      moving := by
        intro outside
        exact inv.moving fun inside => outside (mem_cons_of_mem _ inside)
      hits := by
        intro hit member
        cases mem_append.mp member with
        | inl old => exact inv.hits hit old
        | inr new =>
          cases mem_singleton.mp new
          exact ⟨(punctual time timer).trans cleaned, same ▸ kept.latest⟩
      room := inv.room
      kept := inv.kept }
  next =>
    exact .tryResolveNext (s := { s with requests := s.requests.request result }) inv.running
      (inv.orderly.request result) inv.hits inv.room inv.kept

theorem Inv.step [DecidableEq η] {t : NameResolverCache η} {event : Event} (inv : Inv setup s)
    (injective : Function.Injective setup.hash) (holds : 0 < setup.maxSize)
    (meets : Meets setup s event) (stepped : s.step setup event = some t) : Inv setup t := by
  unfold NameResolverCache.step at stepped
  rw [if_neg (not_not.mpr inv.running)] at stepped
  cases event with
  | lookup result =>
    simp only at stepped
    split at stepped
    next => cases stepped
    next =>
      cases stepped
      exact inv.lookup injective meets
  | cancelLookup result =>
    simp only at stepped
    split at stepped
    next requested =>
      cases stepped
      exact inv.cancelLookup requested meets
    next => cases stepped
  | nameLookupDone address validUntil =>
    obtain ⟨active, known, answered⟩ := Option.map_eq_some_iff.mp stepped
    rw [← answered]
    exact (inv.tryAddToCache holds (meets active known) address _).nameLookupDone
  | nameLookupFailed =>
    obtain ⟨_, _, answered⟩ := Option.map_eq_some_iff.mp stepped
    rw [← answered]
    exact inv.nameLookupDone
  | observerReturns =>
    simp only at stepped
    split at stepped
    next => cases stepped
    next callers inside =>
      cases stepped
      exact {
        running := inv.running
        orderly := inv.orderly
        moving := by
          intro outside
          apply inv.moving
          rw [inside]
          simpa using outside
        hits := inv.hits
        room := inv.room
        kept := inv.kept }
    next callers inside =>
      cases stepped
      exact .tryResolveNext (s := { s with observerCallbacks := callers }) inv.running
        inv.orderly inv.hits inv.room inv.kept
  | progress time =>
    cases stepped
    exact {
      running := inv.running
      orderly := inv.orderly
      moving := inv.moving
      hits := inv.hits
      room := inv.room
      kept := inv.kept }
  | cleanup =>
    simp only at stepped
    split at stepped
    next => cases stepped
    next time timer =>
      split at stepped
      next =>
        cases stepped
        exact inv.cleanup
      next => cases stepped

theorem served [DecidableEq η] (injective : Function.Injective setup.hash)
    (holds : 0 < setup.maxSize)
    (reached : Runs.Reachable (NameResolverCache.step setup) (Meets setup) construct s) :
    Served s := by
  have inv : Inv setup s := by
    refine reached.invariant ⟨⟨rfl, .empty, fun _ some_ => absurd rfl some_, nofun⟩,
      Nat.zero_le _, nofun⟩ ?_
    intro s event t kept meets stepped
    exact kept.step injective holds meets stepped
  exact inv.toServed

end NameResolverCache

/-- A cache for one name, and results that are all for the name a. -/
def smallCache : CacheSetup Bytes where
  hash := id
  maxSize := 1
  minimumTtl := 10
  hostname _ := [0x61]

def firstAddress : IPAddress := .ipv4 #v[192, 168, 0, 1]

def secondAddress : IPAddress := .ipv4 #v[192, 168, 0, 2]

end Dns
