import EmbeddedInfra.Echo.SendRequests

/-! What each event does to the line of proxies that wait: the first one leaves it when it is
granted, and no other is passed over. -/

namespace Echo

open Runs List Function

variable {σ μ : Type} {policy : EchoPolicy σ μ} {asks : Bool} {holding : σ → Bool}

namespace EchoOnSesame

variable {s u : EchoOnSesame σ μ}

/-- The stream that was asked for is to be skipped, or takes more of a message that was
partly sent. -/
def occupied (s : EchoOnSesame σ μ) : Bool := s.skipNextStream || s.methodSerializer.isSome

def settled (proxy : ServiceProxy) (s : EchoOnSesame σ μ) : Nat :=
  s.granted proxy + s.cancelled proxy

/-- A bound on the streams that become available before the proxy is granted, less those
that take only a part of a message. -/
def waitsFor (policy : EchoPolicy σ μ) (proxy : ServiceProxy) (s : EchoOnSesame σ μ) : Nat :=
  2 * (s.line policy).idxOf proxy + if s.occupied = true then 1 else 0

/-- What an event does to the line. A stream that completes something frees the place for
the next one. -/
inductive Advance (policy : EchoPolicy σ μ) (s u : EchoOnSesame σ μ) (completes : Bool) : Prop
  | waits (more : List ServiceProxy) (line : u.line policy = s.line policy ++ more)
      (occupied : u.occupied = true → s.occupied = true)
      (completed : completes = true → s.occupied = true ∧ u.occupied = false)
      (granted : u.granted = s.granted) (cancelled : u.cancelled = s.cancelled)
  | grants (proxy : ServiceProxy) (rest more : List ServiceProxy)
      (before : s.line policy = proxy :: rest) (after : u.line policy = rest ++ more)
      (completed : completes = true → u.occupied = false)
      (granted : u.granted = increase s.granted proxy) (cancelled : u.cancelled = s.cancelled)
  | cancels (proxy : ServiceProxy) (line : u.line policy = (s.line policy).erase proxy)
      (occupied : u.occupied = s.occupied) (incomplete : completes = false)
      (granted : u.granted = s.granted) (cancelled : u.cancelled = increase s.cancelled proxy)
  | drops (proxy : ServiceProxy) (rest : List ServiceProxy)
      (before : s.line policy = proxy :: rest) (after : u.line policy = rest)
      (incomplete : completes = false)
      (granted : u.granted = s.granted) (cancelled : u.cancelled = increase s.cancelled proxy)

theorem Steady.armed_iff (steady : Steady policy asks holding s) (proxy : ServiceProxy) :
    s.onGranted proxy = true ↔ proxy ∈ s.line policy :=
  steady.coherent.armed proxy

theorem increase_self (counts : ServiceProxy → Nat) (proxy : ServiceProxy) :
    increase counts proxy proxy = counts proxy + 1 :=
  update_self ..

variable {proxy other : ServiceProxy}

theorem increase_of_ne {counts : ServiceProxy → Nat} (different : other ≠ proxy) :
    increase counts proxy other = counts other :=
  update_of_ne different ..

theorem le_increase (counts : ServiceProxy → Nat) (proxy other : ServiceProxy) :
    counts other ≤ increase counts proxy other := by
  by_cases same : other = proxy
  · rw [same, increase_self]
    exact Nat.le_succ _
  · rw [increase_of_ne same]

variable {completes : Bool} {requests : List (Nat × Nat)} {partly : Bool}

theorem Advance.le (advance : Advance policy s u completes) (proxy : ServiceProxy) :
    s.granted proxy ≤ u.granted proxy ∧ s.cancelled proxy ≤ u.cancelled proxy := by
  cases advance with
  | waits _ _ _ _ granted cancelled =>
    rw [granted, cancelled]
    exact ⟨le_rfl, le_rfl⟩
  | grants _ _ _ _ _ _ granted cancelled =>
    rw [granted, cancelled]
    exact ⟨le_increase .., le_rfl⟩
  | cancels _ _ _ _ granted cancelled | drops _ _ _ _ _ granted cancelled =>
    rw [granted, cancelled]
    exact ⟨le_rfl, le_increase ..⟩

theorem waitsFor_front {rest more : List ServiceProxy} (before : s.line policy = proxy :: rest)
    (after : u.line policy = rest ++ more) (different : other ≠ proxy) (member : other ∈ rest) :
    u.waitsFor policy other + 1 ≤ s.waitsFor policy other ∧
      (u.occupied = false → u.waitsFor policy other + 2 ≤ s.waitsFor policy other) := by
  have first : (proxy :: rest).idxOf other = rest.idxOf other + 1 :=
    idxOf_cons_ne _ (Ne.symm different)
  rw [waitsFor, waitsFor, before, after, idxOf_append_of_mem member, first]
  constructor
  · split
    · split
      · omega
      · omega
    · omega
  · intro free
    rw [free]
    simp only [Bool.false_eq_true, if_false]
    omega

theorem idxOf_erase_le {gone : ServiceProxy} {line : List ServiceProxy} (different : other ≠ gone) :
    (line.erase gone).idxOf other ≤ line.idxOf other := by
  induction line with
  | nil => exact le_rfl
  | cons first rest ih =>
    by_cases same : first = gone
    · rw [same, erase_cons_head, idxOf_cons_ne _ (Ne.symm different)]
      exact Nat.le_succ _
    · rw [erase_cons_tail (by rwa [beq_iff_eq])]
      by_cases here : first = other
      · rw [here, idxOf_cons_self]
        exact Nat.zero_le _
      · rw [idxOf_cons_ne _ here, idxOf_cons_ne _ here]
        exact Nat.succ_le_succ ih

theorem Advance.settles (advance : Advance policy s u completes)
    (before : Steady policy asks holding s) (after : Steady policy asks holding u)
    (armed : s.onGranted proxy = true) :
    settled proxy u = settled proxy s + 1 ∨
      settled proxy u = settled proxy s ∧ u.onGranted proxy = true ∧
        u.waitsFor policy proxy + (if completes = true then 1 else 0) ≤
          s.waitsFor policy proxy := by
  have waiting := (before.armed_iff proxy).mp armed
  have nodup : (s.line policy).Nodup := before.coherent.nodup
  cases advance with
  | waits more line occupied completed granted cancelled =>
    right
    refine ⟨by rw [settled, settled, granted, cancelled], ?_, ?_⟩
    · rw [after.armed_iff, line]
      exact mem_append_left _ waiting
    · rw [waitsFor, waitsFor, line, idxOf_append_of_mem waiting]
      cases completes with
      | true =>
        rw [(completed rfl).1, (completed rfl).2]
        simp
      | false =>
        by_cases busy : u.occupied = true
        · rw [busy, occupied busy]
          simp
        · rw [if_neg busy]
          simp
  | grants first rest more front back completed granted cancelled =>
    by_cases same : proxy = first
    · left
      rw [settled, settled, granted, cancelled, same, increase_self]
      omega
    · right
      have member : proxy ∈ rest := by
        rw [front] at waiting
        exact (mem_cons.mp waiting).resolve_left same
      have closer := waitsFor_front front back same member
      refine ⟨by rw [settled, settled, granted, cancelled, increase_of_ne same], ?_, ?_⟩
      · rw [after.armed_iff, back]
        exact mem_append_left _ member
      · cases completes with
        | true =>
          have two := closer.2 (completed rfl)
          simp only [if_true]
          omega
        | false =>
          simp only [Bool.false_eq_true, if_false]
          omega
  | cancels gone line occupied incomplete granted cancelled =>
    by_cases same : proxy = gone
    · left
      rw [settled, settled, granted, cancelled, same, increase_self]
      omega
    · right
      refine ⟨by rw [settled, settled, granted, cancelled, increase_of_ne same], ?_, ?_⟩
      · rw [after.armed_iff, line]
        exact (mem_erase_of_ne same).mpr waiting
      · have earlier : ((s.line policy).erase gone).idxOf proxy ≤ (s.line policy).idxOf proxy :=
          idxOf_erase_le same
        rw [waitsFor, waitsFor, line, occupied, incomplete]
        simp only [Bool.false_eq_true, if_false]
        omega
  | drops first rest front back incomplete granted cancelled =>
    by_cases same : proxy = first
    · left
      rw [settled, settled, granted, cancelled, same, increase_self]
      omega
    · right
      have member : proxy ∈ rest := by
        rw [front] at waiting
        exact (mem_cons.mp waiting).resolve_left same
      have closer := waitsFor_front front (back.trans (append_nil rest).symm) same member
      refine ⟨by rw [settled, settled, granted, cancelled, increase_of_ne same], ?_, ?_⟩
      · rw [after.armed_iff, back]
        exact member
      · rw [incomplete]
        simp only [Bool.false_eq_true, if_false]
        omega

/-! ### Requests -/

theorem steady_requestSend (holdsBack : HoldsBack policy asks holding)
    (steady : Steady policy asks holding s) (size : Nat) (unarmed : s.onGranted proxy = false)
    (exists' : proxy ∉ s.destroyed) (own : proxy = .policy → asks = true) :
    ∃ u, requestSend policy s proxy size = .ok u ∧ Steady policy asks holding u ∧
      (proxy ≠ .policy ∨ policy.waitingProxies s.policy = [] →
        u.line policy = s.line policy ++ [proxy]) ∧
      holding u.policy = holding s.policy ∧ u.occupied = s.occupied ∧
      (u.initialized, u.onGranted, u.destroyed, u.granted, u.cancelled) =
        (s.initialized, update s.onGranted proxy true, s.destroyed, s.granted,
          s.cancelled) := by
  obtain ⟨state, sendRequesters, held, coherent, last, asked⟩ :=
    requestSend_eq holdsBack steady.coherent steady.idle size unarmed exists' own
  have streaming : (s.withRequest proxy size state sendRequesters).Streaming :=
    ⟨steady.streaming.streams, steady.streaming.ready⟩
  obtain ⟨steady', line, accounts, skip, serializer⟩ := steady_tryGrantSend coherent streaming
  simp only [EchoOnSesame.accounts, Prod.mk.injEq] at accounts
  obtain ⟨state_eq, initialized, onGranted, destroyed, -, granted, cancelled⟩ := accounts
  refine ⟨_, asked, steady', ?_, ?_, ?_, ?_⟩
  · intro ordered
    rw [line, EchoOnSesame.line, EchoOnSesame.line, append_assoc, ← last ordered]
    rfl
  · rw [state_eq]
    exact held
  · rw [occupied, occupied, skip, serializer]
    rfl
  · rw [initialized, onGranted, destroyed, granted, cancelled]
    rfl

/-! ### A stream -/

theorem grantSend_eq (holdsBack : HoldsBack policy asks holding)
    (coherent : Coherent policy asks holding [proxy] s) (sending : s.sendingProxy = some proxy)
    (nest : s.MayNest requests) (granting : s.granting = some proxy) :
    ∃ u method, grantSend policy s proxy requests = .ok (u, method) ∧
      Coherent policy asks holding [] u ∧ (∃ more, u.queued policy = s.queued policy ++ more) ∧
      (holding u.policy = true → holding s.policy = true ∧
        u.onGranted .policy = s.onGranted .policy) ∧
      u = { s with
        policy := u.policy
        sendRequesters := u.sendRequesters
        onGranted := u.onGranted
        currentRequestedSize := u.currentRequestedSize
        requested := u.requested
        granted := increase s.granted proxy } := by
  have armed : s.onGranted proxy = true :=
    (coherent.armed proxy).mpr (mem_cons_self ..)
  have granted := coherent.grant
  cases proxy with
  | policy =>
    obtain ⟨grant, onGranted, released, none, requeued, once⟩ :=
      holdsBack.granted (coherent.own armed) s.policy
    have distinct : (s.sendRequesters ++ grant.requeued).Nodup := by
      rw [requeued]
      exact (nodup_cons.mp coherent.nodup).2
    let u : EchoOnSesame σ μ :=
      { s with
        policy := grant.state
        sendRequesters := s.sendRequesters ++ grant.requeued
        onGranted := update s.onGranted .policy false
        granted := increase s.granted .policy }
    have queued_eq : u.queued policy = s.queued policy := by
      change s.sendRequesters ++ grant.requeued ++ policy.waitingProxies grant.state = _
      rw [none, append_nil, requeued, queued]
    refine ⟨u, .establishment grant.method, ?_, ?_, ⟨[], ?_⟩, ?_, rfl⟩
    · have requeues := foldlM_onRequest (s := { s with
        policy := grant.state
        onGranted := update s.onGranted .policy false
        granted := increase s.granted .policy }) grant.requeued sending distinct
      rw [grantSend, if_pos armed]
      simp only [onGranted, requeues, once]
      rfl
    · apply granted.move
      · rw [nil_append, nil_append]
        exact List.Perm.of_eq queued_eq
      · rw [none]
        exact ⟨not_mem_nil, fun some => absurd rfl some⟩
    · rw [queued_eq, append_nil]
    · intro held
      cases released.symm.trans held
  | application n =>
    have unarmed : ∀ request ∈ requests,
        update s.onGranted (.application n) false (.application request.1) = false ∧
          .application request.1 ∉ s.destroyed := by
      intro request member
      obtain ⟨exists', free⟩ := nest.2.1 request member
      refine ⟨?_, exists'⟩
      by_cases same : ServiceProxy.application request.1 = .application n
      · rw [same, update_self]
      · rw [update_of_ne same]
        apply free.resolve_right
        rw [granting, Option.some.injEq]
        exact Ne.symm same
    obtain ⟨u, run, coherentU, held, own, last, frame⟩ :=
      foldlM_requestSend holdsBack requests granted sending nest.1 unarmed
    refine ⟨u, .application, ?_, coherentU, ⟨_, last⟩, ?_, ?_⟩
    · rw [grantSend, if_pos armed]
      simp only [run]
      rfl
    · intro holds
      have other : ServiceProxy.policy ≠ .application n := by
        intro same
        cases same
      have kept : update s.onGranted (.application n) false .policy =
          s.onGranted .policy := update_of_ne other ..
      exact ⟨held.symm.trans holds, own.trans kept⟩
    · rw [frame]

theorem steady_finishSend
    (coherent : Coherent policy asks holding [] { s with methodSerializer := none })
    (sending : s.sendingProxy = some proxy) (serializing : s.methodSerializer.isSome = true)
    (skip : s.skipNextStream = false) (none : s.streams = 0)
    (ready : (s.requestedSize ≠ Option.none → s.initialized = false) ∧
      (s.sendStreams ≠ [] → s.initialized = true)) (initialized : s.initialized = true)
    (exists' : partly = true → proxy ∉ s.destroyed) :
    ∃ u, s.finishSend partly = .ok u ∧ Steady policy asks holding u ∧
      u.line policy = s.queued policy ∧ u.accounts = s.accounts ∧ u.occupied = partly := by
  cases partly with
  | true =>
    obtain ⟨sendStreams, requestedSize, eq, one, ready'⟩ := requestSendStream_eq
      (s := { s with partlySent := true }) (s.currentRequestedSize proxy) none ready
    let u : EchoOnSesame σ μ :=
      { s with
        partlySent := true
        sendStreams := sendStreams
        requestedSize := requestedSize }
    have noFront : u.current = [] := if_pos serializing
    refine ⟨u, ?_, ⟨?_, ⟨?_, ready'⟩, ?_⟩, ?_, rfl, ?_⟩
    · rw [finishSend, if_pos rfl]
      split
      next free => cases sending.symm.trans free
      next other same =>
        obtain rfl := Option.some.inj (same.symm.trans sending)
        rw [if_neg (exists' rfl), eq]
    · rw [noFront]
      exact ⟨coherent.nodup, coherent.armed, coherent.counts, coherent.exist, coherent.own,
        coherent.waiting, coherent.skip,
        fun _ => ⟨by rw [sending]; exact Option.some_ne_none proxy, rfl, initialized⟩⟩
    · rw [streams, one, if_pos (Or.inr (by rw [sending]; exact Option.some_ne_none proxy))]
    · intro _ free
      cases sending.symm.trans free
    · rw [line, noFront]
      rfl
    · rw [occupied, skip, serializing]
      rfl
  | false =>
    let idle : EchoOnSesame σ μ :=
      { s with
        partlySent := false
        sendingProxy := Option.none
        methodSerializer := Option.none }
    have done : Coherent policy asks holding [] idle :=
      ⟨coherent.nodup, coherent.armed, coherent.counts, coherent.exist, coherent.own,
        coherent.waiting, fun _ => rfl, by intros; contradiction⟩
    have streaming : idle.Streaming := by
      refine ⟨?_, ready⟩
      rw [if_neg]
      · exact none
      · rintro (skipping | some)
        · cases skip.symm.trans skipping
        · exact some rfl
    obtain ⟨steady, line, accounts, skip', serializer⟩ := steady_tryGrantSend done streaming
    refine ⟨_, rfl, steady, line, accounts, ?_⟩
    rw [occupied, skip', serializer]
    exact Bool.or_eq_false_iff.mpr ⟨skip, rfl⟩

theorem steady_sendStreamAvailable (holdsBack : HoldsBack policy asks holding)
    (steady : Steady policy asks holding s) (some_stream : s.sendStreams ≠ [])
    (nest : s.MayNest requests)
    (exists' : partly = true → s.skipNextStream = true ∨ ∀ proxy, s.sendingProxy = some proxy →
      proxy ∉ s.destroyed) :
    ∃ u, sendStreamAvailable policy { s with sendStreams := s.sendStreams.tail } requests partly =
        .ok u ∧ Steady policy asks holding u ∧
      Advance policy s u (!partly || s.skipNextStream) ∧ u.initialized = s.initialized ∧
      u.destroyed = s.destroyed ∧ (holding u.policy = true → holding s.policy = true ∧
        u.onGranted .policy = s.onGranted .policy) := by
  have initialized := steady.streaming.ready.2 some_stream
  have noSize : s.requestedSize = none := by
    by_contra some
    cases (steady.streaming.ready.1 some).symm.trans initialized
  have one := steady.streaming.streams
  have long := length_pos_iff.mpr some_stream
  have busy : s.skipNextStream = true ∨ s.sendingProxy ≠ none := by
    by_contra idle
    rw [if_neg idle, streams, noSize] at one
    simp only [if_true] at one
    omega
  rw [if_pos busy, streams, noSize] at one
  have noStreams : { s with sendStreams := s.sendStreams.tail }.streams = 0 := by
    simp only [streams, noSize, length_tail, if_true] at one ⊢
    omega
  have ready : (s.requestedSize ≠ none → s.initialized = false) ∧
      (s.sendStreams.tail ≠ [] → s.initialized = true) :=
    ⟨steady.streaming.ready.1, fun _ => initialized⟩
  by_cases skip : s.skipNextStream = true
  · have free := steady.coherent.skip skip
    have noSerializer : ¬ s.methodSerializer.isSome = true :=
      fun some => (steady.coherent.serializer some).1 free
    have coherent : Coherent policy asks holding s.current { s with
        sendStreams := s.sendStreams.tail
        skipNextStream := false } :=
      ⟨steady.coherent.nodup, steady.coherent.armed, steady.coherent.counts,
        steady.coherent.exist, steady.coherent.own, steady.coherent.waiting, by simp,
        steady.coherent.serializer⟩
    have streaming : Streaming { s with
        sendStreams := s.sendStreams.tail
        skipNextStream := false } := by
      refine ⟨?_, ready⟩
      rw [if_neg]
      · exact noStreams
      · rintro (skipping | some)
        · cases skipping
        · exact some free
    obtain ⟨steady', line, accounts, skip', serializer⟩ := steady_tryGrantSend coherent streaming
    simp only [EchoOnSesame.accounts, Prod.mk.injEq] at accounts
    obtain ⟨state, initialized', onGranted, destroyed, -, granted, cancelled⟩ := accounts
    have cleared : (tryGrantSend { s with
        sendStreams := s.sendStreams.tail
        skipNextStream := false }).occupied = false := by
      rw [occupied, skip', serializer]
      exact Bool.eq_false_iff.mpr noSerializer
    refine ⟨_, ?_, steady', ?_, initialized', destroyed, ?_⟩
    · rw [sendStreamAvailable, if_pos skip]
    · apply Advance.waits []
      · rw [append_nil, line]
        rfl
      · intro busy'
        cases cleared.symm.trans busy'
      · intro _
        refine ⟨?_, cleared⟩
        rw [occupied, skip]
        rfl
      · exact granted
      · exact cancelled
    · intro holds
      rw [state] at holds
      exact ⟨holds, congrFun onGranted _⟩
  · obtain ⟨proxy, sending⟩ := Option.ne_none_iff_exists'.mp (busy.resolve_left skip)
    have noSkip : s.skipNextStream = false := Bool.eq_false_iff.mpr skip
    have alive : partly = true → proxy ∉ s.destroyed :=
      fun some => (exists' some).resolve_left skip proxy sending
    by_cases serializing : s.methodSerializer.isSome = true
    · have noFront : s.current = [] := if_pos serializing
      have prepared : ∃ method, prepareSend policy { s with sendStreams := s.sendStreams.tail }
          requests = .ok ({ s with sendStreams := s.sendStreams.tail }, method, none) := by
        unfold prepareSend
        split
        next method _ => exact ⟨method, rfl⟩
        next free =>
          rw [free] at serializing
          cases serializing
      obtain ⟨method, prepared⟩ := prepared
      have coherent := steady.coherent
      rw [noFront] at coherent
      obtain ⟨u, finished, steady', line, accounts, occupied'⟩ := steady_finishSend
        (s := { s with sendStreams := s.sendStreams.tail })
        ⟨coherent.nodup, coherent.armed, coherent.counts, coherent.exist, coherent.own,
          coherent.waiting, coherent.skip, by simp⟩
        sending serializing noSkip noStreams ready initialized alive
      simp only [EchoOnSesame.accounts, Prod.mk.injEq] at accounts
      obtain ⟨state, initialized', onGranted, destroyed, -, granted, cancelled⟩ := accounts
      refine ⟨u, ?_, steady', ?_, initialized', destroyed, ?_⟩
      · rw [sendStreamAvailable, if_neg skip, prepared]
        exact finished
      · have before : s.occupied = true := by rw [occupied, serializing, Bool.or_true]
        apply Advance.waits []
        · rw [append_nil, line, EchoOnSesame.line, noFront]
          rfl
        · exact fun _ => before
        · intro completes
          rw [noSkip, Bool.or_false, Bool.not_eq_true'] at completes
          exact ⟨before, occupied'.trans completes⟩
        · exact granted
        · exact cancelled
      · intro holds
        rw [state] at holds
        exact ⟨holds, congrFun onGranted _⟩
    · have front : s.current = [proxy] := by
        rw [current, if_neg serializing, sending]
        rfl
      have coherent := steady.coherent
      rw [front] at coherent
      have granting : s.granting = some proxy := by
        rw [EchoOnSesame.granting, if_neg (by rw [not_or]; exact ⟨skip, serializing⟩), sending]
      obtain ⟨v, method, granted, coherentV, ⟨more, last⟩, own, frame⟩ := grantSend_eq holdsBack
        (s := { s with sendStreams := s.sendStreams.tail })
        ⟨coherent.nodup, coherent.armed, coherent.counts, coherent.exist, coherent.own,
          coherent.waiting, coherent.skip, coherent.serializer⟩
        sending nest granting
      have sending' : v.sendingProxy = some proxy := by rw [frame, sending]
      have skip' : v.skipNextStream = false := by rw [frame, noSkip]
      have none' : v.streams = 0 := by
        rw [frame]
        exact noStreams
      have ready' : (v.requestedSize ≠ none → v.initialized = false) ∧
          (v.sendStreams ≠ [] → v.initialized = true) := by
        rw [frame]
        exact ready
      have initialized' : v.initialized = s.initialized := by rw [frame]
      have destroyed' : v.destroyed = s.destroyed := by rw [frame]
      have granted' : v.granted = increase s.granted proxy := by rw [frame]
      have cancelled' : v.cancelled = s.cancelled := by rw [frame]
      obtain ⟨holds', waiting'⟩ := holdsBack.granting v.policy proxy
      have moved : Coherent policy asks holding [] { v with
          policy := (policy.grantingSend v.policy proxy).1
          sendRequesters := v.sendRequesters } :=
        coherentV.move (by rw [waiting', queued])
          (by rw [waiting', holds']; exact coherentV.waiting)
      obtain ⟨u, finished, steady', line, accounts, occupied'⟩ := steady_finishSend
        (s := { v with
          policy := (policy.grantingSend v.policy proxy).1
          methodSerializer := some method })
        ⟨moved.nodup, moved.armed, moved.counts, moved.exist, moved.own, moved.waiting,
          moved.skip, by simp⟩
        sending' rfl skip' none' ready' (initialized'.trans initialized)
        (fun some => destroyed' ▸ alive some)
      simp only [EchoOnSesame.accounts, Prod.mk.injEq] at accounts
      obtain ⟨state, initialized'', onGranted, destroyed'', -, granted'', cancelled''⟩ := accounts
      refine ⟨u, ?_, steady', ?_, initialized''.trans initialized', destroyed''.trans destroyed',
        ?_⟩
      · have prepared : ∃ keys, prepareSend policy { s with sendStreams := s.sendStreams.tail }
            requests = .ok ({ v with
              policy := (policy.grantingSend v.policy proxy).1
              methodSerializer := some method }, method, keys) := by
          unfold prepareSend
          split
          next other same => exact absurd (by rw [same]; rfl) serializing
          next =>
            split
            next free => cases sending.symm.trans free
            next other same =>
              obtain rfl := Option.some.inj (same.symm.trans sending)
              rw [granted]
              exact ⟨_, rfl⟩
        obtain ⟨keys, prepared⟩ := prepared
        rw [sendStreamAvailable, if_neg skip, prepared]
        exact finished
      · apply Advance.grants proxy (s.queued policy) more
        · rw [EchoOnSesame.line, front]
          rfl
        · rw [line, queued, waiting']
          exact last
        · intro completes
          rw [noSkip, Bool.or_false, Bool.not_eq_true'] at completes
          exact occupied'.trans completes
        · exact granted''.trans granted'
        · exact cancelled''.trans cancelled'
      · intro holds
        rw [state, holds'] at holds
        exact ⟨(own holds).1, (congrFun onGranted _).trans (own holds).2⟩

/-! ### A proxy is destroyed -/

theorem Coherent.cancel {loose : List ServiceProxy}
    (coherent : Coherent policy asks holding (proxy :: loose) s) :
    Coherent policy asks holding loose
      { s with
        onGranted := update s.onGranted proxy false
        destroyed := proxy :: s.destroyed
        cancelled := increase s.cancelled proxy } := by
  have granted := coherent.grant
  refine ⟨granted.nodup, granted.armed, ?_, ?_, granted.own, coherent.waiting, coherent.skip,
    coherent.serializer⟩
  · intro other
    by_cases same : other = proxy
    · have before := coherent.counts proxy
      have armed := (coherent.armed proxy).mpr (mem_cons_self ..)
      rw [armed, if_pos rfl] at before
      rw [same]
      simp only [increase_self, update_self, Bool.false_eq_true, if_false]
      omega
    · simp only [increase_of_ne same, update_of_ne same]
      exact coherent.counts other
  · intro other armed
    rw [mem_cons, not_or]
    refine ⟨?_, granted.exist other armed⟩
    intro same
    simp only [same, update_self] at armed
    cases armed

theorem steady_destroy (steady : Steady policy asks holding s) {n : Nat}
    (elsewhere : .application n ∉ policy.waitingProxies s.policy) :
    ∃ u, s.destroy (.application n) = .ok u ∧ Steady policy asks holding u ∧
      Advance policy s u false ∧ u.initialized = s.initialized ∧ u.policy = s.policy ∧
      u.destroyed = .application n :: s.destroyed ∧
      u.onGranted .policy = s.onGranted .policy := by
  have other : ServiceProxy.policy ≠ .application n := by
    intro same
    cases same
  have coherent := steady.coherent
  by_cases armed : s.onGranted (.application n) = true
  · have kept : update s.onGranted (.application n) false .policy = s.onGranted .policy :=
      update_of_ne other ..
    have member := (coherent.armed _).mp armed
    rw [queued, ← append_assoc, mem_append, mem_append] at member
    by_cases waits : .application n ∈ s.sendRequesters
    · have notFront : .application n ∉ s.current := by
        intro front
        exact (nodup_append.mp coherent.nodup).2.2 _ front _
          (mem_append_left _ waits) rfl
      let u : EchoOnSesame σ μ :=
        { s with
          sendRequesters := s.sendRequesters.erase (.application n)
          onGranted := update s.onGranted (.application n) false
          destroyed := .application n :: s.destroyed
          cancelled := increase s.cancelled (.application n) }
      have moved : Coherent policy asks holding (.application n :: s.current) { s with
          policy := s.policy
          sendRequesters := s.sendRequesters.erase (.application n) } := by
        apply coherent.move _ coherent.waiting
        calc
          _ = .application n :: (s.current ++ (s.sendRequesters.erase (.application n) ++
                policy.waitingProxies s.policy)) := rfl
          List.Perm _ (s.current ++ (.application n :: (s.sendRequesters.erase (.application n) ++
                policy.waitingProxies s.policy))) := perm_middle.symm
          List.Perm _ (s.current ++ s.queued policy) :=
            ((perm_cons_erase waits).symm.append_right _).append_left _
      have streaming : u.Streaming := ⟨steady.streaming.streams, steady.streaming.ready⟩
      refine ⟨u, ?_, ⟨moved.cancel, streaming, ?_⟩, ?_, rfl, rfl, rfl, kept⟩
      · rw [destroy, if_pos armed, cancelRequestSend, if_pos waits]
        rfl
      · intro skip free
        change s.sendRequesters.erase (.application n) = []
        rw [steady.idle skip free, erase_nil]
      · apply Advance.cancels (.application n)
        · change s.current ++ (s.sendRequesters.erase (.application n) ++
            policy.waitingProxies s.policy) = _
          rw [line, erase_append_right _ notFront, queued, erase_append_left _ waits]
        · rfl
        · rfl
        · rfl
        · rfl
    · have front : .application n ∈ s.current :=
        (member.resolve_right elsewhere).resolve_right waits
      have noSerializer : ¬ s.methodSerializer.isSome = true := by
        intro some
        rw [current, if_pos some] at front
        cases front
      have sending : s.sendingProxy = some (.application n) := by
        rw [current, if_neg noSerializer, Option.mem_toList] at front
        exact front
      have current_eq : s.current = [.application n] := by
        rw [current, if_neg noSerializer, sending]
        rfl
      rw [current_eq] at coherent
      let u : EchoOnSesame σ μ :=
        { s with
          sendingProxy := none
          skipNextStream := true
          onGranted := update s.onGranted (.application n) false
          destroyed := .application n :: s.destroyed
          cancelled := increase s.cancelled (.application n) }
      have noFront : u.current = [] := by
        rw [current, if_neg noSerializer]
        rfl
      have cancelled := coherent.cancel
      refine ⟨u, ?_, ⟨?_, ?_, by simp⟩, ?_, rfl, rfl, rfl, kept⟩
      · rw [destroy, if_pos armed, cancelRequestSend, if_neg waits, if_pos sending]
        rfl
      · rw [noFront]
        exact ⟨cancelled.nodup, cancelled.armed, cancelled.counts, cancelled.exist,
          cancelled.own, cancelled.waiting, fun _ => rfl, fun some => absurd some noSerializer⟩
      · refine ⟨?_, steady.streaming.ready⟩
        have one := steady.streaming.streams
        rw [if_pos (Or.inr (by rw [sending]; exact Option.some_ne_none _))] at one
        rw [if_pos (Or.inl rfl)]
        exact one
      · apply Advance.drops (.application n) (s.queued policy)
        · rw [line, current_eq]
          rfl
        · rw [line, noFront]
          rfl
        · rfl
        · rfl
        · rfl
  · let u : EchoOnSesame σ μ := { s with destroyed := .application n :: s.destroyed }
    have streaming : u.Streaming := ⟨steady.streaming.streams, steady.streaming.ready⟩
    refine ⟨u, ?_, ⟨?_, streaming, steady.idle⟩, ?_, rfl, rfl, rfl, rfl⟩
    · rw [destroy, if_neg armed]
    · refine ⟨coherent.nodup, coherent.armed, coherent.counts, ?_, coherent.own,
        coherent.waiting, coherent.skip, coherent.serializer⟩
      intro proxy waiting
      rw [mem_cons, not_or]
      refine ⟨?_, coherent.exist proxy waiting⟩
      rintro rfl
      exact armed waiting
    · apply Advance.waits []
      · exact (append_nil _).symm
      · exact id
      · intro completes
        cases completes
      · rfl
      · rfl

/-! ### Reset and initialization -/

theorem steady_reset (steady : Steady policy asks holding s) (free : s.sendingProxy = none)
    (skip : s.skipNextStream = false) : Steady policy asks holding s.reset where
  coherent :=
    ⟨steady.coherent.nodup, steady.coherent.armed, steady.coherent.counts, steady.coherent.exist,
      steady.coherent.own, steady.coherent.waiting, steady.coherent.skip,
      fun some => absurd free (steady.coherent.serializer some).1⟩
  streaming := by
    refine ⟨?_, fun some => absurd rfl some, fun some => absurd rfl some⟩
    rw [if_neg]
    · rfl
    · rintro (skipping | some)
      · cases skip.symm.trans skipping
      · exact some free
  idle := steady.idle

theorem steady_notifyInitialized (holdsBack : HoldsBack policy asks holding)
    (steady : Steady policy asks holding s) (maxSendMessageSize : Nat)
    (alive : .policy ∉ s.destroyed) (own : asks = true → s.onGranted .policy = false) :
    ∃ u, notifyInitialized policy { s with maxSendMessageSize := maxSendMessageSize } = .ok u ∧
      Steady policy asks holding u ∧ u.initialized = s.initialized ∧ u.destroyed = s.destroyed ∧
      (asks = true → u.onGranted .policy = true) ∧
      (asks = false → holding u.policy = holding s.policy) ∧
      (u.granted = s.granted ∧ u.cancelled = s.cancelled) ∧
      (policy.waitingProxies s.policy = [] → Advance policy s u false) := by
  obtain ⟨asks_eq, holds, keeps, waiting⟩ := holdsBack.initialized s.policy
  let v : EchoOnSesame σ μ :=
    { s with
      maxSendMessageSize := maxSendMessageSize
      policy := (policy.initialized s.policy).1 }
  have held : policy.waitingProxies (policy.initialized s.policy).1 ≠ [] →
      holding (policy.initialized s.policy).1 = true := by
    intro some
    cases asks with
    | true => exact holds rfl
    | false =>
      rw [keeps rfl]
      exact steady.coherent.waiting.2 (waiting ▸ some)
  have same : v.queued policy = s.queued policy := by
    rw [queued, queued, waiting]
  have coherent : Coherent policy asks holding v.current v := by
    have moved : Coherent policy asks holding s.current { s with
        policy := (policy.initialized s.policy).1
        sendRequesters := s.sendRequesters } := by
      apply steady.coherent.move (List.Perm.of_eq (congrArg (s.current ++ ·) same))
      exact ⟨by rw [waiting]; exact steady.coherent.waiting.1, held⟩
    exact ⟨moved.nodup, moved.armed, moved.counts, moved.exist, moved.own, moved.waiting,
      moved.skip, moved.serializer⟩
  have steadyV : Steady policy asks holding v :=
    ⟨coherent, ⟨steady.streaming.streams, steady.streaming.ready⟩, steady.idle⟩
  have line_eq : v.line policy = s.line policy := congrArg (s.current ++ ·) same
  cases asks with
  | true =>
    obtain ⟨u, asked, steadyU, line, -, occupied, frame⟩ := steady_requestSend holdsBack steadyV
      policy.maxMessageSize (own rfl) alive fun _ => rfl
    simp only [Prod.mk.injEq] at frame
    obtain ⟨initialized, onGranted, destroyed, granted, cancelled⟩ := frame
    refine ⟨u, ?_, steadyU, initialized, destroyed, ?_, by simp, ⟨granted, cancelled⟩, ?_⟩
    · rw [notifyInitialized]
      simp only [asks_eq, if_true]
      exact asked
    · intro _
      rw [onGranted]
      exact update_self ..
    · intro empty
      have appended := line (Or.inr (waiting.trans empty))
      apply Advance.waits [.policy]
      · rw [appended, line_eq]
      · intro busy
        rw [occupied] at busy
        exact busy
      · intro completes
        cases completes
      · exact granted
      · exact cancelled
  | false =>
    refine ⟨v, ?_, steadyV, rfl, rfl, by simp, fun _ => keeps rfl, ⟨rfl, rfl⟩, ?_⟩
    · rw [notifyInitialized]
      simp only [asks_eq, Bool.false_eq_true, if_false]
      rfl
    · intro _
      apply Advance.waits []
      · rw [line_eq, append_nil]
      · exact id
      · intro completes
        cases completes
      · rfl
      · rfl

theorem requestKept_eq {t : EchoOnSesame σ μ} (initialized : t.initialized = true)
    (streams : t.streams = if t.skipNextStream = true ∨ t.sendingProxy ≠ none then 1 else 0) :
    ∃ sendStreams, (match t.requestedSize with
        | some size => requestSendStream { t with requestedSize := none } size
        | none => t) = { t with sendStreams := sendStreams, requestedSize := none } ∧
      sendStreams.length = if t.skipNextStream = true ∨ t.sendingProxy ≠ none then 1 else 0 := by
  rw [EchoOnSesame.streams] at streams
  cases requested : t.requestedSize with
  | none =>
    rw [requested, if_pos rfl, Nat.add_zero] at streams
    refine ⟨t.sendStreams, ?_, streams⟩
    cases t
    cases requested
    rfl
  | some size =>
    rw [requested, if_neg (Option.some_ne_none size)] at streams
    refine ⟨t.sendStreams ++ [min size t.maxSendMessageSize], ?_, ?_⟩
    · simp only [requestSendStream, initialized, if_true]
    · rw [length_append]
      exact streams

theorem steady_finishInitialized (steady : Steady policy asks holding s)
    (fresh : s.partlySent = true → s.methodSerializer.isSome = true ∨ s.skipNextStream = true) :
    Steady policy asks holding s.finishInitialized ∧ Advance policy s s.finishInitialized false ∧
      s.finishInitialized.initialized = true ∧ s.finishInitialized.policy = s.policy ∧
      s.finishInitialized.destroyed = s.destroyed ∧
      s.finishInitialized.onGranted = s.onGranted := by
  have coherent := steady.coherent
  by_cases partly : s.partlySent = true
  · have noFront : s.current = [] := by
      rw [current]
      split
      next => rfl
      next noSerializer =>
        rw [coherent.skip ((fresh partly).resolve_left noSerializer)]
        rfl
    have busy : s.skipNextStream = true ∨ s.sendingProxy ≠ none :=
      (fresh partly).symm.imp_right fun some => (coherent.serializer some).1
    let t : EchoOnSesame σ μ :=
      { s with
        initialized := true
        sendingProxy := none
        methodSerializer := none
        skipNextStream := true }
    have streams : t.streams = if t.skipNextStream = true ∨ t.sendingProxy ≠ none then 1 else 0 := by
      have one := steady.streaming.streams
      rw [if_pos busy] at one
      rw [if_pos (Or.inl rfl)]
      exact one
    obtain ⟨sendStreams, eq, one⟩ := requestKept_eq rfl streams
    have finished : s.finishInitialized =
        { t with sendStreams := sendStreams, requestedSize := none } := by
      rw [finishInitialized, discardPartlySent, if_pos partly]
      exact eq
    rw [noFront] at coherent
    rw [finished]
    refine ⟨⟨?_, ⟨?_, fun some => absurd rfl some, fun _ => rfl⟩, by simp⟩, ?_, rfl, rfl, rfl, rfl⟩
    · exact ⟨coherent.nodup, coherent.armed, coherent.counts, coherent.exist, coherent.own,
        coherent.waiting, fun _ => rfl, by intros; contradiction⟩
    · rw [← one]
      exact Nat.add_zero _
    · apply Advance.waits []
      · rw [append_nil, line, line, noFront]
        rfl
      · intro _
        rw [occupied, Bool.or_eq_true]
        exact (fresh partly).symm
      · intro completes
        cases completes
      · rfl
      · rfl
  · let t : EchoOnSesame σ μ := { s with initialized := true }
    have noSerializer : ¬ s.methodSerializer.isSome = true :=
      fun some => partly (coherent.serializer some).2.1
    obtain ⟨sendStreams, eq, one⟩ := requestKept_eq (t := t) rfl steady.streaming.streams
    have finished : s.finishInitialized =
        { t with sendStreams := sendStreams, requestedSize := none } := by
      rw [finishInitialized, discardPartlySent, if_neg partly]
      exact eq
    rw [finished]
    refine ⟨⟨?_, ⟨?_, fun some => absurd rfl some, fun _ => rfl⟩, steady.idle⟩, ?_, rfl, rfl, rfl,
      rfl⟩
    · exact ⟨coherent.nodup, coherent.armed, coherent.counts, coherent.exist, coherent.own,
        coherent.waiting, coherent.skip, fun some => absurd some noSerializer⟩
    · exact (Nat.add_zero _).trans one
    · apply Advance.waits []
      · exact (append_nil _).symm
      · exact id
      · intro completes
        cases completes
      · rfl
      · rfl

end EchoOnSesame

end Echo
