import EmbeddedInfra.Echo.EchoOnSesame

/-! Which proxies wait to be granted, and where: the queue of the echo, that of its policy,
and the place at the front. -/

namespace Echo

open List Function EchoPolicySymmetricKey

variable {σ μ : Type}

/-- A policy that holds back the proxies of the application until its own proxy is
granted; `asks` tells whether its own proxy asks to send at all. -/
structure HoldsBack (policy : EchoPolicy σ μ) (asks : Bool) (holding : σ → Bool) : Prop where
  construct : holding policy.construct = asks ∧ policy.waitingProxies policy.construct = []
  initialized : ∀ s, (policy.initialized s).2 = asks ∧
    (asks = true → holding (policy.initialized s).1 = true) ∧
    (asks = false → holding (policy.initialized s).1 = holding s) ∧
    policy.waitingProxies (policy.initialized s).1 = policy.waitingProxies s
  own : ∀ s, policy.requestSend s .policy = (s, true)
  passes : ∀ s n, holding s = false → policy.requestSend s (.application n) = (s, true)
  waits : ∀ s n, holding s = true → (policy.requestSend s (.application n)).2 = false ∧
    holding (policy.requestSend s (.application n)).1 = true ∧
    policy.waitingProxies (policy.requestSend s (.application n)).1 =
      policy.waitingProxies s ++ [.application n]
  granting : ∀ s proxy, holding (policy.grantingSend s proxy).1 = holding s ∧
    policy.waitingProxies (policy.grantingSend s proxy).1 = policy.waitingProxies s
  granted : asks = true → ∀ s, ∃ grant, policy.onGranted s = some grant ∧
    holding grant.state = false ∧ policy.waitingProxies grant.state = [] ∧
    grant.requeued = policy.waitingProxies s ∧ grant.again = false

theorem holdsBack_defaultPolicy : HoldsBack defaultPolicy false fun _ => false where
  construct := ⟨rfl, rfl⟩
  initialized _ := ⟨rfl, (fun asks => nomatch asks), fun _ => rfl, rfl⟩
  own _ := rfl
  passes _ _ _ := rfl
  waits _ _ holding := nomatch holding
  granting _ _ := ⟨rfl, rfl⟩
  granted asks := nomatch asks

theorem holdsBack_symmetricKey (random : Nat → KeyPair) (maxMessageSize : Nat) :
    HoldsBack (policy random maxMessageSize) true
      EchoPolicySymmetricKey.initializingSending where
  construct := ⟨rfl, rfl⟩
  initialized _ := ⟨rfl, fun _ => rfl, (fun asks => nomatch asks), rfl⟩
  own s := by simp [policy, requestSend]
  passes s n holding := by
    simp [policy, requestSend, holding]
  waits s n holding := by
    simp [policy, requestSend, holding]
  granting s proxy := by
    simp only [policy, grantingSend]
    split <;> exact ⟨rfl, rfl⟩
  granted _ s := ⟨_, rfl, rfl, rfl, rfl, rfl⟩

namespace EchoOnSesame

def queued (policy : EchoPolicy σ μ) (s : EchoOnSesame σ μ) : List ServiceProxy :=
  s.sendRequesters ++ policy.waitingProxies s.policy

/-- Whether a stream was asked for, at Sesame or to be so after initialization. -/
def streams (s : EchoOnSesame σ μ) : Nat :=
  s.sendStreams.length + if s.requestedSize = none then 0 else 1

/-- What always holds, where the proxies in `loose` asked to send and stand in no queue. -/
structure Coherent (policy : EchoPolicy σ μ) (asks : Bool) (holding : σ → Bool)
    (loose : List ServiceProxy) (s : EchoOnSesame σ μ) : Prop where
  nodup : (loose ++ s.queued policy).Nodup
  armed : ∀ proxy, s.onGranted proxy = true ↔ proxy ∈ loose ++ s.queued policy
  counts : ∀ proxy, s.requested proxy =
    s.granted proxy + s.cancelled proxy + if s.onGranted proxy = true then 1 else 0
  exist : ∀ proxy, s.onGranted proxy = true → proxy ∉ s.destroyed
  own : s.onGranted .policy = true → asks = true
  waiting : .policy ∉ policy.waitingProxies s.policy ∧
    (policy.waitingProxies s.policy ≠ [] → holding s.policy = true)
  skip : s.skipNextStream = true → s.sendingProxy = none
  serializer : s.methodSerializer.isSome = true →
    s.sendingProxy ≠ none ∧ s.partlySent = true ∧ s.initialized = true

/-- One stream is asked for while there is something to send or to skip. -/
structure Streaming (s : EchoOnSesame σ μ) : Prop where
  streams : s.streams = if s.skipNextStream = true ∨ s.sendingProxy ≠ none then 1 else 0
  ready : (s.requestedSize ≠ none → s.initialized = false) ∧
    (s.sendStreams ≠ [] → s.initialized = true)

variable {policy : EchoPolicy σ μ} {asks : Bool} {holding : σ → Bool}
  {loose : List ServiceProxy} {s : EchoOnSesame σ μ}

/-- The front of the line: the proxy that a stream was asked for and that was not granted
yet. -/
def current (s : EchoOnSesame σ μ) : List ServiceProxy :=
  if s.methodSerializer.isSome = true then [] else s.sendingProxy.toList

def line (policy : EchoPolicy σ μ) (s : EchoOnSesame σ μ) : List ServiceProxy :=
  s.current ++ s.queued policy

/-- What holds between two events. -/
structure Steady (policy : EchoPolicy σ μ) (asks : Bool) (holding : σ → Bool)
    (s : EchoOnSesame σ μ) : Prop where
  coherent : Coherent policy asks holding s.current s
  streaming : s.Streaming
  idle : s.skipNextStream = false → s.sendingProxy = none → s.sendRequesters = []

theorem steady_construct (holdsBack : HoldsBack policy asks holding) :
    Steady policy asks holding (construct policy) where
  coherent := by
    have empty : (construct policy).current ++ (construct policy).queued policy = [] := by
      simp [current, queued, construct, holdsBack.construct.2]
    refine ⟨?_, ?_, fun _ => rfl, ?_, ?_, ?_, ?_, ?_⟩
    · rw [empty]
      exact nodup_nil
    · intro proxy
      rw [empty]
      simp [construct]
    · intro _ armed
      cases armed
    · intro armed
      cases armed
    · rw [show (construct policy).policy = policy.construct from rfl, holdsBack.construct.2]
      simp
    · intro skip
      cases skip
    · intro some
      cases some
  streaming := ⟨rfl, by simp [construct]⟩
  idle _ _ := rfl

theorem requestSendStream_eq (size : Nat) (none : s.streams = 0)
    (ready : (s.requestedSize ≠ Option.none → s.initialized = false) ∧
      (s.sendStreams ≠ [] → s.initialized = true)) :
    ∃ sendStreams requestedSize,
      s.requestSendStream size =
        { s with sendStreams := sendStreams, requestedSize := requestedSize } ∧
      sendStreams.length + (if requestedSize = Option.none then 0 else 1) = 1 ∧
      (requestedSize ≠ Option.none → s.initialized = false) ∧
      (sendStreams ≠ [] → s.initialized = true) := by
  unfold streams at none
  have empty : s.sendStreams = [] := length_eq_zero_iff.mp (by omega)
  unfold requestSendStream
  by_cases initialized : s.initialized = true
  · have noSize : s.requestedSize = Option.none := by
      by_contra some
      cases (ready.1 some).symm.trans initialized
    rw [if_pos initialized]
    refine ⟨_, _, rfl, ?_, ready.1, fun _ => initialized⟩
    rw [empty, noSize]
    rfl
  · rw [if_neg initialized]
    refine ⟨_, _, rfl, ?_, fun _ => Bool.not_eq_true _ ▸ initialized, ready.2⟩
    rw [empty]
    rfl

def accounts (s : EchoOnSesame σ μ) :=
  (s.policy, s.initialized, s.onGranted, s.destroyed, s.requested, s.granted, s.cancelled)

theorem steady_tryGrantSend (coherent : Coherent policy asks holding s.current s)
    (streaming : s.Streaming) :
    Steady policy asks holding s.tryGrantSend ∧
      s.tryGrantSend.line policy = s.line policy ∧ s.tryGrantSend.accounts = s.accounts ∧
      s.tryGrantSend.skipNextStream = s.skipNextStream ∧
      s.tryGrantSend.methodSerializer = s.methodSerializer := by
  unfold tryGrantSend
  split
  next proxy rest skip free requesters =>
    have noSerializer : ¬ s.methodSerializer.isSome = true :=
      fun some => (coherent.serializer some).1 free
    have front : s.current = [] := by rw [current, if_neg noSerializer, free]; rfl
    have noStreams : s.streams = 0 := by
      rw [streaming.streams, skip, free]
      rfl
    obtain ⟨sendStreams, requestedSize, eq, one, ready⟩ := requestSendStream_eq (s := { s with
      sendingProxy := some proxy
      sendRequesters := rest }) ((s.currentRequestedSize proxy + headerSize) % 2 ^ 32) noStreams
      streaming.ready
    rw [eq]
    have same : [proxy] ++ (rest ++ policy.waitingProxies s.policy) =
        s.current ++ s.queued policy := by
      rw [front, queued, requesters]
      rfl
    have current' : current { s with
        sendingProxy := some proxy
        sendRequesters := rest
        sendStreams := sendStreams
        requestedSize := requestedSize } = [proxy] := by
      rw [current, if_neg noSerializer]
      rfl
    refine ⟨⟨?_, ⟨?_, ready⟩, fun _ taken => nomatch taken⟩, ?_, rfl, rfl, rfl⟩
    · rw [current']
      refine ⟨same ▸ coherent.nodup, fun p => ?_, coherent.counts, coherent.exist, coherent.own,
        coherent.waiting, ?_, ?_⟩
      · exact (coherent.armed p).trans (by rw [← same]; rfl)
      · intro skipping
        cases skip.symm.trans skipping
      · intro some
        exact absurd some noSerializer
    · rw [streams, one, if_pos (.inr (Option.some_ne_none _))]
    · rw [line, current']
      exact same
  next busy =>
    refine ⟨⟨coherent, streaming, fun skip free => ?_⟩, rfl, rfl, rfl, rfl⟩
    cases requesters : s.sendRequesters with
    | nil => rfl
    | cons proxy rest => exact absurd requesters (busy proxy rest skip free)

theorem tryGrantSend_busy (busy : s.skipNextStream = false → s.sendingProxy = none →
    s.sendRequesters = []) : s.tryGrantSend = s := by
  unfold tryGrantSend
  split
  next proxy rest skip free requesters => cases (busy skip free).symm.trans requesters
  next => rfl

theorem Coherent.move (coherent : Coherent policy asks holding loose s)
    {loose' sendRequesters : List ServiceProxy} {state : σ}
    (same : (loose' ++ (sendRequesters ++ policy.waitingProxies state)).Perm
      (loose ++ s.queued policy))
    (waiting : .policy ∉ policy.waitingProxies state ∧
      (policy.waitingProxies state ≠ [] → holding state = true)) :
    Coherent policy asks holding loose'
      { s with policy := state, sendRequesters := sendRequesters } where
  nodup := same.nodup_iff.mpr coherent.nodup
  armed proxy := (coherent.armed proxy).trans same.mem_iff.symm
  counts := coherent.counts
  exist := coherent.exist
  own := coherent.own
  waiting := waiting
  skip := coherent.skip
  serializer := coherent.serializer

variable {proxy : ServiceProxy}

theorem Coherent.ask (coherent : Coherent policy asks holding loose s) (size : Nat)
    (unarmed : s.onGranted proxy = false) (exists' : proxy ∉ s.destroyed)
    (own : proxy = .policy → asks = true) :
    Coherent policy asks holding (proxy :: loose)
      { s with
        onGranted := update s.onGranted proxy true
        currentRequestedSize := update s.currentRequestedSize proxy size
        requested := increase s.requested proxy } where
  nodup := by
    refine nodup_cons.mpr ⟨fun member => ?_, coherent.nodup⟩
    cases unarmed.symm.trans ((coherent.armed proxy).mpr member)
  armed other := by
    rw [cons_append, mem_cons]
    by_cases same : other = proxy
    · rw [same]
      simp
    · simp only [update_of_ne same, same, false_or]
      exact coherent.armed other
  counts other := by
    by_cases same : other = proxy
    · have before := coherent.counts proxy
      rw [same]
      simp only [increase, update_self, if_true]
      rw [unarmed] at before
      simpa using before
    · simp only [increase, update_of_ne same]
      exact coherent.counts other
  exist other armed := by
    by_cases same : other = proxy
    · rw [same]
      exact exists'
    · simp only [update_of_ne same] at armed
      exact coherent.exist other armed
  own armed := by
    by_cases same : .policy = proxy
    · exact own same.symm
    · simp only [update_of_ne same] at armed
      exact coherent.own armed
  waiting := coherent.waiting
  skip := coherent.skip
  serializer := coherent.serializer

theorem Coherent.grant (coherent : Coherent policy asks holding (proxy :: loose) s) :
    Coherent policy asks holding loose
      { s with
        onGranted := update s.onGranted proxy false
        granted := increase s.granted proxy } where
  nodup := (nodup_cons.mp coherent.nodup).2
  armed other := by
    have front := (nodup_cons.mp coherent.nodup).1
    by_cases same : other = proxy
    · rw [same]
      simp only [update_self]
      exact iff_of_false Bool.false_ne_true front
    · simp only [update_of_ne same]
      refine (coherent.armed other).trans ?_
      rw [cons_append, mem_cons]
      exact or_iff_right same
  counts other := by
    by_cases same : other = proxy
    · have before := coherent.counts proxy
      have armed := (coherent.armed proxy).mpr (mem_cons_self ..)
      rw [same]
      simp only [increase, update_self]
      rw [armed] at before
      simp only [if_true] at before
      simp only [Bool.false_eq_true, if_false]
      omega
    · simp only [increase, update_of_ne same]
      exact coherent.counts other
  exist other armed := by
    by_cases same : other = proxy
    · rw [same] at armed
      simp at armed
    · simp only [update_of_ne same] at armed
      exact coherent.exist other armed
  own armed := by
    by_cases same : .policy = proxy
    · rw [same] at armed
      simp at armed
    · simp only [update_of_ne same] at armed
      exact coherent.own armed
  waiting := coherent.waiting
  skip := coherent.skip
  serializer := coherent.serializer

/-- One more request, and the queues after the proxy was put into one of them. -/
def withRequest (s : EchoOnSesame σ μ) (proxy : ServiceProxy) (size : Nat) (state : σ)
    (sendRequesters : List ServiceProxy) : EchoOnSesame σ μ :=
  { s with
    policy := state
    sendRequesters := sendRequesters
    onGranted := update s.onGranted proxy true
    currentRequestedSize := update s.currentRequestedSize proxy size
    requested := increase s.requested proxy }

theorem requestSend_eq (holdsBack : HoldsBack policy asks holding)
    (coherent : Coherent policy asks holding loose s)
    (idle : s.skipNextStream = false → s.sendingProxy = none → s.sendRequesters = []) (size : Nat)
    (unarmed : s.onGranted proxy = false) (exists' : proxy ∉ s.destroyed)
    (own : proxy = .policy → asks = true) :
    ∃ state sendRequesters, holding state = holding s.policy ∧
      Coherent policy asks holding loose (s.withRequest proxy size state sendRequesters) ∧
      (proxy ≠ .policy ∨ policy.waitingProxies s.policy = [] →
        sendRequesters ++ policy.waitingProxies state = s.queued policy ++ [proxy]) ∧
      requestSend policy s proxy size =
        .ok (tryGrantSend (s.withRequest proxy size state sendRequesters)) := by
  have asked := coherent.ask size unarmed exists' own
  have notQueued : proxy ∉ s.sendRequesters := by
    intro member
    cases unarmed.symm.trans ((coherent.armed proxy).mpr
      (mem_append_right _ (mem_append_left _ member)))
  by_cases pass : policy.requestSend s.policy proxy = (s.policy, true)
  · have nothingWaits : proxy ≠ .policy ∨ policy.waitingProxies s.policy = [] →
        policy.waitingProxies s.policy = [] := by
      rintro (application | none)
      · by_contra some
        have held := coherent.waiting.2 some
        cases proxy with
        | policy => exact application rfl
        | application n =>
          have kept := (holdsBack.waits s.policy n held).1
          rw [pass] at kept
          cases kept
      · exact none
    refine ⟨s.policy, s.sendRequesters ++ [proxy], rfl, asked.move ?_ asked.waiting, ?_, ?_⟩
    · have perm : (loose ++ s.sendRequesters ++ proxy :: policy.waitingProxies s.policy).Perm
          (proxy :: (loose ++ s.sendRequesters ++ policy.waitingProxies s.policy)) :=
        perm_middle
      simpa [queued] using perm
    · intro last
      rw [queued, nothingWaits last, append_nil, append_nil]
    · rw [requestSend, pass]
      simp only [if_true]
      rw [onRequest, if_neg notQueued]
      rfl
  · cases proxy with
    | policy => exact absurd (holdsBack.own s.policy) pass
    | application n =>
      have held : holding s.policy = true := by
        by_contra free
        exact pass (holdsBack.passes s.policy n (Bool.eq_false_iff.mpr free))
      obtain ⟨kept, still, waiting⟩ := holdsBack.waits s.policy n held
      refine ⟨(policy.requestSend s.policy (.application n)).1, s.sendRequesters,
        still.trans held.symm, asked.move ?_ ⟨?_, fun _ => still⟩, ?_, ?_⟩
      · rw [waiting, ← append_assoc, ← append_assoc, queued, ← append_assoc]
        exact perm_append_singleton _ _
      · rw [waiting, mem_append, not_or]
        exact ⟨coherent.waiting.1, by simp⟩
      · intro _
        rw [waiting, queued, append_assoc]
      · rw [requestSend]
        simp only [kept, Bool.false_eq_true, if_false]
        have stays := tryGrantSend_busy (s := s.withRequest (.application n) size
          (policy.requestSend s.policy (.application n)).1 s.sendRequesters) idle
        rw [stays]
        rfl

theorem tryGrantSend_sending (sending : s.sendingProxy = some proxy) : s.tryGrantSend = s :=
  tryGrantSend_busy fun _ free => nomatch sending.symm.trans free

theorem foldlM_onRequest (proxies : List ServiceProxy) (sending : s.sendingProxy = some proxy)
    (distinct : (s.sendRequesters ++ proxies).Nodup) :
    proxies.foldlM onRequest s = .ok { s with sendRequesters := s.sendRequesters ++ proxies } := by
  induction proxies generalizing s with
  | nil =>
    rw [append_nil]
    rfl
  | cons first rest ih =>
    have new : first ∉ s.sendRequesters := by
      intro member
      exact (nodup_append.mp distinct).2.2 first member first (mem_cons_self ..) rfl
    have queued : onRequest s first =
        .ok { s with sendRequesters := s.sendRequesters ++ [first] } := by
      rw [onRequest, if_neg new]
      exact congrArg _ (tryGrantSend_sending sending)
    have tail := ih (s := { s with sendRequesters := s.sendRequesters ++ [first] }) sending
      (by simpa using distinct)
    rw [foldlM_cons, queued]
    exact tail.trans (by simp)

theorem foldlM_requestSend (holdsBack : HoldsBack policy asks holding) {granted : ServiceProxy}
    (requests : List (Nat × Nat)) (coherent : Coherent policy asks holding loose s)
    (sending : s.sendingProxy = some granted) (distinct : (requests.map Prod.fst).Nodup)
    (unarmed : ∀ request ∈ requests, s.onGranted (.application request.1) = false ∧
      .application request.1 ∉ s.destroyed) :
    ∃ u, requests.foldlM (fun s request =>
        requestSend policy s (.application request.1) request.2) s = .ok u ∧
      Coherent policy asks holding loose u ∧ holding u.policy = holding s.policy ∧
      u.onGranted .policy = s.onGranted .policy ∧
      u.queued policy = s.queued policy ++ requests.map (fun request => .application request.1) ∧
      u = { s with
        policy := u.policy
        sendRequesters := u.sendRequesters
        onGranted := u.onGranted
        currentRequestedSize := u.currentRequestedSize
        requested := u.requested } := by
  induction requests generalizing s with
  | nil => exact ⟨s, rfl, coherent, rfl, rfl, (append_nil _).symm, rfl⟩
  | cons request rest ih =>
    rw [map_cons, nodup_cons] at distinct
    rw [forall_mem_cons] at unarmed
    obtain ⟨state, sendRequesters, held, coherent', last, asked⟩ := requestSend_eq holdsBack
      coherent (fun _ free => nomatch sending.symm.trans free) request.2 unarmed.1.1 unarmed.1.2
      (fun own => nomatch own)
    have stays := tryGrantSend_sending
      (s := s.withRequest (.application request.1) request.2 state sendRequesters) sending
    rw [stays] at asked
    obtain ⟨u, run, coherentU, heldU, ownU, lastU, frame⟩ := ih coherent' sending distinct.2
      (by
        intro other member
        refine ⟨?_, (unarmed.2 other member).2⟩
        have different : ServiceProxy.application other.1 ≠ .application request.1 := by
          intro same
          rw [ServiceProxy.application.injEq] at same
          exact distinct.1 (same ▸ mem_map_of_mem member)
        simp only [withRequest, update_of_ne different]
        exact (unarmed.2 other member).1)
    refine ⟨u, ?_, coherentU, heldU.trans held, ownU.trans ?_, lastU.trans ?_, frame⟩
    · rw [foldlM_cons, asked]
      exact run
    · have different : ServiceProxy.policy ≠ .application request.1 := by
        intro same
        cases same
      exact update_of_ne different true s.onGranted
    · have one : queued policy (s.withRequest (.application request.1) request.2 state
          sendRequesters) = s.queued policy ++ [.application request.1] :=
        last (Or.inl fun own => nomatch own)
      rw [one, append_assoc]
      rfl

end EchoOnSesame

end Echo
