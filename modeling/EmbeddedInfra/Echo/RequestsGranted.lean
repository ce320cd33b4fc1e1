import EmbeddedInfra.Echo.GrantedOnce

/-! Runs of an echo on top of Sesame: every request is granted once, as long as the events
keep clear of the flags that an earlier one has left. -/

namespace Echo

open Runs

variable {σ μ : Type} {policy : EchoPolicy σ μ} {asks : Bool} {holding : σ → Bool}

namespace EchoRun

open EchoOnSesame

/-- The events that leave no stale flag: no proxy is destroyed that waits in the policy, or
that a partly sent message belongs to; no reset while a stream is asked for; the policy is
not notified again before its own proxy was granted; and a message that was partly sent is
discarded only while it is. -/
def Careful (policy : EchoPolicy σ μ) : Except Failure (EchoRun σ μ) → Action → Prop
  | .error _, _ => True
  | .ok _, .requestSend _ _ => True
  | .ok r, .destroy n => .application n ∉ policy.waitingProxies r.echo.policy
  | .ok r, .sendStreamAvailable _ partly =>
    partly = true → r.echo.skipNextStream = true ∨
      ∀ proxy, r.echo.sendingProxy = some proxy → proxy ∉ r.echo.destroyed
  | .ok r, .reset => r.echo.sendingProxy = none ∧ r.echo.skipNextStream = false
  | .ok r, .notifyInitialized _ =>
    (policy.initialized r.echo.policy).2 = true → r.echo.onGranted .policy = false
  | .ok r, .finishInitialized =>
    r.echo.partlySent = true →
      r.echo.methodSerializer.isSome = true ∨ r.echo.skipNextStream = true

def completes : Except Failure (EchoRun σ μ) → Action → Bool
  | .ok r, .sendStreamAvailable _ partly => !partly || r.echo.skipNextStream
  | _, _ => false

def completed (s : Except Failure (EchoRun σ μ)) (action : Action) : Nat :=
  if completes s action = true then 1 else 0

/-- What the echo owes to the proxies. -/
structure Served (policy : EchoPolicy σ μ) (r : EchoRun σ μ) : Prop where
  /-- A request is granted or cancelled once, or it still waits. -/
  once : ∀ proxy, r.echo.requested proxy = r.echo.granted proxy + r.echo.cancelled proxy +
    if r.echo.onGranted proxy = true then 1 else 0
  waits : ∀ proxy, r.echo.onGranted proxy = true ↔ proxy ∈ r.echo.line policy
  stream : r.echo.initialized = true →
    r.echo.sendRequesters ≠ [] ∨ r.echo.sendingProxy ≠ none ∨
      policy.waitingProxies r.echo.policy ≠ [] → r.echo.sendStreams.length = 1
  /-- A request that waits is granted or cancelled after so many streams. -/
  settles : ∀ proxy, r.echo.onGranted proxy = true → r.echo.initialized = true →
    ∀ streams t, Weighed (step policy) (Careful policy) completed (.ok r) streams (.ok t) →
      r.echo.waitsFor policy proxy < streams →
      r.echo.granted proxy < t.echo.granted proxy ∨ r.echo.cancelled proxy < t.echo.cancelled proxy

/-- What holds between two events, also while the observers are notified. -/
structure Inv (policy : EchoPolicy σ μ) (asks : Bool) (holding : σ → Bool) (r : EchoRun σ μ) :
    Prop where
  steady : Steady policy asks holding r.echo
  holds : holding r.echo.policy = true → asks = true
  own : r.echo.initialized = true ∨ r.notifying = true → holding r.echo.policy = true →
    r.echo.onGranted .policy = true
  alive : .policy ∉ r.echo.destroyed

theorem inv_start (holdsBack : HoldsBack policy asks holding) :
    Inv policy asks holding ⟨construct policy, false⟩ where
  steady := steady_construct holdsBack
  holds := fun held => holdsBack.construct.1.symm.trans held
  own := by
    rintro (initialized | notifying)
    · cases initialized
    · cases notifying
  alive := List.not_mem_nil

theorem Inv.nothing_waits {r : EchoRun σ μ} (inv : Inv policy asks holding r)
    (initialized : r.echo.initialized = true) (own : r.echo.onGranted .policy = false) :
    policy.waitingProxies r.echo.policy = [] := by
  by_contra some
  have held := inv.steady.coherent.waiting.2 some
  cases own.symm.trans (inv.own (Or.inl initialized) held)

/-- What a careful event makes of a state in order. -/
def Continues (policy : EchoPolicy σ μ) (asks : Bool) (holding : σ → Bool) (r : EchoRun σ μ)
    (action : Action) (t : Except Failure (EchoRun σ μ)) : Prop :=
  ∃ u, t = .ok u ∧ Inv policy asks holding u ∧
    (∀ proxy, r.echo.granted proxy ≤ u.echo.granted proxy ∧
      r.echo.cancelled proxy ≤ u.echo.cancelled proxy) ∧
    ∀ proxy, r.echo.onGranted proxy = true → r.echo.initialized = true →
      u.echo.initialized = true ∧ Advance policy r.echo u.echo (completes (.ok r) action)

section

variable {r : EchoRun σ μ}

theorem Inv.requestSend (holdsBack : HoldsBack policy asks holding)
    (inv : Inv policy asks holding r) {n size : Nat} (alive : .application n ∉ r.echo.destroyed)
    (unarmed : r.echo.onGranted (.application n) = false) (notifying : r.notifying = false) :
    Continues policy asks holding r (.requestSend n size)
      ((EchoOnSesame.requestSend policy r.echo (.application n) size).map (⟨·, false⟩)) := by
  have other : ServiceProxy.policy ≠ .application n := by
    intro same
    cases same
  obtain ⟨u, asked, steady, line, held, occupied, frame⟩ := steady_requestSend holdsBack
    inv.steady size unarmed alive fun own => absurd own.symm other
  simp only [Prod.mk.injEq] at frame
  obtain ⟨initialized, onGranted, destroyed, granted, cancelled⟩ := frame
  have advance : Advance policy r.echo u false := by
    apply Advance.waits [.application n]
    · exact line (Or.inl (Ne.symm other))
    · rw [occupied]
      exact id
    · intro completes
      cases completes
    · exact granted
    · exact cancelled
  refine ⟨⟨u, false⟩, by rw [asked]; rfl, ⟨steady, ?_, ?_, ?_⟩, advance.le, ?_⟩
  · rw [held]
    exact inv.holds
  · rw [held, initialized, onGranted, Function.update_of_ne other, ← notifying]
    exact inv.own
  · rw [destroyed]
    exact inv.alive
  · exact fun _ _ before => ⟨initialized.trans before, advance⟩

theorem Inv.destroy (inv : Inv policy asks holding r) {n : Nat}
    (elsewhere : .application n ∉ policy.waitingProxies r.echo.policy)
    (notifying : r.notifying = false) :
    Continues policy asks holding r (.destroy n)
      ((r.echo.destroy (.application n)).map (⟨·, false⟩)) := by
  obtain ⟨u, done, steady, advance, initialized, state, destroyed, own⟩ :=
    steady_destroy inv.steady elsewhere
  refine ⟨⟨u, false⟩, by rw [done]; rfl, ⟨steady, ?_, ?_, ?_⟩, advance.le, ?_⟩
  · rw [state]
    exact inv.holds
  · rw [state, initialized, own, ← notifying]
    exact inv.own
  · rw [destroyed, List.mem_cons, not_or]
    refine ⟨?_, inv.alive⟩
    intro same
    cases same
  · exact fun _ _ before => ⟨initialized.trans before, advance⟩

theorem Inv.sendStreamAvailable (holdsBack : HoldsBack policy asks holding)
    (inv : Inv policy asks holding r) {requests : List (Nat × Nat)} {partly : Bool}
    (some_stream : r.echo.sendStreams ≠ []) (nest : r.echo.MayNest requests)
    (careful : Careful policy (.ok r) (.sendStreamAvailable requests partly)) :
    Continues policy asks holding r (.sendStreamAvailable requests partly)
      ((EchoOnSesame.sendStreamAvailable policy
        { r.echo with sendStreams := r.echo.sendStreams.tail } requests partly).map
          (⟨·, r.notifying⟩)) := by
  obtain ⟨u, done, steady, advance, initialized, destroyed, held⟩ :=
    steady_sendStreamAvailable holdsBack inv.steady some_stream nest careful
  refine ⟨⟨u, r.notifying⟩, by rw [done]; rfl, ⟨steady, ?_, ?_, ?_⟩, advance.le, ?_⟩
  · exact fun holds => inv.holds (held holds).1
  · intro connected holds
    rw [initialized] at connected
    exact (held holds).2.trans (inv.own connected (held holds).1)
  · rw [destroyed]
    exact inv.alive
  · exact fun _ _ before => ⟨initialized.trans before, advance⟩

theorem Inv.reset (inv : Inv policy asks holding r) (free : r.echo.sendingProxy = none)
    (skip : r.echo.skipNextStream = false) :
    Continues policy asks holding r .reset (.ok ⟨r.echo.reset, false⟩) := by
  refine ⟨_, rfl, ⟨steady_reset inv.steady free skip, inv.holds, ?_, inv.alive⟩,
    fun _ => ⟨le_rfl, le_rfl⟩, ?_⟩
  · rintro (initialized | notifying)
    · cases initialized
    · cases notifying
  · intro proxy armed initialized
    exfalso
    have line : r.echo.line policy = policy.waitingProxies r.echo.policy := by
      have noFront : r.echo.current = [] := by
        rw [current, free]
        exact ite_self _
      rw [EchoOnSesame.line, noFront, queued, inv.steady.idle skip free]
      rfl
    have unarmed : r.echo.onGranted .policy = false := by
      rw [Bool.eq_false_iff]
      intro own
      exact inv.steady.coherent.waiting.1 (line ▸ (inv.steady.armed_iff .policy).mp own)
    have waiting := (inv.steady.armed_iff proxy).mp armed
    rw [line, inv.nothing_waits initialized unarmed] at waiting
    cases waiting

theorem Inv.notifyInitialized (holdsBack : HoldsBack policy asks holding)
    (inv : Inv policy asks holding r) {maxSendMessageSize : Nat}
    (careful : Careful policy (.ok r) (.notifyInitialized maxSendMessageSize)) :
    Continues policy asks holding r (.notifyInitialized maxSendMessageSize)
      ((EchoOnSesame.notifyInitialized policy
        { r.echo with maxSendMessageSize := maxSendMessageSize }).map (⟨·, true⟩)) := by
  have asks_eq := (holdsBack.initialized r.echo.policy).1
  have own : asks = true → r.echo.onGranted .policy = false :=
    fun asked => careful (asks_eq.trans asked)
  obtain ⟨u, done, steady, initialized, destroyed, armed, held, ⟨granted, cancelled⟩, advance⟩ :=
    steady_notifyInitialized holdsBack inv.steady maxSendMessageSize inv.alive own
  refine ⟨⟨u, true⟩, by rw [done]; rfl, ⟨steady, ?_, ?_, ?_⟩,
    fun proxy => ⟨(congrFun granted proxy).ge, (congrFun cancelled proxy).ge⟩, ?_⟩
  · intro holds
    cases asks with
    | true => rfl
    | false => exact inv.holds ((held rfl).symm.trans holds)
  · intro _ holds
    cases asks with
    | true => exact armed rfl
    | false => cases inv.holds ((held rfl).symm.trans holds)
  · rw [destroyed]
    exact inv.alive
  · intro proxy _ before
    refine ⟨initialized.trans before, advance ?_⟩
    by_contra some
    have holds := inv.steady.coherent.waiting.2 some
    cases (own (inv.holds holds)).symm.trans (inv.own (Or.inl before) holds)

theorem Inv.finishInitialized (inv : Inv policy asks holding r) (notifying : r.notifying = true)
    (careful : Careful policy (.ok r) .finishInitialized) :
    Continues policy asks holding r .finishInitialized
      (.ok ⟨r.echo.finishInitialized, false⟩) := by
  obtain ⟨steady, advance, initialized, state, destroyed, armed⟩ :=
    steady_finishInitialized inv.steady careful
  refine ⟨_, rfl, ⟨steady, ?_, ?_, ?_⟩, advance.le, ?_⟩
  · rw [state]
    exact inv.holds
  · rw [state, armed]
    exact fun _ => inv.own (Or.inr notifying)
  · rw [destroyed]
    exact inv.alive
  · exact fun _ _ _ => ⟨initialized, advance⟩

theorem Inv.step (holdsBack : HoldsBack policy asks holding) (inv : Inv policy asks holding r)
    {action : Action} {t : Except Failure (EchoRun σ μ)}
    (careful : Careful policy (.ok r) action) (steps : step policy (.ok r) action = some t) :
    Continues policy asks holding r action t := by
  cases action with
  | requestSend n size =>
    simp only [EchoRun.step] at steps
    split at steps
    next enabled =>
      obtain rfl := Option.some.inj steps
      exact inv.requestSend holdsBack enabled.2.1 enabled.2.2 enabled.1
    next => cases steps
  | destroy n =>
    simp only [EchoRun.step] at steps
    split at steps
    next enabled =>
      obtain rfl := Option.some.inj steps
      exact inv.destroy careful enabled.1
    next => cases steps
  | sendStreamAvailable requests partly =>
    simp only [EchoRun.step] at steps
    split at steps
    next enabled =>
      obtain rfl := Option.some.inj steps
      exact inv.sendStreamAvailable holdsBack enabled.1 enabled.2 careful
    next => cases steps
  | reset =>
    simp only [EchoRun.step] at steps
    split at steps
    next =>
      obtain rfl := Option.some.inj steps
      exact inv.reset careful.1 careful.2
    next => cases steps
  | notifyInitialized maxSendMessageSize =>
    simp only [EchoRun.step] at steps
    split at steps
    next =>
      obtain rfl := Option.some.inj steps
      exact inv.notifyInitialized holdsBack careful
    next => cases steps
  | finishInitialized =>
    simp only [EchoRun.step] at steps
    split at steps
    next enabled =>
      obtain rfl := Option.some.inj steps
      exact inv.finishInitialized enabled careful
    next => cases steps

/-- How far a request that waits has come after some streams. -/
def Progress (policy : EchoPolicy σ μ) (asks : Bool) (holding : σ → Bool) (r : EchoRun σ μ)
    (proxy : ServiceProxy) (streams : Nat) (s : Except Failure (EchoRun σ μ)) : Prop :=
  ∃ u, s = .ok u ∧ Inv policy asks holding u ∧
    (r.echo.granted proxy ≤ u.echo.granted proxy ∧
      r.echo.cancelled proxy ≤ u.echo.cancelled proxy) ∧
    (settled proxy r.echo < settled proxy u.echo ∨
      settled proxy u.echo = settled proxy r.echo ∧ u.echo.onGranted proxy = true ∧
        u.echo.initialized = true ∧
        u.echo.waitsFor policy proxy + streams ≤ r.echo.waitsFor policy proxy)

theorem Inv.progress (holdsBack : HoldsBack policy asks holding) (inv : Inv policy asks holding r)
    {proxy : ServiceProxy} (armed : r.echo.onGranted proxy = true)
    (initialized : r.echo.initialized = true) (streams : Nat) (s : Except Failure (EchoRun σ μ))
    (runs : Weighed (EchoRun.step policy) (Careful policy) completed (.ok r) streams s) :
    Progress policy asks holding r proxy streams s := by
  apply runs.invariant
  · exact ⟨r, rfl, inv, ⟨le_rfl, le_rfl⟩, Or.inr ⟨rfl, armed, initialized, le_rfl⟩⟩
  · rintro total s action t ⟨u, rfl, invU, grows, progress⟩ careful steps
    obtain ⟨v, rfl, invV, grows', advance⟩ := invU.step holdsBack careful steps
    have grown := grows' proxy
    refine ⟨v, rfl, invV, ⟨grows.1.trans grown.1, grows.2.trans grown.2⟩, ?_⟩
    rcases progress with done | ⟨same, armedU, initializedU, near⟩
    · left
      exact lt_of_lt_of_le done (Nat.add_le_add grown.1 grown.2)
    · obtain ⟨initializedV, advances⟩ := advance proxy armedU initializedU
      rcases advances.settles invU.steady invV.steady armedU with one | ⟨kept, armedV, nearer⟩
      · left
        rw [one, same]
        exact Nat.lt_succ_self _
      · right
        refine ⟨kept.trans same, armedV, initializedV, ?_⟩
        rw [completed]
        omega

theorem Inv.settles (holdsBack : HoldsBack policy asks holding) (inv : Inv policy asks holding r)
    {proxy : ServiceProxy} (armed : r.echo.onGranted proxy = true)
    (initialized : r.echo.initialized = true) {streams : Nat} {t : EchoRun σ μ}
    (runs : Weighed (EchoRun.step policy) (Careful policy) completed (.ok r) streams (.ok t))
    (enough : r.echo.waitsFor policy proxy < streams) :
    r.echo.granted proxy < t.echo.granted proxy ∨
      r.echo.cancelled proxy < t.echo.cancelled proxy := by
  obtain ⟨u, same, -, grows, progress⟩ := inv.progress holdsBack armed initialized _ _ runs
  obtain rfl := Except.ok.inj same
  rcases progress with done | ⟨-, -, -, near⟩
  · rw [settled, settled] at done
    omega
  · omega

theorem Inv.served (holdsBack : HoldsBack policy asks holding) (inv : Inv policy asks holding r) :
    Served policy r where
  once := inv.steady.coherent.counts
  waits := inv.steady.armed_iff
  stream := by
    intro initialized waiting
    have streaming := inv.steady.streaming
    have noSize : r.echo.requestedSize = none := by
      by_contra some
      cases (streaming.ready.1 some).symm.trans initialized
    have busy : r.echo.skipNextStream = true ∨ r.echo.sendingProxy ≠ none := by
      by_contra free
      rw [not_or, Bool.not_eq_true, ne_eq, not_not] at free
      have idle := inv.steady.idle free.1 free.2
      have own : r.echo.onGranted .policy = true := by
        apply inv.own (Or.inl initialized)
        apply inv.steady.coherent.waiting.2
        rcases waiting with queue | sending | held
        · exact absurd idle queue
        · exact absurd free.2 sending
        · exact held
      have member := (inv.steady.armed_iff .policy).mp own
      have noFront : r.echo.current = [] := by
        rw [current, free.2]
        exact ite_self _
      rw [line, noFront, queued, idle] at member
      exact inv.steady.coherent.waiting.1 member
    have one := streaming.streams
    rwa [if_pos busy, streams, noSize, if_pos rfl, Nat.add_zero] at one
  settles := fun _ armed initialized _ _ runs enough =>
    inv.settles holdsBack armed initialized runs enough

end

theorem served_of_reachable (holdsBack : HoldsBack policy asks holding)
    {s : Except Failure (EchoRun σ μ)}
    (reached : Reachable (step policy) (Careful policy) (start policy) s) :
    ∃ r, s = .ok r ∧ Served policy r := by
  have inv : ∃ r, s = .ok r ∧ Inv policy asks holding r := by
    apply reached.invariant
    · exact ⟨_, rfl, inv_start holdsBack⟩
    · rintro _ action t ⟨r, rfl, inv⟩ careful steps
      obtain ⟨u, rfl, invU, -⟩ := inv.step holdsBack careful steps
      exact ⟨u, rfl, invU⟩
  obtain ⟨r, rfl, inv⟩ := inv
  exact ⟨r, rfl, inv.served holdsBack⟩

/-- With both policies, no careful event fails an assertion, calls an action that is not
there or uses a proxy that is gone, and every request is granted once. -/
theorem requests_granted_once (random : Nat → KeyPair) (maxMessageSize : Nat) :
    (∀ s, Reachable (step defaultPolicy) (Careful defaultPolicy) (start defaultPolicy) s →
      ∃ r, s = .ok r ∧ Served defaultPolicy r) ∧
    ∀ s, Reachable (step (EchoPolicySymmetricKey.policy random maxMessageSize))
        (Careful (EchoPolicySymmetricKey.policy random maxMessageSize))
        (start (EchoPolicySymmetricKey.policy random maxMessageSize)) s →
      ∃ r, s = .ok r ∧ Served (EchoPolicySymmetricKey.policy random maxMessageSize) r :=
  ⟨fun _ => served_of_reachable holdsBack_defaultPolicy,
    fun _ => served_of_reachable (holdsBack_symmetricKey random maxMessageSize)⟩

/-- A message that was partly sent and discarded leaves a flag, so that the next but one
initialization drops a proxy that waits; when it is destroyed, an assertion fails. -/
theorem stale_partlySent_defaultPolicy :
    ∃ s, Reachable (step defaultPolicy) anyStep (start defaultPolicy) s ∧
      (match s with
        | .error .assertion => true
        | _ => false) = true := by
  apply exists_of_execute _ _ [.notifyInitialized 100, .finishInitialized, .requestSend 0 10,
    .sendStreamAvailable [] true, .notifyInitialized 100, .finishInitialized, .requestSend 1 10,
    .sendStreamAvailable [] false, .notifyInitialized 100, .finishInitialized, .destroy 1]
  decide +kernel

end EchoRun

end Echo
