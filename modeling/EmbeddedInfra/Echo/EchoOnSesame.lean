import EmbeddedInfra.Echo.EchoPolicy

/-! The sending half of an echo on top of Sesame: proxies ask to send, are queued, and are
granted one after the other when a stream is available. -/

namespace Echo

open Function

/-- What a message that is sent calls. -/
inductive Method (μ : Type)
  | establishment (method : μ)
  | application
  deriving DecidableEq

inductive Failure
  | assertion
  | emptyOnGranted
  | noSendingProxy
  | destroyedProxy
  deriving DecidableEq

structure EchoOnSesame (σ μ : Type) where
  policy : σ
  sendRequesters : List ServiceProxy
  sendingProxy : Option ServiceProxy
  methodSerializer : Option (Method μ)
  partlySent : Bool
  skipNextStream : Bool
  requestedSize : Option Nat
  initialized : Bool
  /-- Which proxies have an action to call when they are granted. -/
  onGranted : ServiceProxy → Bool
  currentRequestedSize : ServiceProxy → Nat
  destroyed : List ServiceProxy
  /-- `MaxSendMessageSize` of the Sesame below. -/
  maxSendMessageSize : Nat
  /-- The sizes of the streams asked for and not available yet. -/
  sendStreams : List Nat
  /-- How often each proxy asked to send, was granted, and was cancelled. -/
  requested : ServiceProxy → Nat
  granted : ServiceProxy → Nat
  cancelled : ServiceProxy → Nat

namespace EchoOnSesame

variable {σ μ : Type}

def construct (policy : EchoPolicy σ μ) : EchoOnSesame σ μ :=
  { policy := policy.construct
    sendRequesters := []
    sendingProxy := none
    methodSerializer := none
    partlySent := false
    skipNextStream := false
    requestedSize := none
    initialized := false
    onGranted := fun _ => false
    currentRequestedSize := fun _ => 0
    destroyed := []
    maxSendMessageSize := 0
    sendStreams := []
    requested := fun _ => 0
    granted := fun _ => 0
    cancelled := fun _ => 0 }

def increase (counts : ServiceProxy → Nat) (proxy : ServiceProxy) : ServiceProxy → Nat :=
  update counts proxy (counts proxy + 1)

variable (s : EchoOnSesame σ μ)

def requestSendStream (size : Nat) : EchoOnSesame σ μ :=
  if s.initialized then
    { s with sendStreams := s.sendStreams ++ [min size s.maxSendMessageSize] }
  else { s with requestedSize := some size }

/-- `2 * MaxVarIntSize(std::numeric_limits<uint64_t>::max())`. -/
def headerSize : Nat := 2 * 10

def tryGrantSend : EchoOnSesame σ μ :=
  match s.skipNextStream, s.sendingProxy, s.sendRequesters with
  | false, none, proxy :: rest =>
    requestSendStream { s with sendingProxy := some proxy, sendRequesters := rest }
      ((s.currentRequestedSize proxy + headerSize) % 2 ^ 32)
  | _, _, _ => s

/-- The `onRequest` that `RequestSend` passes to the policy. -/
def onRequest (proxy : ServiceProxy) : Except Failure (EchoOnSesame σ μ) :=
  if proxy ∈ s.sendRequesters then .error .assertion
  else .ok (tryGrantSend { s with sendRequesters := s.sendRequesters ++ [proxy] })

def cancelRequestSend (proxy : ServiceProxy) : Except Failure (EchoOnSesame σ μ) :=
  if proxy ∈ s.sendRequesters then
    .ok { s with sendRequesters := s.sendRequesters.erase proxy }
  else if s.sendingProxy = some proxy then
    .ok { s with sendingProxy := none, skipNextStream := true }
  else .error .assertion

/-- The destructor of a proxy. -/
def destroy (proxy : ServiceProxy) : Except Failure (EchoOnSesame σ μ) :=
  if s.onGranted proxy then
    (s.cancelRequestSend proxy).map fun s =>
      { s with
        onGranted := update s.onGranted proxy false
        destroyed := proxy :: s.destroyed
        cancelled := increase s.cancelled proxy }
  else .ok { s with destroyed := proxy :: s.destroyed }

/-- `EchoOnStreams::Initialized`, as far as sending goes. -/
def discardPartlySent : EchoOnSesame σ μ :=
  if s.partlySent then
    { s with sendingProxy := none, methodSerializer := none, skipNextStream := true }
  else s

/-- The rest of `Initialized`, after the observers were notified. -/
def finishInitialized : EchoOnSesame σ μ :=
  let s := { s with initialized := true }.discardPartlySent
  match s.requestedSize with
  | some size => requestSendStream { s with requestedSize := none } size
  | none => s

/-- `Reset`; the Sesame below forgets the streams it was asked for. -/
def reset : EchoOnSesame σ μ :=
  { s with initialized := false, requestedSize := none, sendStreams := [] }

section

variable (policy : EchoPolicy σ μ)

/-- `ServiceProxy::RequestSend`, and `EchoOnStreams::RequestSend` that it calls. -/
def requestSend (s : EchoOnSesame σ μ) (proxy : ServiceProxy) (size : Nat) :
    Except Failure (EchoOnSesame σ μ) :=
  let (state, passed) := policy.requestSend s.policy proxy
  let s :=
    { s with
      policy := state
      onGranted := update s.onGranted proxy true
      currentRequestedSize := update s.currentRequestedSize proxy size
      requested := increase s.requested proxy }
  if passed then s.onRequest proxy else .ok s

variable (s : EchoOnSesame σ μ)

/-- `Initialized` of the policy, which observes the echo. -/
def notifyInitialized : Except Failure (EchoOnSesame σ μ) :=
  let (state, asks) := policy.initialized s.policy
  if asks then requestSend policy { s with policy := state } .policy policy.maxMessageSize
  else .ok { s with policy := state }

/-- `ServiceProxy::GrantSend`: the action of a proxy of the application calls a method, and
may let proxies ask to send with the given sizes. -/
def grantSend (proxy : ServiceProxy) (requests : List (Nat × Nat)) :
    Except Failure (EchoOnSesame σ μ × Method μ) :=
  if s.onGranted proxy then
    let s :=
      { s with
        onGranted := update s.onGranted proxy false
        granted := increase s.granted proxy }
    match proxy with
    | .policy =>
      match policy.onGranted s.policy with
      | none => .error .emptyOnGranted
      | some grant => do
          let s ← grant.requeued.foldlM onRequest { s with policy := grant.state }
          let s ← if grant.again then requestSend policy s .policy policy.maxMessageSize else .ok s
          return (s, .establishment grant.method)
    | .application _ => do
        let s ← requests.foldlM (fun s request =>
          requestSend policy s (.application request.1) request.2) s
        return (s, .application)
  else .error .emptyOnGranted

/-- What `SendStreamAvailable` does before it serializes: the method that is serialized,
and the key set by the policy. -/
def prepareSend (requests : List (Nat × Nat)) :
    Except Failure (EchoOnSesame σ μ × Method μ × Option KeyPair) :=
  match s.methodSerializer with
  | some method => .ok (s, method, none)
  | none =>
    match s.sendingProxy with
    | none => .error .noSendingProxy
    | some proxy => do
        let (s, method) ← grantSend policy s proxy requests
        let (state, keys) := policy.grantingSend s.policy proxy
        return ({ s with policy := state, methodSerializer := some method }, method, keys)

/-- What `SendStreamAvailable` does with the result of `Serialize`. -/
def finishSend (partly : Bool) : Except Failure (EchoOnSesame σ μ) :=
  let s := { s with partlySent := partly }
  if partly then
    match s.sendingProxy with
    | none => .error .noSendingProxy
    | some proxy =>
      if proxy ∈ s.destroyed then .error .destroyedProxy
      else .ok (s.requestSendStream (s.currentRequestedSize proxy))
  else .ok (tryGrantSend { s with sendingProxy := none, methodSerializer := none })

/-- `SendStreamAvailable`, where `partly` tells whether the stream took only a part of the
message. -/
def sendStreamAvailable (requests : List (Nat × Nat)) (partly : Bool) :
    Except Failure (EchoOnSesame σ μ) :=
  if s.skipNextStream then .ok (tryGrantSend { s with skipNextStream := false })
  else do
    let (s, _, _) ← prepareSend policy s requests
    s.finishSend partly

end

def granting : Option ServiceProxy :=
  if s.skipNextStream = true ∨ s.methodSerializer.isSome = true then none else s.sendingProxy

/-- A proxy of the application that exists, and does not wait for an earlier request. -/
def MayRequest (n : Nat) : Prop :=
  .application n ∉ s.destroyed ∧
    (s.onGranted (.application n) = false ∨ s.granting = some (.application n))

instance (s : EchoOnSesame σ μ) (n : Nat) : Decidable (s.MayRequest n) :=
  inferInstanceAs (Decidable (_ ∧ _))

def MayNest (requests : List (Nat × Nat)) : Prop :=
  (requests.map Prod.fst).Nodup ∧ (∀ request ∈ requests, s.MayRequest request.1) ∧
    (requests = [] ∨ (s.granting ≠ none ∧ s.granting ≠ some .policy))

instance (s : EchoOnSesame σ μ) (requests : List (Nat × Nat)) : Decidable (s.MayNest requests) :=
  inferInstanceAs (Decidable (_ ∧ _))

end EchoOnSesame

/-- An echo and what happens to it. -/
structure EchoRun (σ μ : Type) where
  echo : EchoOnSesame σ μ
  /-- Whether `Initialized` has notified its observers and not done the rest. -/
  notifying : Bool

namespace EchoRun

open EchoOnSesame

variable {σ μ : Type}

inductive Action
  | requestSend (n size : Nat)
  | destroy (n : Nat)
  | sendStreamAvailable (requests : List (Nat × Nat)) (partly : Bool)
  | reset
  | notifyInitialized (maxSendMessageSize : Nat)
  | finishInitialized
  deriving DecidableEq

/-- A run starts with a connection that is not initialized yet. -/
def start (policy : EchoPolicy σ μ) : Except Failure (EchoRun σ μ) :=
  .ok ⟨.construct policy, false⟩

/-- One step. `Initialized` takes two: the policy may be given a stream right when its proxy
asks for it, so that streams become available in between, and nothing else happens. -/
def step (policy : EchoPolicy σ μ) : Except Failure (EchoRun σ μ) → Action →
    Option (Except Failure (EchoRun σ μ))
  | .error _, _ => none
  | .ok r, .requestSend n size =>
    if r.notifying = false ∧ .application n ∉ r.echo.destroyed ∧
        r.echo.onGranted (.application n) = false then
      some ((requestSend policy r.echo (.application n) size).map (⟨·, false⟩))
    else none
  | .ok r, .destroy n =>
    if r.notifying = false ∧ .application n ∉ r.echo.destroyed then
      some ((r.echo.destroy (.application n)).map (⟨·, false⟩))
    else none
  | .ok r, .sendStreamAvailable requests partly =>
    if r.echo.sendStreams ≠ [] ∧ r.echo.MayNest requests then
      some ((sendStreamAvailable policy
        { r.echo with sendStreams := r.echo.sendStreams.tail } requests partly).map
          (⟨·, r.notifying⟩))
    else none
  | .ok r, .reset => if r.notifying = false then some (.ok ⟨r.echo.reset, false⟩) else none
  | .ok r, .notifyInitialized maxSendMessageSize =>
    if r.notifying = false then
      some ((notifyInitialized policy
        { r.echo with maxSendMessageSize := maxSendMessageSize }).map (⟨·, true⟩))
    else none
  | .ok r, .finishInitialized =>
    if r.notifying = true then some (.ok ⟨r.echo.finishInitialized, false⟩) else none

end EchoRun

end Echo
