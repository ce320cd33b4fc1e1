import EmbeddedInfra.Sesame.Secured

/-! Policies of an echo: they decide when a proxy that asks to send is queued, and which
key its message is encrypted with. -/

namespace Echo

/-- The proxies of one echo: that of its policy, and those of the application. -/
inductive ServiceProxy
  | policy
  | application (n : Nat)
  deriving DecidableEq

/-- A key and the IV to start with. -/
abbrev KeyPair := Sesame.KeyType × Sesame.IvType

/-- What the action that a policy gives its own proxy does when the proxy is granted: the
method it calls, the proxies it queues, and whether the proxy asks to send again. -/
structure Granted (σ μ : Type) where
  state : σ
  method : μ
  requeued : List ServiceProxy
  again : Bool

/-- A policy with states `σ`, whose own proxy calls methods `μ`. -/
structure EchoPolicy (σ μ : Type) where
  construct : σ
  /-- `MaxMessageSize` of its own proxy. -/
  maxMessageSize : Nat
  /-- `Initialized`, and whether the own proxy asks to send. -/
  initialized : σ → σ × Bool
  /-- `RequestSend`, and whether it calls `onRequest`. -/
  requestSend : σ → ServiceProxy → σ × Bool
  /-- `GrantingSend`, and the key it sets. -/
  grantingSend : σ → ServiceProxy → σ × Option KeyPair
  onGranted : σ → Option (Granted σ μ)
  waitingProxies : σ → List ServiceProxy

/-- `EchoPolicy` itself, which does nothing. -/
def defaultPolicy : EchoPolicy Unit Empty where
  construct := ()
  maxMessageSize := 0
  initialized s := (s, false)
  requestSend s _ := (s, true)
  grantingSend s _ := (s, none)
  onGranted _ := none
  waitingProxies _ := []

structure EchoPolicySymmetricKey where
  initializingSending : Bool
  waitingProxies : List ServiceProxy
  nextKeyPair : Option KeyPair
  /-- How many pairs the random data generator was asked for. -/
  generated : Nat
  deriving DecidableEq

namespace EchoPolicySymmetricKey

inductive Method
  | activateNewKeyMaterial (keys : KeyPair)
  deriving DecidableEq

def construct : EchoPolicySymmetricKey :=
  { initializingSending := true
    waitingProxies := []
    nextKeyPair := none
    generated := 0 }

def initialized (s : EchoPolicySymmetricKey) : EchoPolicySymmetricKey × Bool :=
  ({ s with initializingSending := true }, true)

def requestSend (s : EchoPolicySymmetricKey) (proxy : ServiceProxy) :
    EchoPolicySymmetricKey × Bool :=
  if s.initializingSending = true ∧ proxy ≠ .policy then
    ({ s with waitingProxies := s.waitingProxies ++ [proxy] }, false)
  else (s, true)

def grantingSend (s : EchoPolicySymmetricKey) (proxy : ServiceProxy) :
    EchoPolicySymmetricKey × Option KeyPair :=
  if s.nextKeyPair ≠ none ∧ proxy ≠ .policy then ({ s with nextKeyPair := none }, s.nextKeyPair)
  else (s, none)

/-- The action given to `SymmetricKeyEstablishmentProxy::RequestSend`; `random` is what the
random data generator gives. -/
def onGranted (random : Nat → KeyPair) (s : EchoPolicySymmetricKey) :
    Granted EchoPolicySymmetricKey Method where
  state :=
    { s with
      initializingSending := false
      waitingProxies := []
      nextKeyPair := some (random s.generated)
      generated := s.generated + 1 }
  method := .activateNewKeyMaterial (random s.generated)
  requeued := s.waitingProxies
  again := false

/-- The policy, where the messages of its proxy have the given size. -/
def policy (random : Nat → KeyPair) (maxMessageSize : Nat) :
    EchoPolicy EchoPolicySymmetricKey Method where
  construct := construct
  maxMessageSize := maxMessageSize
  initialized := initialized
  requestSend := requestSend
  grantingSend := grantingSend
  onGranted s := some (onGranted random s)
  waitingProxies := EchoPolicySymmetricKey.waitingProxies

end EchoPolicySymmetricKey

end Echo
