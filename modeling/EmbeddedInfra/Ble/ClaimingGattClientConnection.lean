import Mathlib.Algebra.Group.Nat.Defs

/-! The long operations of `ClaimingGattClientConnection`. Each request is a call of the layer below,
which returns a status; a request that was accepted is answered later. -/

namespace Ble.Gatt

abbrev Bytes := List UInt8

inductive GattRequestStatus
  | accepted
  | invalidState
  | invalidParameter
  | busy
  | notSupported
  deriving DecidableEq

inductive GattResult
  | success
  | invalidHandle
  | notPermitted
  | insufficientAuthentication
  | insufficientAuthorization
  | insufficientEncryption
  | insufficientResources
  | invalidLength
  | unsupported
  | disconnected
  | timeout
  | unknown
  | databaseOutOfSync
  | valueNotAllowed
  | invalidOffset
  deriving DecidableEq

inductive GattExecuteWriteFlag
  | cancel
  | write
  deriving DecidableEq

def resultFromRefusedRequest : GattRequestStatus → GattResult
  | .invalidState => .disconnected
  | .notSupported => .unsupported
  | _ => .unknown

def attMaxAttributeValueSize : Nat := 512

inductive Request
  | read (handle : Nat)
  | readBlob (handle offset : Nat)
  | write (handle : Nat) (data : Bytes)
  | prepareWrite (handle offset : Nat) (data : Bytes)
  | executeWrite (flag : GattExecuteWriteFlag)
  deriving DecidableEq

/-- The arguments of a callback, as far as it has them. -/
structure Answer where
  result : GattResult
  offset : Nat := 0
  data : Bytes := []
  deriving DecidableEq

inductive Operation
  | longRead (value : Bytes) (maxSize : Nat)
  | longWrite (data : Bytes) (offset : Nat) (pendingResult : GattResult)
  deriving DecidableEq

/-- The state of `characteristicOperationsClaimer`. -/
inductive Claim
  | unclaimed
  | queued
  | claimed
  deriving DecidableEq

/-- What the operation waits for: that a call returns (the first one is made when the claim is
granted), or that a callback comes. -/
inductive Place
  | idle
  | calling (request : Request) (first : Bool)
  | waiting (request : Request)
  deriving DecidableEq

/-- The operation, with the calls that returned, the callbacks that came, and what `onDone` was
called with. -/
structure Connection where
  operation : Operation := .longRead [] 0
  handle : Nat := 0
  claim : Claim := .unclaimed
  place : Place := .idle
  calls : List (Request × GattRequestStatus) := []
  answers : List Answer := []
  reports : List (GattResult × Bytes) := []
  deriving DecidableEq

namespace Connection

def begun (handle : Nat) (operation : Operation) : Connection :=
  { operation, handle, claim := .queued }

variable (s : Connection) (mtu : Nat)

def readLong (handle maxSize : Nat) : GattRequestStatus × Connection :=
  if s.claim ≠ .unclaimed then (.busy, s) else (.accepted, begun handle (.longRead [] maxSize))

def writeLong (handle : Nat) (data : Bytes) : GattRequestStatus × Connection :=
  if s.claim ≠ .unclaimed then (.busy, s)
  else if attMaxAttributeValueSize < data.length then (.invalidParameter, s)
  else (.accepted, begun handle (.longWrite data 0 .success))

def maximumWritePayloadSize : Nat := mtu - 3
def longReadChunkSize : Nat := mtu - 1
def longWriteChunkSize : Nat := mtu - 5

def complete (result : GattResult) (value : Bytes) : Connection :=
  { s with claim := .unclaimed, place := .idle, reports := s.reports ++ [(result, value)] }

def call (request : Request) (first : Bool) : Connection :=
  { s with place := .calling request first }

def continueLongRead (value : Bytes) (first : Bool) : Connection :=
  let offset := value.length % 2 ^ 16
  if offset = 0 then s.call (.read s.handle) first else s.call (.readBlob s.handle offset) first

def currentLongWriteChunk (data : Bytes) (offset : Nat) : Bytes :=
  (data.drop offset).take (longWriteChunkSize mtu)

def continueLongWrite (mtu : Nat) (data : Bytes) (offset : Nat) (first : Bool) : Connection :=
  s.call (.prepareWrite s.handle offset (currentLongWriteChunk mtu data offset)) first

def performCharacteristicOperation (mtu : Nat) : Connection :=
  match s.operation with
  | .longRead value _ => s.continueLongRead value true
  | .longWrite data offset _ =>
    if data.length ≤ maximumWritePayloadSize mtu then s.call (.write s.handle data) true
    else s.continueLongWrite mtu data offset true

def longReadChunkReceived (mtu : Nat) (value : Bytes) (maxSize : Nat) (answer : Answer) :
    Connection :=
  if answer.result = .invalidOffset ∧ value ≠ [] then s.complete .success value
  else if answer.result ≠ .success then s.complete answer.result value
  else if maxSize - value.length < answer.data.length then
    let value := value ++ answer.data.take (maxSize - value.length)
    { s with operation := .longRead value maxSize }.complete .insufficientResources value
  else
    let value := value ++ answer.data
    let s := { s with operation := .longRead value maxSize }
    if answer.data.length < longReadChunkSize mtu then s.complete .success value
    else s.continueLongRead value false

def cancelLongWrite (data : Bytes) (offset : Nat) (result : GattResult) : Connection :=
  { s with operation := .longWrite data offset result }.call (.executeWrite .cancel) false

def longWriteChunkPrepared (mtu : Nat) (data : Bytes) (offset : Nat) (pendingResult : GattResult)
    (answer : Answer) : Connection :=
  let expected := currentLongWriteChunk mtu data offset
  if answer.result ≠ .success then s.cancelLongWrite data offset answer.result
  else if answer.offset ≠ offset ∨ expected ≠ answer.data then
    s.cancelLongWrite data offset .unknown
  else
    let next := (offset + expected.length) % 2 ^ 16
    let s := { s with operation := .longWrite data next pendingResult }
    if next = data.length then s.call (.executeWrite .write) false
    else s.continueLongWrite mtu data next false

def refused (request : Request) (first : Bool) (status : GattRequestStatus) : Connection :=
  let result := resultFromRefusedRequest status
  if first then s.complete result []
  else
    match s.operation, request with
    | .longRead value _, _ => s.complete result value
    | .longWrite _ _ pendingResult, .executeWrite .cancel => s.complete pendingResult []
    | .longWrite data offset _, _ => s.cancelLongWrite data offset result

def answered (mtu : Nat) (request : Request) (answer : Answer) : Connection :=
  match s.operation, request with
  | .longRead value maxSize, _ => s.longReadChunkReceived mtu value maxSize answer
  | .longWrite data offset pendingResult, .prepareWrite _ _ _ =>
    s.longWriteChunkPrepared mtu data offset pendingResult answer
  | .longWrite _ _ pendingResult, .executeWrite .cancel => s.complete pendingResult []
  | .longWrite _ _ _, _ => s.complete answer.result []

inductive Event
  | claimGranted
  | returns (status : GattRequestStatus)
  | calledBack (answer : Answer)
  deriving DecidableEq

def step (s : Connection) : Event → Option Connection
  | .claimGranted =>
    if s.claim = .queued then
      some ({ s with claim := .claimed }.performCharacteristicOperation mtu)
    else none
  | .returns status =>
    match s.place with
    | .calling request first =>
      let s := { s with calls := s.calls ++ [(request, status)] }
      some (if status = .accepted then { s with place := .waiting request }
        else s.refused request first status)
    | _ => none
  | .calledBack answer =>
    match s.place with
    | .waiting request =>
      some ({ s with answers := s.answers ++ [answer] }.answered mtu request answer)
    | _ => none

end Connection

end Ble.Gatt
