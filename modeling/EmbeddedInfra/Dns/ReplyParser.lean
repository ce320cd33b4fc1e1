import EmbeddedInfra.Dns.Parsing

/-! `DnsResolver::ReplyParser`. -/

namespace Dns

variable (bytes : Bytes)

def fromBigEndian : Nat := bytes.foldl (fun value byte => value * 256 + byte.toNat) 0

def field (position : Nat) : Nat := fromBigEndian ((bytes.drop position).take 2)

structure DnsRecordHeader where
  id : Nat
  flags : Nat
  questionsCount : Nat
  answersCount : Nat
  nameServersCount : Nat
  additionalRecordsCount : Nat
  deriving DecidableEq

namespace DnsRecordHeader

def ofBytes (bytes : Bytes) : DnsRecordHeader where
  id := field bytes 0
  flags := field bytes 2
  questionsCount := field bytes 4
  answersCount := field bytes 6
  nameServersCount := field bytes 8
  additionalRecordsCount := field bytes 10

variable (header : DnsRecordHeader)

/-- `flagsResponse` is set. -/
def response : Bool := header.flags / 0x8000 % 2 = 1

/-- The bits of `flagsOpcodeMask`. -/
def opcode : Nat := header.flags / 0x800 % 16

/-- The bits of `flagsErrorMask`. -/
def error : Nat := header.flags % 16

end DnsRecordHeader

structure DnsQuestionFooter where
  type : Nat
  class_ : Nat
  deriving DecidableEq

def DnsQuestionFooter.ofBytes : DnsQuestionFooter where
  type := field bytes 0
  class_ := field bytes 2

structure DnsRecordPayload where
  type : Nat
  class_ : Nat
  ttl : Nat
  resourceDataLength : Nat
  deriving DecidableEq

def classIn : Nat := 1
def typeA : Nat := 1
def typeNameServer : Nat := 2
def typeCName : Nat := 5

def addressSize : Nat := 4

namespace DnsRecordPayload

def ofBytes (bytes : Bytes) : DnsRecordPayload where
  type := field bytes 0
  class_ := field bytes 2
  ttl := field bytes 4 * 65536 + field bytes 6
  resourceDataLength := field bytes 8

variable (payload : DnsRecordPayload)

def isCName : Bool :=
  payload.class_ = classIn && payload.type = typeCName

def isIPv4Answer : Bool :=
  payload.class_ = classIn && payload.type = typeA && payload.resourceDataLength = addressSize

def isNameServer : Bool :=
  payload.class_ = classIn && payload.type = typeNameServer

end DnsRecordPayload

section

variable (data : Bytes)

variable (r : Reader) (hostname : Bytes)

def extractHeader : DnsRecordHeader × Reader :=
  let (bytes, r) := r.extract data 12
  (.ofBytes bytes, r)

def extractFooter : DnsQuestionFooter × Reader :=
  let (bytes, r) := r.extract data 4
  (.ofBytes bytes, r)

def extractPayload : DnsRecordPayload × Reader :=
  let (bytes, r) := r.extract data 10
  (.ofBytes bytes, r)

inductive Answer
  | answer (address : Bytes) (ttl : Nat)
  | cName
  | noAnswer
  deriving DecidableEq

/-- `ReadAnswer`, with the hostname it leaves. -/
def readAnswer (r : Reader) : Parsing (Answer × Bytes × Reader) := do
  let (hostnameMatches, r) ← .name (.hostname hostname r)
  let (payload, r) := extractPayload data r
  if hostnameMatches && payload.isCName then
    let (hostname, r) ← .name (.cName payload.resourceDataLength r)
    return (if r.failed then .noAnswer else .cName, hostname, r)
  else if hostnameMatches && payload.isIPv4Answer then
    let (address, r) := r.extract data addressSize
    return (if r.failed then .noAnswer else .answer address payload.ttl, hostname, r)
  else return (.noAnswer, hostname, r.consume data payload.resourceDataLength)

/-- What is left by `ReadAnswerRecords`. -/
structure Answers where
  answer : Option (Bytes × Nat)
  hostname : Bytes
  recurse : Bool
  reader : Reader
  deriving DecidableEq

/-- `ReadAnswerRecords`, for the answers that remain. -/
def readAnswerRecords : Nat → Bytes → Bool → Reader → Parsing Answers
  | 0, hostname, recurse, r => return { answer := none, hostname, recurse, reader := r }
  | answersCount + 1, hostname, recurse, r => do
      let (answer, hostname, r) ← readAnswer data hostname r
      match answer with
      | .answer address ttl => return { answer := some (address, ttl), hostname, recurse, reader := r }
      | .cName => readAnswerRecords answersCount hostname true r
      | .noAnswer => readAnswerRecords answersCount hostname recurse r

def discardAnswer (r : Reader) : Parsing Reader := do
  let (_, r) ← .name (.hostname hostname r)
  let (payload, r) := extractPayload data r
  return r.consume data payload.resourceDataLength

/-- `DiscardNameServerRecords`, for the records that remain. -/
def discardNameServerRecords (hostname : Bytes) : Nat → Reader → Parsing Reader
  | 0, r => return r
  | nameServersCount + 1, r => do
      let r ← discardAnswer data hostname r
      discardNameServerRecords hostname nameServersCount r

def isNameServerForAdditionalRecord (additionalRecordNameStart : Nat) (r : Reader) :
    Parsing (Bool × Reader) := do
  let (_, r) ← .name (.hostname hostname r)
  let (payload, r) := extractPayload data r
  if payload.isNameServer then .name (.parts additionalRecordNameStart r)
  else return (false, r.consume data payload.resourceDataLength)

/-- The loop of `ReadAndMatchNameServer`. -/
def findNameServer (hostname : Bytes) (additionalRecordNameStart : Nat) :
    Nat → Reader → Parsing (Bool × Reader)
  | 0, r => return (false, r)
  | numNameServers + 1, r => do
      let (found, r) ← isNameServerForAdditionalRecord data hostname additionalRecordNameStart r
      if found then return (true, r)
      else findNameServer hostname additionalRecordNameStart numNameServers r

def readAndMatchNameServer (nameServerPosition numNameServers : Nat) (r : Reader) :
    Parsing (Bool × Reader) := do
  let additionalRecordNameStart := r.offset
  let (nameServerMatches, r) ← findNameServer data hostname additionalRecordNameStart numNameServers
    (r.rewind nameServerPosition)
  let (_, r) ← .name (.hostname hostname (r.rewind additionalRecordNameStart))
  return (nameServerMatches, r)

def readNameServer (nameServerPosition numNameServers : Nat) (r : Reader) :
    Parsing (Option Bytes × Reader) := do
  let (nameServerMatches, r) ←
    readAndMatchNameServer data hostname nameServerPosition numNameServers r
  let (payload, r) := extractPayload data r
  if nameServerMatches && payload.isIPv4Answer then
    let (address, r) := r.extract data addressSize
    return (if r.failed then none else some address, r)
  else return (none, r.consume data payload.resourceDataLength)

/-- The maximum size of `recursiveDnsServers`. -/
def maxAttempts : Nat := 3

/-- `ReadAdditionalRecords`, for the records that remain. -/
def readAdditionalRecords (hostname : Bytes) (nameServerPosition nameServersCount : Nat) :
    Nat → List Bytes → Bool → Reader → Parsing (List Bytes × Bool × Reader)
  | 0, recursiveDnsServers, recurse, r => return (recursiveDnsServers, recurse, r)
  | additionalRecordsCount + 1, recursiveDnsServers, recurse, r => do
      let (answer, r) ← readNameServer data hostname nameServerPosition nameServersCount r
      match answer with
      | some address =>
        if recursiveDnsServers.length < maxAttempts then
          readAdditionalRecords hostname nameServerPosition nameServersCount
            additionalRecordsCount (recursiveDnsServers ++ [address]) true r
        else
          readAdditionalRecords hostname nameServerPosition nameServersCount
            additionalRecordsCount recursiveDnsServers recurse r
      | none =>
        readAdditionalRecords hostname nameServerPosition nameServersCount
          additionalRecordsCount recursiveDnsServers recurse r

def readNameServers (header : DnsRecordHeader) (hostname : Bytes) (recurse : Bool) (r : Reader) :
    Parsing (List Bytes × Bool × Reader) := do
  let nameServerPosition := r.offset
  let r ← discardNameServerRecords data hostname header.nameServersCount r
  readAdditionalRecords data hostname nameServerPosition header.nameServersCount
    header.additionalRecordsCount [] recurse r

/-- What the constructor of `ReplyParser` has read. -/
structure ReplyParser where
  header : DnsRecordHeader
  footer : DnsQuestionFooter
  hostnameMatches : Bool
  reader : Reader
  deriving DecidableEq

def ReplyParser.construct (r : Reader) : Parsing ReplyParser := do
  let (header, r) := extractHeader data r
  let (hostnameMatches, r) ← .name (.hostname hostname r)
  let (footer, r) := extractFooter data r
  return { header, footer, hostnameMatches, reader := r }

/-- Whether the datagram came from the name server that was asked is `fromNameServer`. -/
def ReplyParser.answerIsForCurrentQuery (reply : ReplyParser) (fromNameServer : Bool)
    (queryId : Nat) : Bool :=
  fromNameServer && reply.header.response && reply.header.questionsCount = 1 &&
    reply.header.id = queryId && reply.hostnameMatches && reply.footer.type = typeA &&
    reply.footer.class_ = classIn

/-- What `ActiveLookup::DataReceived` decides. -/
inductive Lookup
  | ignored
  | nextAttempt
  | success (address : Bytes) (ttl : Nat)
  | recursion (hostname : Bytes) (newRecursiveDnsServers : List Bytes)
  | failedAttempt (hostname : Bytes) (newRecursiveDnsServers : List Bytes)
  deriving DecidableEq

def tryFindAnswer (reply : ReplyParser) (hostname : Bytes) : Parsing Lookup := do
  let answers ← readAnswerRecords data reply.header.answersCount hostname false reply.reader
  match answers.answer with
  | some (address, ttl) => return .success address ttl
  | none =>
    let (newRecursiveDnsServers, recurse, _) ←
      readNameServers data reply.header answers.hostname answers.recurse answers.reader
    return if recurse then .recursion answers.hostname newRecursiveDnsServers
      else .failedAttempt answers.hostname newRecursiveDnsServers

def dataReceived (fromNameServer : Bool) (queryId : Nat) : Parsing Lookup := do
  let reply ← ReplyParser.construct data hostname { offset := 0, failed := false }
  if reply.answerIsForCurrentQuery fromNameServer queryId then
    if reply.header.error ≠ 0 then return .nextAttempt
    else tryFindAnswer data reply hostname
  else return .ignored

end

end Dns
