import EmbeddedInfra.Dns.ReplyParser

/-! `DnsServer`, and a run of it over a datagram exchange. -/

namespace Dns

abbrev IPv4Address := Vector UInt8 4

abbrev IPv6Address := Vector UInt16 8

inductive IPAddress
  | ipv4 (address : IPv4Address)
  | ipv6 (address : IPv6Address)
  deriving DecidableEq

inductive UdpSocket
  | udpv4 (address : IPv4Address) (port : UInt16)
  | udpv6 (address : IPv6Address) (port : UInt16)
  deriving DecidableEq

structure DnsEntry where
  name : Bytes
  address : IPAddress
  deriving DecidableEq

structure QuestionParser where
  header : DnsRecordHeader
  reconstructedHostname : Bytes
  footer : DnsQuestionFooter
  failed : Bool
  deriving DecidableEq

namespace QuestionParser

/-- `ReconstructHostname` has the loop of `MdnsClient::AnswerParser::ReadHostname`. -/
def reconstructHostname (data : Bytes) (rounds : Nat) (r : Reader) : Except Stop (Bytes × Reader) :=
  readHostname data rounds r

def construct (data : Bytes) (rounds : Nat) : Except Stop QuestionParser :=
  let (header, r) := extractHeader data { offset := 0, failed := false }
  (reconstructHostname data rounds r).map fun (reconstructedHostname, r) =>
    let (footer, r) := extractFooter data r
    { header, reconstructedHostname, footer, failed := r.failed }

def requestIncludesOneQuestion (parser : QuestionParser) : Bool :=
  parser.header.questionsCount = 1 && parser.header.answersCount = 0 &&
    parser.header.nameServersCount = 0 && parser.header.additionalRecordsCount = 0

def isValid (parser : QuestionParser) : Bool :=
  if parser.failed then false
  else if parser.header.opcode ≠ 0 then false
  else if parser.header.response then false
  else if parser.footer.type ≠ typeA then false
  else if parser.footer.class_ ≠ classIn then false
  else true

def queryNameSize (parser : QuestionParser) : Nat :=
  if parser.reconstructedHostname.isEmpty then 1 else parser.reconstructedHostname.length + 2

end QuestionParser

/-- `www.` -/
def www : Bytes := [0x77, 0x77, 0x77, separator]

def stripLeadingWww (hostname : Bytes) : Bytes :=
  if www <+: hostname then hostname.drop www.length else hostname

/-- Equal but for the case of letters. -/
def caseInsensitiveCompare (lhs rhs : Bytes) : Bool := lhs.map toLower = rhs.map toLower

def findAnswer (entries : List DnsEntry) (hostname : Bytes) : Option DnsEntry :=
  entries.find? fun entry => caseInsensitiveCompare entry.name (stripLeadingWww hostname)

def toBigEndian (value : Nat) : Bytes := [UInt8.ofNat (value / 256), UInt8.ofNat value]

def DnsRecordHeader.toBytes (header : DnsRecordHeader) : Bytes :=
  toBigEndian header.id ++ toBigEndian header.flags ++ toBigEndian header.questionsCount ++
    toBigEndian header.answersCount ++ toBigEndian header.nameServersCount ++
    toBigEndian header.additionalRecordsCount

def DnsQuestionFooter.toBytes (footer : DnsQuestionFooter) : Bytes :=
  toBigEndian footer.type ++ toBigEndian footer.class_

def DnsRecordPayload.toBytes (payload : DnsRecordPayload) : Bytes :=
  toBigEndian payload.type ++ toBigEndian payload.class_ ++ toBigEndian (payload.ttl / 65536) ++
    toBigEndian payload.ttl ++ toBigEndian payload.resourceDataLength

def streamWithoutTermination (hostnameTokens : List Bytes) : Bytes :=
  hostnameTokens.flatMap fun token => UInt8.ofNat token.length :: token

def streamHostname (hostname : Bytes) : Bytes := streamWithoutTermination (tokens hostname) ++ [0]

def rnameCompression : Bytes := [0xc0, 12]

/-- What `RequestSendStream` was called with. -/
structure SendRequest where
  size : Nat
  recipient : UdpSocket
  deriving DecidableEq

structure DnsServer where
  dnsEntries : List DnsEntry
  question : Option QuestionParser
  answer : Option DnsEntry
  deriving DecidableEq

namespace DnsServer

def construct (dnsEntries : List DnsEntry) : DnsServer where
  dnsEntries
  question := none
  answer := none

def answerSize (question : QuestionParser) : Nat :=
  12 + question.queryNameSize + 4 + 2 + 10 + addressSize

/-- `DataReceived`, with the send stream that it requests. -/
def dataReceived (rounds : Nat) (s : DnsServer) (data : Bytes) (sender : UdpSocket) :
    Except Stop (DnsServer × Option SendRequest) :=
  if s.question.isSome then .ok (s, none)
  else
    (QuestionParser.construct data rounds).map fun question =>
      if question.isValid && question.requestIncludesOneQuestion then
        let answer := findAnswer s.dnsEntries question.reconstructedHostname
        ({ s with question := some question, answer },
          answer.map fun _ => { size := answerSize question, recipient := sender })
      else ({ s with question := none }, none)

/-- What is streamed in `SendStreamAvailable`. -/
def response (question : QuestionParser) (address : IPv4Address) : Bytes :=
  let header : DnsRecordHeader :=
    { id := question.header.id, flags := 0x8000, questionsCount := 1, answersCount := 1,
      nameServersCount := 0, additionalRecordsCount := 0 }
  let questionFooter : DnsQuestionFooter := { type := typeA, class_ := classIn }
  let payload : DnsRecordPayload :=
    { type := typeA, class_ := classIn, ttl := 60, resourceDataLength := addressSize }
  header.toBytes ++ streamHostname question.reconstructedHostname ++ questionFooter.toBytes ++
    rnameCompression ++ payload.toBytes ++ address.toList

/-- `SendStreamAvailable` with a writer of this size, and what it has written. -/
def sendStreamAvailable (s : DnsServer) (available : Nat) : Except Stop (DnsServer × Bytes) :=
  match s.question, s.answer with
  | some question, some { address := .ipv4 address, .. } =>
    let bytes := response question address
    -- the error policy of the stream asserts that there is room
    if available < bytes.length then .error .assertion
    else .ok ({ s with question := none, answer := none }, bytes)
  -- no question, or `std::get` throws
  | _, _ => .error .assertion

end DnsServer

/-- A datagram that was received while no question was pending, and what came of it. -/
structure Exchange where
  data : Bytes
  sender : UdpSocket
  requested : List SendRequest
  sent : List Bytes
  deriving DecidableEq

/-- The server, the send streams that the datagram exchange owes it, and what has happened. -/
structure Serving where
  server : DnsServer
  owed : List SendRequest
  exchanges : List Exchange
  stopped : Option Stop
  deriving DecidableEq

namespace Serving

inductive Event
  | dataReceived (data : Bytes) (sender : UdpSocket)
  | sendStreamAvailable
  deriving DecidableEq

def construct (dnsEntries : List DnsEntry) : Serving where
  server := .construct dnsEntries
  owed := []
  exchanges := []
  stopped := none

def recordSent (sent : Bytes) : List Exchange → List Exchange
  | [] => []
  | [last] => [{ last with sent := last.sent ++ [sent] }]
  | first :: rest => first :: recordSent sent rest

def received (s : Serving) (data : Bytes) (sender : UdpSocket) :
    Except Stop (DnsServer × Option SendRequest) → Serving
  | .error stop => { s with stopped := some stop }
  | .ok (server, request) =>
    { s with
      server
      owed := s.owed ++ request.toList
      exchanges :=
        if s.server.question.isSome then s.exchanges
        else s.exchanges ++ [{ data, sender, requested := request.toList, sent := [] }] }

def sent (s : Serving) (owed : List SendRequest) : Except Stop (DnsServer × Bytes) → Serving
  | .error stop => { s with owed, stopped := some stop }
  | .ok (server, bytes) => { s with server, owed, exchanges := recordSent bytes s.exchanges }

/-- A send stream becomes available only when it was requested. -/
def step (s : Serving) : Event → Option Serving
  | .dataReceived data sender =>
    if s.stopped = none then
      some (s.received data sender (s.server.dataReceived (data.length + 1) data sender))
    else none
  | .sendStreamAvailable =>
    if s.stopped = none then
      match s.owed with
      | [] => none
      | request :: owed => some (s.sent owed (s.server.sendStreamAvailable request.size))
    else none

end Serving

end Dns
