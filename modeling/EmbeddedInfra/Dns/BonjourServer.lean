import EmbeddedInfra.Dns.DnsServer

/-! `BonjourServer` once it is announced, and a run of it over its datagram exchanges. -/

namespace Dns

def typePtr : Nat := 12
def typeTxt : Nat := 16
def typeAaaa : Nat := 28
def typeSrv : Nat := 33
def typeNsec : Nat := 47

def mdnsPort : UInt16 := 5353

def mdnsMulticastAddressIpv4 : IPv4Address := #v[224, 0, 0, 251]

def mdnsMulticastAddressIpv6 : IPv6Address := #v[0xff02, 0, 0, 0, 0, 0, 0, 0xfb]

/-- `local` -/
def localLabel : Bytes := [0x6c, 0x6f, 0x63, 0x61, 0x6c]

variable (parts : List Bytes)

/-- `DnsHostnameParts::Stream` of a `DnsHostnameInParts`. -/
def streamParts : Bytes := streamWithoutTermination parts ++ [0]

def streamedSize : Nat :=
  parts.foldl (fun result part => result + (part.length + 1)) 1

/-- The text of a server: what `StreamWithoutTermination` streams, and `StreamedSize`. -/
structure Text where
  streamed : Bytes
  streamedSize : Nat
  deriving DecidableEq

def Text.inParts : Text where
  streamed := streamWithoutTermination parts
  streamedSize := Dns.streamedSize parts

/-- `Tokenizer::TokenAndRest(0)` starts at the first token. -/
def tokenAndRest (hostname : Bytes) : Bytes := hostname.dropWhile (· = separator)

def Text.string (hostname : Bytes) : Text where
  streamed := streamWithoutTermination (tokens hostname)
  streamedSize := if (tokens hostname).length = 0 then 0 else (tokenAndRest hostname).length + 1

def bitReverse (v : UInt8) : UInt8 :=
  (List.range 8).foldl (fun result i => result <<< 1 ||| (v >>> UInt8.ofNat i &&& 1)) 0

def dnsBitmap (index : Nat) : Bytes :=
  (List.range 4).map fun i => bitReverse (UInt8.ofNat (2 ^ index / 256 ^ i))

def toNetworkOrder (address : IPv6Address) : Bytes :=
  address.toList.flatMap fun part => toBigEndian part.toNat

/-- What the records are made of. -/
structure Service where
  instance_ : Bytes
  serviceName : Bytes
  type : Bytes
  ipv4Address : Option IPv4Address
  ipv6Address : Option IPv6Address
  port : UInt16
  text : Text
  deriving DecidableEq

namespace Service

variable (server : Service)

def shortInstanceName : List Bytes := [server.instance_, localLabel]

def serviceNameParts : List Bytes := [server.serviceName, server.type, localLabel]

def fullInstanceName : List Bytes :=
  [server.instance_, server.serviceName, server.type, localLabel]

/-- A payload of class IN that lives for five seconds; its length is cut to 16 bits. -/
def payload (type dataLength : Nat) : DnsRecordPayload where
  type
  class_ := classIn
  ttl := 5
  resourceDataLength := dataLength % 65536

variable (dnsHostname : List Bytes)

def addA (address : IPv4Address) : Bytes :=
  streamParts dnsHostname ++ (payload typeA 4).toBytes ++ address.toList

def addNoA : Bytes :=
  streamParts dnsHostname ++ (payload typeNsec (6 + streamedSize dnsHostname)).toBytes ++
    streamParts dnsHostname ++ [0, 4] ++ dnsBitmap typeAaaa

def addAaaa (address : IPv6Address) : Bytes :=
  streamParts dnsHostname ++ (payload typeAaaa 16).toBytes ++ toNetworkOrder address

def addNoAaaa : Bytes :=
  streamParts dnsHostname ++ (payload typeNsec (6 + streamedSize dnsHostname)).toBytes ++
    streamParts dnsHostname ++ [0, 4] ++ dnsBitmap typeA

def addPtr : Bytes :=
  streamParts dnsHostname ++ (payload typePtr (streamedSize server.fullInstanceName)).toBytes ++
    streamParts server.fullInstanceName

def addSrv : Bytes :=
  streamParts dnsHostname ++
    (payload typeSrv (streamedSize server.shortInstanceName + 6)).toBytes ++
    toBigEndian 0 ++ toBigEndian 0 ++ toBigEndian server.port.toNat ++
    streamParts server.shortInstanceName

def textLength : Nat := if server.text.streamedSize = 0 then 65535 else server.text.streamedSize - 1

def addTxt : Bytes :=
  streamParts dnsHostname ++ (payload typeTxt server.textLength).toBytes ++ server.text.streamed

/-- The records of `AddAAnswer` and `AddAAdditional`. -/
def a : Bytes :=
  match server.ipv4Address with
  | some address => addA server.shortInstanceName address
  | none => addNoA server.shortInstanceName

/-- The records of `AddAaaaAnswer` and `AddAaaaAdditional`. -/
def aaaa : Bytes :=
  match server.ipv6Address with
  | some address => addAaaa server.shortInstanceName address
  | none => addNoAaaa server.shortInstanceName

end Service

/-- `BonjourServer::Answer`, with what it has written. -/
structure ServiceAnswer where
  stream : Bytes
  answersCount : Nat
  additionalRecordsCount : Nat
  deriving DecidableEq

namespace ServiceAnswer

def construct (queryId answersCount additionalRecordsCount : Nat) : ServiceAnswer where
  stream := DnsRecordHeader.toBytes
    { id := queryId, flags := 0x8000, questionsCount := 0, answersCount, nameServersCount := 0,
      additionalRecordsCount }
  answersCount
  additionalRecordsCount

def addAnswer (answer : ServiceAnswer) (bytes : Bytes) : ServiceAnswer :=
  { answer with
    stream := answer.stream ++ bytes
    answersCount := (answer.answersCount + 1) % 65536 }

def addAdditional (answer : ServiceAnswer) (bytes : Bytes) : ServiceAnswer :=
  { answer with
    stream := answer.stream ++ bytes
    additionalRecordsCount := (answer.additionalRecordsCount + 1) % 65536 }

variable (server : Service) (answer : ServiceAnswer)

def addAAnswer : ServiceAnswer := answer.addAnswer server.a

def addAaaaAnswer : ServiceAnswer := answer.addAnswer server.aaaa

def addPtrAnswer : ServiceAnswer := answer.addAnswer (server.addPtr server.serviceNameParts)

def addSrvAnswer : ServiceAnswer := answer.addAnswer (server.addSrv server.fullInstanceName)

def addTxtAnswer : ServiceAnswer := answer.addAnswer (server.addTxt server.fullInstanceName)

def addAAdditional : ServiceAnswer := answer.addAdditional server.a

def addAaaaAdditional : ServiceAnswer := answer.addAdditional server.aaaa

def addSrvAdditional : ServiceAnswer :=
  answer.addAdditional (server.addSrv server.fullInstanceName)

def addTxtAdditional : ServiceAnswer :=
  answer.addAdditional (server.addTxt server.fullInstanceName)

end ServiceAnswer

/-- The loop of `HostNameIs`. -/
def hostNameIs : List Bytes → List Bytes → Bool
  | part :: parts, component :: components =>
    if part = component then hostNameIs parts components else false
  | parts, components => parts.isEmpty && components.isEmpty

/-- The part of `BonjourServer::QuestionParser` that the loops change. -/
structure QuestionsRead where
  answer : ServiceAnswer
  valid : Bool
  r : Reader
  deriving DecidableEq

namespace Service

variable (server : Service)

def isFooterValid (footer : DnsQuestionFooter) : Bool :=
  if footer.type ≠ typeA ∧ footer.type ≠ typeAaaa ∧ footer.type ≠ typePtr ∧
      footer.type ≠ typeSrv ∧ footer.type ≠ typeTxt then false
  else if footer.class_ ≠ classIn then false
  else true

def isQueryForMe (reconstructedHostname : Bytes) (footer : DnsQuestionFooter) : Bool :=
  let parts := tokens reconstructedHostname
  if footer.type = typeA && hostNameIs parts server.shortInstanceName then true
  else if footer.type = typeAaaa && hostNameIs parts server.shortInstanceName then true
  else if footer.type = typeSrv && hostNameIs parts server.fullInstanceName then true
  else if footer.type = typeTxt && hostNameIs parts server.fullInstanceName then true
  else if footer.type = typePtr && hostNameIs parts server.serviceNameParts then true
  else false

/-- The types that `ReadQuestion` answers; another one aborts. -/
def addAnswerFor (type : Nat) (answer : ServiceAnswer) : Except Stop ServiceAnswer :=
  if type = typeA then .ok (answer.addAAnswer server)
  else if type = typeAaaa then .ok (answer.addAaaaAnswer server)
  else if type = typePtr then .ok (answer.addPtrAnswer server)
  else if type = typeSrv then .ok (answer.addSrvAnswer server)
  else if type = typeTxt then .ok (answer.addTxtAnswer server)
  else .error .assertion

def addAdditionalFor (type : Nat) (answer : ServiceAnswer) : ServiceAnswer :=
  if type = typePtr then
    (((answer.addTxtAdditional server).addSrvAdditional server).addAAdditional
      server).addAaaaAdditional server
  else if type = typeSrv then (answer.addAAdditional server).addAaaaAdditional server
  else answer

variable (data : Bytes) (rounds : Nat)

/-- `ReadHostname` has the loop of `MdnsClient::AnswerParser::ReadHostname`. -/
def readQuestion (s : QuestionsRead) : Except Stop QuestionsRead :=
  (readHostname data rounds s.r).bind fun (reconstructedHostname, r) =>
    let (footer, r) := extractFooter data r
    if r.failed || !isFooterValid footer then .ok { s with valid := false, r }
    else if server.isQueryForMe reconstructedHostname footer then
      (server.addAnswerFor footer.type s.answer).map fun answer => { s with answer, r }
    else .ok { s with r }

def readQuestionForAdditionalRecords (s : QuestionsRead) : Except Stop QuestionsRead :=
  (readHostname data rounds s.r).map fun (reconstructedHostname, r) =>
    let (footer, r) := extractFooter data r
    if server.isQueryForMe reconstructedHostname footer then
      { s with answer := server.addAdditionalFor footer.type s.answer, r }
    else { s with r }

/-- The first loop of `CreateAnswer`. -/
def readQuestions : Nat → QuestionsRead → Except Stop QuestionsRead
  | 0, s => .ok s
  | count + 1, s =>
    if s.valid then (server.readQuestion data rounds s).bind (readQuestions count) else .ok s

/-- The second loop of `CreateAnswer`. -/
def readQuestionsForAdditionalRecords : Nat → QuestionsRead → Except Stop QuestionsRead
  | 0, s => .ok s
  | count + 1, s =>
    if s.valid then
      (server.readQuestionForAdditionalRecords data rounds s).bind
        (readQuestionsForAdditionalRecords count)
    else .ok s

end Service

def isValidQuestion (header : DnsRecordHeader) (failed : Bool) : Bool :=
  if failed then false
  else if header.opcode ≠ 0 then false
  else if header.response then false
  else true

/-- The fields of `BonjourServer::QuestionParser` that are kept from one `CreateAnswer` to the
next. -/
structure AnswerParser where
  valid : Bool
  answer : Option ServiceAnswer
  answersCount : Nat
  additionalRecordsCount : Nat
  deriving DecidableEq

namespace AnswerParser

def initial : AnswerParser where
  valid := true
  answer := none
  answersCount := 0
  additionalRecordsCount := 0

def hasAnswer (parser : AnswerParser) : Bool :=
  match parser.answer with
  | some answer => answer.answersCount ≠ 0
  | none => false

def written (parser : AnswerParser) : Bytes := (parser.answer.map ServiceAnswer.stream).getD []

end AnswerParser

namespace Service

variable (server : Service) (data : Bytes) (rounds : Nat)

def createAnswer (parser : AnswerParser) : Except Stop AnswerParser :=
  let (header, r) := extractHeader data { offset := 0, failed := false }
  if isValidQuestion header r.failed then
    let answer := ServiceAnswer.construct header.id parser.answersCount parser.additionalRecordsCount
    (server.readQuestions data rounds header.questionsCount
      { answer, valid := parser.valid, r }).bind fun s =>
        (server.readQuestionsForAdditionalRecords data rounds header.questionsCount
          { s with r := s.r.rewind r.offset }).map fun s =>
            { valid := s.valid
              answer := if s.valid then some s.answer else none
              answersCount := s.answer.answersCount
              additionalRecordsCount := s.answer.additionalRecordsCount }
  else .ok parser

/-- A parser with a `CountingStreamWriter`. -/
def countAnswer : Except Stop AnswerParser := server.createAnswer data rounds .initial

def writeAnswer : Except Stop AnswerParser :=
  (server.countAnswer data rounds).bind (server.createAnswer data rounds)

end Service

def UdpSocket.port : UdpSocket → UInt16
  | .udpv4 _ port => port
  | .udpv6 _ port => port

/-- A `BonjourServer` in `StateIdle`. -/
structure BonjourServer where
  service : Service
  waitingReader : Option Bytes
  deriving DecidableEq

namespace BonjourServer

/-- The multicast address of the family of the sender; there is a datagram exchange for the families
that have an address. -/
def multicastAddress (service : Service) : UdpSocket → Option UdpSocket
  | .udpv4 _ _ => service.ipv4Address.map fun _ => .udpv4 mdnsMulticastAddressIpv4 mdnsPort
  | .udpv6 _ _ => service.ipv6Address.map fun _ => .udpv6 mdnsMulticastAddressIpv6 mdnsPort

/-- `StateIdle::DataReceived`, with the send stream that it requests. -/
def dataReceived (rounds : Nat) (s : BonjourServer) (data : Bytes) (sender : UdpSocket) :
    Except Stop (BonjourServer × Option SendRequest) :=
  if sender.port ≠ mdnsPort then .ok (s, none)
  else if s.waitingReader.isSome then .ok (s, none)
  else
    (s.service.countAnswer data rounds).bind fun question =>
      if question.hasAnswer then
        match multicastAddress s.service sender with
        | some recipient =>
          .ok ({ s with waitingReader := some data },
            some { size := question.written.length, recipient })
        | none => .error .assertion
      else .ok (s, none)

/-- `StateIdle::SendStreamAvailable` with a writer of this size, and what it has written. -/
def sendStreamAvailable (rounds : Nat) (s : BonjourServer) (available : Nat) :
    Except Stop (BonjourServer × Bytes) :=
  match s.waitingReader with
  | none => .error .assertion
  | some data =>
    (s.service.writeAnswer data rounds).bind fun question =>
      -- the error policy of the stream asserts that there is room
      if available < question.written.length then .error .assertion
      else .ok ({ s with waitingReader := none }, question.written)

end BonjourServer

/-- A datagram that was received, and whether a question was waiting. -/
structure Received where
  data : Bytes
  waiting : Bool
  requested : Option SendRequest
  deriving DecidableEq

/-- What was written into a stream of a size. -/
structure Sent where
  size : Nat
  bytes : Bytes
  deriving DecidableEq

/-- The server, the send streams that it is owed, and what has happened. -/
structure Advertising where
  server : BonjourServer
  owed : List SendRequest
  received : List Received
  sent : List Sent
  stopped : Option Stop
  deriving DecidableEq

namespace Advertising

inductive Event
  | dataReceived (data : Bytes) (sender : UdpSocket)
  | sendStreamAvailable
  deriving DecidableEq

def announced (service : Service) : Advertising where
  server := { service, waitingReader := none }
  owed := []
  received := []
  sent := []
  stopped := none

variable (s : Advertising)

def reported (data : Bytes) :
    Except Stop (BonjourServer × Option SendRequest) → Advertising
  | .error stop => { s with stopped := some stop }
  | .ok (server, request) =>
    { s with
      server
      owed := s.owed ++ request.toList
      received := s.received ++
        [{ data, waiting := s.server.waitingReader.isSome, requested := request }] }

def wrote (size : Nat) (owed : List SendRequest) :
    Except Stop (BonjourServer × Bytes) → Advertising
  | .error stop => { s with owed, stopped := some stop }
  | .ok (server, bytes) => { s with server, owed, sent := s.sent ++ [{ size, bytes }] }

/-- A send stream becomes available only when it was requested. -/
def step : Event → Option Advertising
  | .dataReceived data sender =>
    if s.stopped = none then
      some (s.reported data (s.server.dataReceived (data.length + 1) data sender))
    else none
  | .sendStreamAvailable =>
    if s.stopped = none then
      match s.owed with
      | [] => none
      | request :: owed =>
        let rounds := (s.server.waitingReader.getD []).length + 1
        some (s.wrote request.size owed (s.server.sendStreamAvailable rounds request.size))
    else none

end Advertising

end Dns
