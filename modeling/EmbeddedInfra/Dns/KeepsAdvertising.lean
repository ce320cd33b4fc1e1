import EmbeddedInfra.Dns.BonjourAnswers

/-! Over all runs, a stream is requested just for the queries for the service, and is filled with
well-formed answers, until a name arrives that is too long or has a dot in a label. -/

namespace Dns

open List

/-- Nothing has gone wrong, a question waits just while one stream is requested, and the streams
were requested and filled as they should. -/
structure Answering (s : Advertising) : Prop where
  running : s.stopped = none
  waiting : s.server.waitingReader = none ∧ s.owed = [] ∨
    ∃ data request, s.server.waitingReader = some data ∧ s.owed = [request]
  requested : ∀ received ∈ s.received, received.requested.isSome = true ↔
    received.waiting = false ∧ s.server.service.AsksFor received.data
  answered : ∀ sent ∈ s.sent, sent.bytes.length = sent.size ∧ WellFormed sent.bytes

namespace Advertising

/-- A datagram from port 5353 of a family that has an address, none of whose names leads in a
circle. -/
def Allowed (s : Advertising) : Event → Prop
  | .dataReceived data sender =>
    sender.port = mdnsPort ∧ (BonjourServer.multicastAddress s.server.service sender).isSome = true ∧
      ∀ p, 12 ≤ p → ∃ labels stop, ReadAs data p labels stop
  | .sendStreamAvailable => True

/-- While no question waits, the names that are read have at most 253 characters, and labels without
dots; a datagram has less than 2 ^ 16 bytes. -/
def Meets (s : Advertising) : Event → Prop
  | .dataReceived data _ => s.server.waitingReader = none → data.length < 65536 ∧
      (12 ≤ data.length → (headerOf data).opcode = 0 → (headerOf data).response = false →
        ∃ questions valid, Readable data (headerOf data).questionsCount 12 questions valid)
  | .sendStreamAvailable => True

structure Waits (server : Service) (data : Bytes) (size : Nat) : Prop where
  small : data.length < 65536
  header : 12 ≤ data.length
  opcode : (headerOf data).opcode = 0
  query : (headerOf data).response = false
  questions : ∃ questions, Readable data (headerOf data).questionsCount 12 questions true ∧
    size = (server.answerTo data questions 0 0).length

structure Inv (service : Service) (s : Advertising) : Prop where
  running : s.stopped = none
  fixed : s.server.service = service
  waiting : s.server.waitingReader = none ∧ s.owed = [] ∨
    ∃ data request, s.server.waitingReader = some data ∧ s.owed = [request] ∧
      Waits service data request.size
  requested : ∀ received ∈ s.received, received.requested.isSome = true ↔
    received.waiting = false ∧ service.AsksFor received.data
  answered : ∀ sent ∈ s.sent, sent.bytes.length = sent.size ∧ WellFormed sent.bytes

variable {service : Service} {s : Advertising} {data : Bytes}

theorem Inv.answering (inv : Inv service s) :
    Answering s where
  running := inv.running
  waiting := by
    cases inv.waiting with
    | inl idle => exact .inl idle
    | inr busy =>
      obtain ⟨data, request, waits, owed, _⟩ := busy
      exact .inr ⟨data, request, waits, owed⟩
  requested := by
    rw [inv.fixed]
    exact inv.requested
  answered := inv.answered

theorem dataReceived_idle {server : BonjourServer} {sender : UdpSocket}
    (fixed : server.service = service) (idle : server.waitingReader = none)
    (port : sender.port = mdnsPort)
    (family : (BonjourServer.multicastAddress service sender).isSome = true)
    (small : data.length < 65536)
    (readable : 12 ≤ data.length → (headerOf data).opcode = 0 → (headerOf data).response = false →
      ∃ questions valid, Readable data (headerOf data).questionsCount 12 questions valid) :
    (¬ service.AsksFor data ∧ server.dataReceived (enoughRounds data) data sender = .ok (server, none)) ∨
    (service.AsksFor data ∧ ∃ request, Waits service data request.size ∧
      server.dataReceived (enoughRounds data) data sender =
        .ok ({ server with waitingReader := some data }, some request)) := by
  have free : server.waitingReader.isSome = false := by rw [idle]; rfl
  subst fixed
  rw [BonjourServer.dataReceived, if_neg (not_not.mpr port), free, if_neg nofun]
  by_cases query : 12 ≤ data.length ∧ (headerOf data).opcode = 0 ∧ (headerOf data).response = false
  · obtain ⟨complete, opcode, response⟩ := query
    obtain ⟨questions, valid, reads⟩ := readable complete opcode response
    obtain ⟨result, counted, asks, found⟩ := Service.countAnswer_reads server.service
      small complete opcode response reads
    rw [counted]
    simp only [Except.bind]
    by_cases mine : server.service.AsksFor data
    · obtain ⟨recipient, known⟩ := Option.isSome_iff_exists.mp family
      obtain ⟨questions', asked, all, _⟩ := mine.questions
      have whole := (reads.broken_off asked all).1
      right
      rw [if_pos (asks.mpr mine), known]
      refine ⟨mine, ⟨result.written.length, recipient⟩, ⟨small, complete, opcode, response,
        questions, whole ▸ reads, ?_⟩, rfl⟩
      rw [(found whole).2.2.2]
    · left
      rw [if_neg (fun answer => mine (asks.mp answer))]
      exact ⟨mine, rfl⟩
  · left
    constructor
    · intro asks
      exact query ⟨asks.header, asks.opcode, asks.query⟩
    · rw [Service.countAnswer, Service.createAnswer_refuses query]
      rfl

theorem reported_ok (data : Bytes) (server : BonjourServer) (request : Option SendRequest) :
    s.reported data (.ok (server, request)) =
      { s with
        server
        owed := s.owed ++ request.toList
        received := s.received ++
          [{ data, waiting := s.server.waitingReader.isSome, requested := request }] } := rfl

theorem Inv.received {t : Advertising} {sender : UdpSocket} (inv : Inv service s)
    (allowed : s.Allowed (.dataReceived data sender)) (meets : s.Meets (.dataReceived data sender))
    (stepped : s.step (.dataReceived data sender) = some t) : Inv service t := by
  obtain ⟨port, family, _⟩ := allowed
  rw [inv.fixed] at family
  have rounds : data.length + 1 = enoughRounds data := rfl
  simp only [step, inv.running, if_true, Option.some.injEq, rounds] at stepped
  cases inv.waiting with
  | inl idle =>
    obtain ⟨small, readable⟩ := meets idle.1
    have free : s.server.waitingReader.isSome = false := by rw [idle.1]; rfl
    cases dataReceived_idle inv.fixed idle.1 port family small readable with
    | inl other =>
      rw [other.2, reported_ok] at stepped
      rw [← stepped]
      exact {
        running := inv.running
        fixed := inv.fixed
        waiting := .inl ⟨idle.1, by simp [idle.2]⟩
        requested := forall_mem_append.mpr ⟨inv.requested, forall_mem_singleton.mpr
        (iff_of_false nofun fun asks => other.1 asks.2)⟩
        answered := inv.answered }
    | inr mine =>
      obtain ⟨asks, request, waits, done⟩ := mine
      rw [done, reported_ok] at stepped
      rw [← stepped]
      exact {
        running := inv.running
        fixed := inv.fixed
        waiting := .inr ⟨data, request, rfl, by simp [idle.2], waits⟩
        requested := forall_mem_append.mpr ⟨inv.requested, forall_mem_singleton.mpr
        (iff_of_true rfl ⟨free, asks⟩)⟩
        answered := inv.answered }
  | inr busy =>
    obtain ⟨data', request, waiting, owed, waits⟩ := busy
    have taken : s.server.waitingReader.isSome = true := by rw [waiting]; rfl
    rw [BonjourServer.dataReceived, if_neg (not_not.mpr port), taken, if_pos rfl,
      reported_ok] at stepped
    rw [← stepped]
    exact {
      running := inv.running
      fixed := inv.fixed
      waiting := .inr ⟨data', request, waiting, by simp [owed], waits⟩
      requested := forall_mem_append.mpr ⟨inv.requested, forall_mem_singleton.mpr
      (iff_of_false nofun fun asks => absurd (taken.symm.trans asks.1) nofun)⟩
      answered := inv.answered }

theorem Inv.sent (streamable : service.Streamable) {t : Advertising} (inv : Inv service s)
    (stepped : s.step .sendStreamAvailable = some t) : Inv service t := by
  simp only [step, inv.running, if_true] at stepped
  cases inv.waiting with
  | inl idle =>
    rw [idle.2] at stepped
    cases stepped
  | inr busy =>
    obtain ⟨data, request, waiting, owed, waits⟩ := busy
    obtain ⟨questions, reads, size⟩ := waits.questions
    obtain ⟨result, done, written⟩ := Service.writeAnswer_reads service waits.small
      waits.header waits.opcode waits.query reads
    have length : result.written.length = request.size := by
      rw [written, size]
      exact Service.length_answerTo questions _ _ _ _
    have wrote_ : s.server.sendStreamAvailable (enoughRounds data) request.size =
        .ok ({ s.server with waitingReader := none }, result.written) := by
      rw [BonjourServer.sendStreamAvailable, waiting]
      simp only [inv.fixed, done, Except.bind]
      exact if_neg (by rw [length]; exact Nat.lt_irrefl _)
    rw [owed, waiting] at stepped
    simp only [Option.getD_some, Option.some.injEq] at stepped
    rw [show data.length + 1 = enoughRounds data from rfl, wrote_] at stepped
    rw [← stepped]
    exact {
      running := inv.running
      fixed := inv.fixed
      waiting := .inl ⟨rfl, rfl⟩
      requested := inv.requested
      answered := by
        intro sent member
        cases mem_append.mp member with
        | inl old => exact inv.answered sent old
        | inr new =>
          cases mem_singleton.mp new
          refine ⟨length, ?_⟩
          rw [written]
          exact Service.answerTo_wellFormed streamable waits.small waits.header
            (reads.questions rfl).1 }

/-- The service is answered for in every run. -/
theorem keeps_advertising {service : Service} (streamable : service.Streamable) {s : Advertising}
    (reached : Runs.Reachable Advertising.step (fun s event => s.Allowed event ∧ s.Meets event)
      (announced service) s) : Answering s := by
  have inv : Inv service s := by
    refine reached.invariant ⟨rfl, rfl, .inl ⟨rfl, rfl⟩, nofun, nofun⟩ ?_
    intro s event t kept meets stepped
    cases event with
    | dataReceived data sender => exact kept.received meets.1 meets.2 stepped
    | sendStreamAvailable => exact kept.sent streamable stepped
  exact inv.answering

/-- The service _x._tcp of the instance a, with a text. -/
def printer : Service where
  instance_ := [0x61]
  serviceName := [0x5f, 0x78]
  type := [0x5f, 0x74, 0x63, 0x70]
  ipv4Address := some #v[192, 168, 0, 5]
  ipv6Address := none
  port := 80
  text := .inParts [[0x6b, 0x3d, 0x76]]

def peer : UdpSocket := .udpv4 #v[192, 168, 0, 6] mdnsPort

def queryFor (name : Bytes) (type : UInt8) : Bytes :=
  [0, 0, 0, 0, 0, 1, 0, 0, 0, 0, 0, 0] ++ name ++ [0, type, 0, 1]

theorem readAs_plain (plain : ∀ p, isReference (byteAt data p) = false) (p : Nat) :
    ∃ labels stop, ReadAs data p labels stop := by
  by_cases outside : data.length ≤ p
  · exact ⟨_, _, .outside outside⟩
  · by_cases ends : byteAt data p = 0 ∨ maxLabel < (byteAt data p).toNat
    · exact ⟨_, _, .last (Nat.not_le.mp outside) (plain p) ends⟩
    · rw [not_or, Nat.not_lt] at ends
      have onward : p < behind data p := by
        have positive := Nat.pos_of_ne_zero (positive_size ends.1)
        rw [behind]
        omega
      obtain ⟨labels, stop, rest⟩ := readAs_plain plain (behind data p)
      exact ⟨_, _, .label ends.1 ends.2 rest⟩
  termination_by data.length - p

theorem plain_of_all (data : Bytes) (all : data.all (fun byte => !isReference byte) = true)
    (p : Nat) : isReference (byteAt data p) = false := by
  by_cases inside : p < data.length
  · have plain := all_eq_true.mp all _ (getElem_mem inside)
    simpa [byteAt, inside] using plain
  · rw [byteAt_outside (Nat.not_lt.mp inside)]
    rfl

def instances : Bytes :=
  queryFor [2, 0x5f, 0x78, 4, 0x5f, 0x74, 0x63, 0x70, 5, 0x6c, 0x6f, 0x63, 0x61, 0x6c, 0] 12

theorem keeps_advertising_printer :
    ∃ s, Runs.Reachable Advertising.step (fun s event => s.Allowed event ∧ s.Meets event)
        (announced printer) s ∧ s.sent.map Sent.size = [184] ∧ Answering s := by
  have streamable : printer.Streamable := ⟨by decide, by decide, by decide⟩
  have name : Encodes instances 12 [[0x5f, 0x78], [0x5f, 0x74, 0x63, 0x70], localLabel] 27 :=
    .label (rfl : instances[12]? = some 2) (by decide) (by decide) (by decide)
      (.label (rfl : instances[15]? = some 4) (by decide) (by decide) (by decide)
        (.label (rfl : instances[20]? = some 5) (by decide) (by decide) (by decide) (.root rfl)))
  have plain := plain_of_all instances (by decide)
  have allowed : Allowed (announced printer) (.dataReceived instances peer) :=
    ⟨rfl, rfl, fun p _ => readAs_plain plain p⟩
  have meets : Meets (announced printer) (.dataReceived instances peer) := fun _ =>
    ⟨by decide, fun _ _ _ => ⟨_, _, .next name.readAs (by decide) (by decide) (by decide)
      ⟨rfl, by decide⟩ .done⟩⟩
  have reached : Runs.Reachable Advertising.step
      (fun s event => s.Allowed event ∧ s.Meets event) (announced printer) _ :=
    .tail .sendStreamAvailable (.tail (.dataReceived instances peer) .refl ⟨allowed, meets⟩ rfl)
      ⟨trivial, trivial⟩ rfl
  exact ⟨_, reached, by decide +kernel, keeps_advertising streamable reached⟩

/-- The query for the address of a name with four labels of 63 characters. -/
def longName : Bytes :=
  queryFor ((List.replicate 4 (63 :: List.replicate 63 0x61)).flatten ++ [0]) 1

/-- A name of more than 253 characters is not put together. -/
theorem longName_aborts :
    ∃ s, Runs.Reachable Advertising.step Allowed (announced printer) s ∧ ¬ Answering s := by
  have plain := plain_of_all longName (by decide +kernel)
  have reached : Runs.Reachable Advertising.step Allowed (announced printer) _ :=
    .tail (.dataReceived longName peer) .refl ⟨rfl, rfl, fun p _ => readAs_plain plain p⟩ rfl
  exact ⟨_, reached, fun answering => absurd answering.running (by decide +kernel)⟩

end Advertising

end Dns
