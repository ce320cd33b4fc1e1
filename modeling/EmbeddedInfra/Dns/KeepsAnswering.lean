import EmbeddedInfra.Dns.DnsServer
import EmbeddedInfra.Dns.NamesRead
import EmbeddedInfra.Runs

/-! The server answers every question for a name that is an entry, until a question for another
name arrives. -/

namespace Dns

open List QuestionParser

def headerOf (data : Bytes) : DnsRecordHeader := .ofBytes (data.take 12)

def footerAt (data : Bytes) (p : Nat) : DnsQuestionFooter := .ofBytes ((data.drop p).take 4)

def payloadAt (data : Bytes) (p : Nat) : DnsRecordPayload := .ofBytes ((data.drop p).take 10)

/-- A query with a single question, for an address, whose name ends at a position. -/
structure SingleQuestion (data : Bytes) (stop : Nat) : Prop where
  header : 12 ≤ data.length
  query : (headerOf data).response = false
  opcode : (headerOf data).opcode = 0
  questions : (headerOf data).questionsCount = 1
  answers : (headerOf data).answersCount = 0
  nameServers : (headerOf data).nameServersCount = 0
  additionalRecords : (headerOf data).additionalRecordsCount = 0
  footer : stop + 4 ≤ data.length
  address : footerAt data stop = { type := typeA, class_ := classIn }

/-- The entry has the name without a leading www., but for the case of letters. -/
def DnsEntry.Names (entry : DnsEntry) (labels : List Bytes) : Prop :=
  entry.name.map toLower = (stripLeadingWww (nameOf labels)).map toLower

def IsEntry (entries : List DnsEntry) (labels : List Bytes) (entry : DnsEntry) : Prop :=
  ∃ before later, entries = before ++ entry :: later ∧ entry.Names labels ∧
    ∀ other ∈ before, ¬ other.Names labels

/-- An answer that repeats the question, and refers to its name. -/
structure Carries (bytes : Bytes) (id : Nat) (labels : List Bytes) (address : IPv4Address)
    (stop : Nat) : Prop where
  header : headerOf bytes =
    { id, flags := 0x8000, questionsCount := 1, answersCount := 1, nameServersCount := 0,
      additionalRecordsCount := 0 }
  name : Encodes bytes 12 labels stop
  footer : footerAt bytes stop = { type := typeA, class_ := classIn }
  recordName : Encodes bytes (stop + 4) labels (stop + 6)
  payload : payloadAt bytes (stop + 6) =
    { type := typeA, class_ := classIn, ttl := 60, resourceDataLength := addressSize }
  address : bytes.drop (stop + 16) = address.toList

theorem field_toBigEndian (value : Nat) (rest : Bytes) (small : value < 65536) :
    field (toBigEndian value ++ rest) 0 = value := by
  simp only [field, toBigEndian, fromBigEndian, drop_zero, cons_append, nil_append,
    take_succ_cons, take_zero, foldl_cons, foldl_nil, UInt8.toNat_ofNat']
  omega

theorem field_skip (value position : Nat) (rest : Bytes) :
    field (toBigEndian value ++ rest) (position + 2) = field rest position := by
  simp [field, toBigEndian]

theorem field_lt (bytes : Bytes) (position : Nat) : field bytes position < 65536 := by
  rw [field]
  match (bytes.drop position).take 2, length_take_le 2 (bytes.drop position) with
  | [], _ => exact Nat.zero_lt_succ _
  | [high], _ =>
    have := high.toNat_lt
    simp [fromBigEndian]
    omega
  | [high, low], _ =>
    have := high.toNat_lt
    have := low.toNat_lt
    simp [fromBigEndian]
    omega
  | _ :: _ :: _ :: _, short => exact absurd short (by simp)

theorem streamed_encodes (labels : List Bytes) (before later : Bytes)
    (sizes : ∀ label ∈ labels, label ≠ [] ∧ label.length ≤ maxLabel) :
    Encodes (before ++ (streamWithoutTermination labels ++ 0 :: later)) before.length labels
      (before.length + (streamWithoutTermination labels).length + 1) := by
  induction labels generalizing before with
  | nil => exact .root (by simp [streamWithoutTermination])
  | cons label labels ih =>
    obtain ⟨present, short⟩ := sizes label (mem_cons_self ..)
    have positive := length_pos_iff.mpr present
    have size : (UInt8.ofNat label.length).toNat = label.length := by
      rw [UInt8.toNat_ofNat']
      have : label.length ≤ 63 := short
      omega
    have streamed : streamWithoutTermination (label :: labels) =
        UInt8.ofNat label.length :: (label ++ streamWithoutTermination labels) := by
      simp [streamWithoutTermination]
    have bytes : before ++ (streamWithoutTermination (label :: labels) ++ 0 :: later) =
        before ++ UInt8.ofNat label.length :: label ++
          (streamWithoutTermination labels ++ 0 :: later) := by
      rw [streamed]
      simp
    have rest := ih (before ++ UInt8.ofNat label.length :: label)
      (fun other member => sizes other (mem_cons_of_mem _ member))
    have here : (before ++ (streamWithoutTermination (label :: labels) ++ 0 :: later))[before.length]? =
        some (UInt8.ofNat label.length) := by
      rw [streamed]
      simp
    have next : before.length + 1 + (UInt8.ofNat label.length).toNat =
        (before ++ UInt8.ofNat label.length :: label).length := by
      rw [size, length_append, length_cons]
      omega
    have stop : before.length + (streamWithoutTermination (label :: labels)).length + 1 =
        (before ++ UInt8.ofNat label.length :: label).length +
          (streamWithoutTermination labels).length + 1 := by
      rw [streamed, length_append, length_cons, length_cons, length_append]
      omega
    have same : ((before ++ (streamWithoutTermination (label :: labels) ++ 0 :: later)).drop
        (before.length + 1)).take (UInt8.ofNat label.length).toNat = label := by
      rw [size, streamed]
      simp [drop_append, drop_eq_nil_of_le]
    have encodes := Encodes.label here (by omega) (by rw [size]; exact short)
      (by rw [size, streamed]; simp; omega) (next ▸ bytes ▸ rest)
    rwa [same, next, ← stop] at encodes

theorem header_toBytes (header : DnsRecordHeader) (rest : Bytes) (id : header.id < 65536)
    (flags : header.flags < 65536) (questions : header.questionsCount < 65536)
    (answers : header.answersCount < 65536) (nameServers : header.nameServersCount < 65536)
    (additional : header.additionalRecordsCount < 65536) :
    headerOf (header.toBytes ++ rest) = header := by
  have twelve : (header.toBytes ++ rest).take 12 = header.toBytes := by
    simp [DnsRecordHeader.toBytes, toBigEndian]
  have last := field_toBigEndian header.additionalRecordsCount [] additional
  rw [headerOf, twelve, DnsRecordHeader.ofBytes, DnsRecordHeader.toBytes]
  simp only [append_assoc, append_nil] at last ⊢
  rw [field_toBigEndian _ _ id, field_skip, field_toBigEndian _ _ flags, field_skip, field_skip,
    field_toBigEndian _ _ questions, field_skip, field_skip, field_skip,
    field_toBigEndian _ _ answers, field_skip, field_skip, field_skip, field_skip,
    field_toBigEndian _ _ nameServers, field_skip, field_skip, field_skip, field_skip, field_skip,
    last]

theorem length_headerBytes (header : DnsRecordHeader) : header.toBytes.length = 12 := rfl

theorem response_carries {question : QuestionParser} {labels : List Bytes} (address : IPv4Address)
    (id : question.header.id < 65536)
    (sizes : ∀ label ∈ labels, label ≠ [] ∧ label.length ≤ maxLabel)
    (whole : tokens question.reconstructedHostname = labels) :
    Carries (DnsServer.response question address) question.header.id labels address
      (12 + (streamWithoutTermination labels).length + 1) := by
  let header : DnsRecordHeader :=
    { id := question.header.id, flags := 0x8000, questionsCount := 1, answersCount := 1,
      nameServersCount := 0, additionalRecordsCount := 0 }
  let record : Bytes := [0, 1, 0, 1, 0xc0, 12, 0, 1, 0, 1, 0, 0, 0, 60, 0, 4]
  have bytes : DnsServer.response question address = header.toBytes ++
      (streamWithoutTermination labels ++ 0 :: (record ++ address.toList)) := by
    rw [DnsServer.response, streamHostname, whole]
    simp [header, record, DnsQuestionFooter.toBytes, DnsRecordPayload.toBytes, rnameCompression,
      toBigEndian, typeA, classIn, addressSize]
  have behind : ∀ count, (DnsServer.response question address).drop
      (12 + (streamWithoutTermination labels).length + 1 + count) =
        (record ++ address.toList).drop count := by
    intro count
    have front : header.toBytes ++ (streamWithoutTermination labels ++ 0 :: (record ++ address.toList)) =
        (header.toBytes ++ streamWithoutTermination labels ++ [0]) ++ (record ++ address.toList) := by
      simp
    rw [bytes, front, ← drop_drop]
    congr 1
    apply drop_left'
    simp [length_headerBytes]
    omega
  have name : Encodes (DnsServer.response question address) 12 labels
      (12 + (streamWithoutTermination labels).length + 1) := by
    rw [bytes]
    exact streamed_encodes labels header.toBytes _ sizes
  have at_ : ∀ count, (DnsServer.response question address)[12 +
      (streamWithoutTermination labels).length + 1 + count]? = (record ++ address.toList)[count]? := by
    intro count
    have same := congrArg List.head? (behind count)
    rwa [head?_drop, head?_drop] at same
  constructor
  · rw [bytes]
    exact header_toBytes header _ id (show 0x8000 < 65536 by decide) (show 1 < 65536 by decide)
      (show 1 < 65536 by decide) (show 0 < 65536 by decide) (show 0 < 65536 by decide)
  · exact name
  · have same := behind 0
    rw [Nat.add_zero, drop_zero] at same
    rw [footerAt, same]
    rfl
  · have high := at_ 4
    have low := at_ 5
    have offset : referenceOffset 0xc0 12 = 12 := by decide
    exact .reference high rfl low (by rw [offset]; omega) (by rw [offset]; exact name)
  · have same : ((record ++ address.toList).drop 6).take 10 = [0, 1, 0, 1, 0, 0, 0, 60, 0, 4] := rfl
    rw [payloadAt, behind 6, same]
    decide
  · rw [behind 16]
    rfl

theorem length_splitOn (hostname : Bytes) :
    ((hostname.splitOn separator).map fun piece => piece.length + 1).sum = hostname.length + 1 := by
  induction hostname with
  | nil => rfl
  | cons c hostname ih =>
    rw [List.splitOn, splitOnP_cons_eq_if_modifyHead]
    rw [List.splitOn] at ih
    split
    · rw [map_cons, sum_cons, ih, length_cons, length_nil]
      omega
    · cases pieces : List.splitOnP (fun x => x == separator) hostname with
      | nil => exact absurd pieces (splitOnP_ne_nil _ _)
      | cons piece pieces' =>
        rw [pieces, map_cons, sum_cons] at ih
        rw [modifyHead_cons, map_cons, sum_cons, length_cons,
          length_cons]
        omega

theorem length_streamed (labels : List Bytes) :
    (streamWithoutTermination labels).length =
      (labels.map fun label => label.length + 1).sum := by
  simp [streamWithoutTermination, length_flatMap]

theorem length_tokens_le (pieces : List Bytes) :
    ((pieces.filter (· ≠ [])).map fun piece => piece.length + 1).sum ≤
      (pieces.map fun piece => piece.length + 1).sum := by
  induction pieces with
  | nil => rfl
  | cons piece pieces ih =>
    rw [filter_cons]
    split
    · simp only [map_cons, sum_cons]
      omega
    · simp only [map_cons, sum_cons]
      omega

theorem response_fits (question : QuestionParser) (address : IPv4Address) :
    (DnsServer.response question address).length ≤ DnsServer.answerSize question := by
  have name : (streamWithoutTermination (tokens question.reconstructedHostname)).length + 1 ≤
      question.queryNameSize := by
    rw [length_streamed, queryNameSize]
    split
    next absent =>
      rw [List.isEmpty_iff.mp absent]
      exact Nat.le_refl 1
    next =>
      have fewer : ((tokens question.reconstructedHostname).map fun token => token.length + 1).sum ≤
          question.reconstructedHostname.length + 1 :=
        (length_tokens_le _).trans (length_splitOn _).le
      omega
  have length : (DnsServer.response question address).length =
      12 + (streamWithoutTermination (tokens question.reconstructedHostname)).length + 1 + 4 + 2 +
        10 + 4 := by
    simp only [DnsServer.response, streamHostname, DnsRecordHeader.toBytes,
      DnsQuestionFooter.toBytes, DnsRecordPayload.toBytes, rnameCompression, toBigEndian,
      length_append, length_cons, length_nil, Vector.length_toList]
    omega
  rw [length, DnsServer.answerSize]
  have : addressSize = 4 := rfl
  omega

theorem findAnswer_iff (entries : List DnsEntry) (labels : List Bytes) (entry : DnsEntry) :
    findAnswer entries (nameOf labels) = some entry ↔ IsEntry entries labels entry := by
  rw [findAnswer, find?_eq_some_iff_append]
  simp only [caseInsensitiveCompare, decide_eq_true_eq, Bool.not_eq_true', decide_eq_false_iff_not]
  constructor
  · rintro ⟨named, before, later, split, others⟩
    exact ⟨before, later, split, named, others⟩
  · rintro ⟨before, later, split, named, others⟩
    exact ⟨named, before, later, split, others⟩

variable {data : Bytes} {stop : Nat}

theorem extractFooter_within (failed : Bool) (room : stop + 4 ≤ data.length) :
    extractFooter data ⟨stop, failed⟩ = (footerAt data stop, ⟨stop + 4, failed⟩) := by
  have four : ((data.drop stop).take 4).length = 4 := by
    rw [length_take, length_drop]
    omega
  simp only [extractFooter, Reader.extract, four, Nat.sub_self, replicate_zero,
    append_nil, Nat.lt_irrefl, decide_false, Bool.or_false]
  rfl

theorem extractFooter_short (failed : Bool) (short : data.length < stop + 4) :
    (extractFooter data ⟨stop, failed⟩).2.failed = true := by
  have few : ((data.drop stop).take 4).length < 4 := by
    rw [length_take, length_drop]
    omega
  simp [extractFooter, Reader.extract]
  omega

theorem extractHeader_reads (data : Bytes) :
    ∃ header : DnsRecordHeader, extractHeader data { offset := 0, failed := false } =
        (header, { offset := min 12 data.length, failed := decide (data.length < 12) }) ∧
      header.id < 65536 ∧ (12 ≤ data.length → header = headerOf data) := by
  have length : (data.take 12).length = min 12 data.length := length_take
  have failed : decide (min 12 data.length < 12) = decide (data.length < 12) := by
    apply decide_eq_decide.mpr
    omega
  refine ⟨.ofBytes (data.take 12 ++ List.replicate (12 - min 12 data.length) 0), ?_,
    field_lt _ 0, ?_⟩
  · simp only [extractHeader, Reader.extract, drop_zero, length, Nat.zero_add, Bool.false_or,
      failed]
  · intro complete
    have none : 12 - min 12 data.length = 0 := by omega
    rw [none, replicate_zero, append_nil]
    rfl

theorem construct_reads {labels : List Bytes} (reads : ReadAs data (min 12 data.length) labels stop)
    (fits : (nameOf labels).length ≤ maxHostname) :
    ∃ question : QuestionParser, construct data (data.length + 1) = .ok question ∧
      question.reconstructedHostname = nameOf labels ∧ question.header.id < 65536 ∧
      (SingleQuestion data stop → question.header = headerOf data) ∧
      ((question.isValid && question.requestIncludesOneQuestion) = true ↔
        SingleQuestion data stop) := by
  obtain ⟨header, first, id, same⟩ := extractHeader_reads data
  let r : Reader := { offset := min 12 data.length, failed := decide (data.length < 12) }
  have name := readHostname_reads (r := r) reads fits
  refine ⟨⟨header, nameOf labels, (extractFooter data (r.rewind stop)).1,
    (extractFooter data (r.rewind stop)).2.failed⟩, ?_, rfl, id, ?_, ?_⟩
  · simp only [construct, first, reconstructHostname]
    rw [show data.length + 1 = enoughRounds data from rfl, name]
    rfl
  · intro asked
    exact same asked.header
  · by_cases complete : 12 ≤ data.length ∧ stop + 4 ≤ data.length
    · have whole : r.failed = false := by
        simp only [r, decide_eq_false_iff_not]
        omega
      have footer : extractFooter data (r.rewind stop) =
          (footerAt data stop, ⟨stop + 4, r.failed⟩) := extractFooter_within _ complete.2
      rw [footer, same complete.1, whole]
      constructor
      · intro valid
        simp [isValid, requestIncludesOneQuestion] at valid
        obtain ⟨⟨opcode, query, type, class_⟩, ⟨⟨questions, answers⟩, nameServers⟩, additional⟩ := valid
        exact {
          header := complete.1
          query := query
          opcode := opcode
          questions := questions
          answers := answers
          nameServers := nameServers
          additionalRecords := additional
          footer := complete.2
          address := by
            cases found : footerAt data stop with
            | mk type' class' =>
              rw [found] at type class_
              simp only at type class_
              rw [type, class_] }
      · intro asked
        simp [isValid, requestIncludesOneQuestion, asked.query,
          asked.opcode, asked.questions, asked.answers, asked.nameServers,
          asked.additionalRecords, asked.address]
    · apply iff_of_false
      · have failed : (extractFooter data (r.rewind stop)).2.failed = true := by
          by_cases partly : stop + 4 ≤ data.length
          · rw [Reader.rewind, extractFooter_within _ partly]
            have short : ¬ 12 ≤ data.length := fun whole => complete ⟨whole, partly⟩
            simp only [r, decide_eq_true_eq]
            omega
          · exact extractFooter_short _ (Nat.not_le.mp partly)
        simp [isValid, failed]
      · intro asked
        exact complete ⟨asked.header, asked.footer⟩

/-- A question for the address of an entry got one answer, in the stream that was requested. -/
def Answered (entries : List DnsEntry) (exchange : Exchange) : Prop :=
  ∀ labels stop entry, Encodes exchange.data 12 labels stop → SingleQuestion exchange.data stop →
    IsEntry entries labels entry →
    ∃ request bytes address stop', exchange.requested = [request] ∧
      request.recipient = exchange.sender ∧ exchange.sent = [bytes] ∧
      bytes.length ≤ request.size ∧ entry.address = .ipv4 address ∧
      Carries bytes (headerOf exchange.data).id labels address stop'

/-- Nothing has gone wrong, and either no question is pending, or one send stream is requested for
the pending one. -/
inductive KeepsAnswering (entries : List DnsEntry) (s : Serving) : Prop
  | idle (running : s.stopped = none) (nothing : s.server.question = none) (owed : s.owed = [])
      (answered : ∀ exchange ∈ s.exchanges, Answered entries exchange) : KeepsAnswering entries s
  | pending {question : QuestionParser} {request : SendRequest} {earlier : List Exchange}
      {last : Exchange} (running : s.stopped = none) (asked : s.server.question = some question)
      (owed : s.owed = [request]) (size : request.size = DnsServer.answerSize question)
      (recipient : request.recipient = last.sender) (history : s.exchanges = earlier ++ [last])
      (answered : ∀ exchange ∈ earlier, Answered entries exchange)
      (requested : last.requested = [request]) (unsent : last.sent = []) :
      KeepsAnswering entries s

namespace Serving

/-- No name leads in a circle. -/
def Allowed (_ : Serving) : Event → Prop
  | .dataReceived data _ => ∃ labels stop, ReadAs data (min 12 data.length) labels stop
  | .sendStreamAvailable => True

/-- While no question is pending, no name of more than 253 characters arrives, and every single
question for an address is for an entry, one with an IPv4 address, by labels without dots. -/
def Meets (s : Serving) : Event → Prop
  | .dataReceived data _ => s.server.question = none →
      ∃ labels stop, ReadAs data (min 12 data.length) labels stop ∧
        (nameOf labels).length ≤ maxHostname ∧
        (SingleQuestion data stop →
          (∃ entry address, IsEntry s.server.dnsEntries labels entry ∧
            entry.address = .ipv4 address) ∧
          (Encodes data 12 labels stop → ∀ label ∈ labels, separator ∉ label))
  | .sendStreamAvailable => True

inductive Inv (entries : List DnsEntry) (s : Serving) : Prop
  | idle (running : s.stopped = none) (fixed : s.server.dnsEntries = entries)
      (nothing : s.server.question = none) (owed : s.owed = [])
      (answered : ∀ exchange ∈ s.exchanges, Answered entries exchange) : Inv entries s
  | pending {question : QuestionParser} {name : Bytes} {address : IPv4Address}
      {earlier : List Exchange} {last : Exchange} (running : s.stopped = none)
      (fixed : s.server.dnsEntries = entries) (asked : s.server.question = some question)
      (found : s.server.answer = some { name, address := .ipv4 address })
      (owed : s.owed = [⟨DnsServer.answerSize question, last.sender⟩])
      (history : s.exchanges = earlier ++ [last])
      (answered : ∀ exchange ∈ earlier, Answered entries exchange)
      (requested : last.requested = [⟨DnsServer.answerSize question, last.sender⟩])
      (unsent : last.sent = [])
      (carries : ∀ labels stop entry, Encodes last.data 12 labels stop →
        SingleQuestion last.data stop → IsEntry entries labels entry →
        entry.address = .ipv4 address ∧ ∃ stop',
          Carries (DnsServer.response question address) (headerOf last.data).id labels address
            stop') : Inv entries s

variable {entries : List DnsEntry} {s t : Serving}

theorem Inv.keepsAnswering (inv : Inv entries s) : KeepsAnswering entries s := by
  cases inv with
  | idle running _ nothing owed answered => exact .idle running nothing owed answered
  | pending running _ asked _ owed history answered requested unsent _ =>
    exact .pending running asked owed rfl rfl history answered requested unsent

theorem recordSent_last (sent : Bytes) (earlier : List Exchange) (last : Exchange) :
    recordSent sent (earlier ++ [last]) = earlier ++ [{ last with sent := last.sent ++ [sent] }] := by
  induction earlier with
  | nil => rfl
  | cons first rest ih =>
    cases rest with
    | nil => rfl
    | cons second rest => exact congrArg (first :: ·) ih

theorem received_free (data : Bytes) (sender : UdpSocket) (server : DnsServer)
    (request : Option SendRequest) (free : s.server.question.isSome = false) :
    s.received data sender (.ok (server, request)) =
      { s with
        server
        owed := s.owed ++ request.toList
        exchanges := s.exchanges ++ [{ data, sender, requested := request.toList, sent := [] }] } := by
  rw [received.eq_2, free]
  rfl

theorem received_busy (data : Bytes) (sender : UdpSocket) (busy : s.server.question.isSome = true) :
    s.received data sender (.ok (s.server, none)) = s := by
  rw [received.eq_2, busy]
  simp

theorem isSome_of_asked {server : DnsServer} {question : QuestionParser}
    (asked : server.question = some question) : server.question.isSome = true := by
  rw [asked]
  rfl

theorem Inv.received {data : Bytes} {sender : UdpSocket} (inv : Inv entries s)
    (meets : s.Meets (.dataReceived data sender))
    (stepped : s.step (.dataReceived data sender) = some t) : Inv entries t := by
  cases inv with
  | idle running fixed nothing owed answered =>
    obtain ⟨labels, stop, reads, fits, single⟩ := meets nothing
    obtain ⟨question, constructed, name, id, header, valid⟩ := construct_reads reads fits
    have free : s.server.question.isSome = false := by
      rw [nothing]
      rfl
    simp only [step, running, if_true, DnsServer.dataReceived, free, Bool.false_eq_true,
      if_false, constructed, Except.map, Option.some.injEq] at stepped
    by_cases asked : SingleQuestion data stop
    · obtain ⟨⟨entry, address, isEntry, ipv4⟩, whole⟩ := single asked
      have found : findAnswer s.server.dnsEntries question.reconstructedHostname = some entry := by
        rw [name, findAnswer_iff]
        exact isEntry
      rw [valid.mpr asked] at stepped
      simp only [if_true, found, Option.map_some] at stepped
      rw [← stepped, received_free _ _ _ _ free]
      have known : entry = { name := entry.name, address := .ipv4 address } := by
        rw [← ipv4]
      refine .pending running
        fixed rfl (congrArg some known) ?_ rfl answered rfl rfl ?_
      · rw [owed]
        rfl
      · intro labels' stop' entry' encodes asked' isEntry'
        obtain ⟨rfl, rfl⟩ := reads.unique (by
          rw [Nat.min_eq_left asked.header]
          exact encodes.readAs)
        have same : entry' = entry := by
          have found' := (findAnswer_iff entries _ entry').mpr isEntry'
          rw [name, fixed] at found
          exact Option.some.inj (found'.symm.trans found)
        have labelled : tokens question.reconstructedHostname = labels := by
          rw [name]
          exact tokens_text (fun label member => (encodes.sizes label member).1) (whole encodes)
        have carried := response_carries address id encodes.sizes labelled
        rw [header asked] at carried
        exact ⟨same ▸ ipv4, _, carried⟩
    · have refused : (question.isValid && question.requestIncludesOneQuestion) = false :=
        Bool.eq_false_iff.mpr fun accepted => asked (valid.mp accepted)
      rw [refused] at stepped
      simp only [Bool.false_eq_true, if_false] at stepped
      rw [← stepped, received_free _ _ _ _ free]
      refine .idle running fixed rfl ?_ ?_
      · rw [owed]
        rfl
      · intro exchange member
        cases mem_append.mp member with
        | inl old => exact answered exchange old
        | inr new =>
          cases mem_singleton.mp new
          intro labels' stop' entry' encodes asked' _
          obtain ⟨_, rfl⟩ := reads.unique (by
            rw [Nat.min_eq_left asked'.header]
            exact encodes.readAs)
          exact absurd asked' asked
  | pending running fixed asked found owed history answered requested unsent carries =>
    have busy := isSome_of_asked asked
    simp only [step, running, if_true, DnsServer.dataReceived, busy, Option.some.injEq] at stepped
    rw [← stepped, received_busy _ _ busy]
    exact .pending running fixed asked found owed history answered requested unsent carries

theorem Inv.sent (inv : Inv entries s) (stepped : s.step .sendStreamAvailable = some t) :
    Inv entries t := by
  cases inv with
  | idle running fixed nothing owed answered =>
    simp only [step, running, if_true, owed] at stepped
    cases stepped
  | @pending question name address earlier last running fixed asked found owed history answered
      requested unsent carries =>
      have room := response_fits question address
      have done : s.server.sendStreamAvailable (DnsServer.answerSize question) =
          .ok ({ s.server with question := none, answer := none },
            DnsServer.response question address) := by
        rw [DnsServer.sendStreamAvailable, asked, found]
        exact if_neg (Nat.not_lt.mpr room)
      simp only [step, running, if_true, owed, done, Option.some.injEq] at stepped
      rw [← stepped]
      refine .idle running fixed rfl rfl ?_
      intro exchange member
      rw [Serving.sent, history, recordSent_last] at member
      cases mem_append.mp member with
      | inl old => exact answered exchange old
      | inr new =>
        cases mem_singleton.mp new
        intro labels stop entry encodes asked' isEntry
        obtain ⟨ipv4, stop', carried⟩ := carries labels stop entry encodes asked' isEntry
        exact ⟨_, _, address, stop', requested, rfl, by rw [unsent]; rfl, room, ipv4, carried⟩

theorem Inv.step {event : Event} (inv : Inv entries s) (meets : s.Meets event)
    (stepped : s.step event = some t) : Inv entries t := by
  cases event with
  | dataReceived data sender => exact inv.received meets stepped
  | sendStreamAvailable => exact inv.sent stepped

/-- Every question for the address of an entry that arrives while none is pending is answered. -/
theorem keeps_answering (entries : List DnsEntry) {s : Serving}
    (reached : Runs.Reachable Serving.step Meets (construct entries) s) :
    KeepsAnswering entries s := by
  have inv : Inv entries s := reached.invariant (.idle rfl rfl rfl rfl nofun)
    fun _ _ _ kept meets stepped => kept.step meets stepped
  exact inv.keepsAnswering

def entryA : DnsEntry := { name := [0x61], address := .ipv4 #v[192, 168, 0, 3] }

def client : UdpSocket := .udpv4 #v[192, 168, 0, 4] 5000

def questionFor (id : UInt8) (name : Bytes) : Bytes :=
  [0, id, 1, 0, 0, 1, 0, 0, 0, 0, 0, 0] ++ name ++ [0, 1, 0, 1]

def knownName : Bytes := questionFor 7 [3, 0x77, 0x77, 0x77, 1, 0x41, 0]

theorem knownName_encodes : Encodes knownName 12 [[0x77, 0x77, 0x77], [0x41]] 19 :=
  .label (rfl : knownName[12]? = some 3) (by decide) (by decide) (by decide)
    (.label (rfl : knownName[16]? = some 1) (by decide) (by decide) (by decide) (.root rfl))

theorem keeps_answering_known :
    ∃ s, Runs.Reachable Serving.step Meets (construct [entryA]) s ∧
      s.exchanges.map (fun exchange => exchange.sent.map List.length) = [[39]] ∧
      KeepsAnswering [entryA] s := by
  have asked : Meets (construct [entryA]) (.dataReceived knownName client) := fun _ =>
    ⟨_, _, knownName_encodes.readAs, by decide, fun _ =>
      ⟨⟨entryA, _, ⟨[], [], rfl, by unfold DnsEntry.Names; decide, nofun⟩, rfl⟩, fun _ => by decide⟩⟩
  have reached : Runs.Reachable Serving.step Meets (construct [entryA]) _ :=
    .tail .sendStreamAvailable (.tail (.dataReceived knownName client) .refl asked rfl) trivial rfl
  exact ⟨_, reached, by decide, keeps_answering [entryA] reached⟩

def unknownName : Bytes := questionFor 7 [1, 0x62, 0]

def laterName : Bytes := questionFor 8 [1, 0x61, 0]

/-- After a question for another name, the question for an entry is not taken. -/
theorem unknown_silences :
    ∃ s, Runs.Reachable Serving.step Allowed (construct [entryA]) s ∧
      s.exchanges.map Exchange.data = [unknownName] ∧ ¬ KeepsAnswering [entryA] s := by
  have unknown : Encodes unknownName 12 [[0x62]] 15 :=
    .label (rfl : unknownName[12]? = some 1) (by decide) (by decide) (by decide) (.root rfl)
  have later : Encodes laterName 12 [[0x61]] 15 :=
    .label (rfl : laterName[12]? = some 1) (by decide) (by decide) (by decide) (.root rfl)
  have reached : Runs.Reachable Serving.step Allowed (construct [entryA]) _ :=
    .tail (.dataReceived laterName client)
      (.tail (.dataReceived unknownName client) .refl ⟨_, _, unknown.readAs⟩ rfl)
      ⟨_, _, later.readAs⟩ rfl
  refine ⟨_, reached, by decide, ?_⟩
  intro keeps
  cases keeps with
  | idle _ nothing => exact absurd nothing (by decide)
  | pending _ _ owed => exact absurd owed nofun

end Serving

end Dns
