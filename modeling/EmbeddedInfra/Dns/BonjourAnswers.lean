import EmbeddedInfra.Dns.BonjourServer
import EmbeddedInfra.Dns.KeepsAnswering

/-! The service that is advertised answers every query for it, by as many bytes as it has asked for
and by the records that it has counted. -/

namespace Dns

open List ServiceAnswer

/-! ### Records -/

structure ServiceRecord where
  labels : List Bytes
  payload : DnsRecordPayload
  data : Bytes
  deriving DecidableEq

namespace ServiceRecord

def bytes (record : ServiceRecord) : Bytes :=
  streamParts record.labels ++ record.payload.toBytes ++ record.data

/-- The name can be read, and the payload has the length that is given for it. -/
structure WellFormed (record : ServiceRecord) : Prop where
  labels : ∀ label ∈ record.labels, label ≠ [] ∧ label.length ≤ maxLabel
  length : record.payload.resourceDataLength = record.data.length
  room : record.data.length < 65536

end ServiceRecord

/-- A header whose counts are those of the records that follow. -/
def WellFormed (bytes : Bytes) : Prop :=
  ∃ (id : Nat) (answers additional : List ServiceRecord),
    bytes = DnsRecordHeader.toBytes
        { id, flags := 0x8000, questionsCount := 0, answersCount := answers.length,
          nameServersCount := 0, additionalRecordsCount := additional.length } ++
      (answers ++ additional).flatMap ServiceRecord.bytes ∧
    id < 65536 ∧ answers.length < 65536 ∧ additional.length < 65536 ∧
    ∀ record ∈ answers ++ additional, record.WellFormed

namespace Service

variable (server : Service)

def aRecord : ServiceRecord :=
  match server.ipv4Address with
  | some address => ⟨server.shortInstanceName, payload typeA 4, address.toList⟩
  | none =>
    ⟨server.shortInstanceName, payload typeNsec (6 + streamedSize server.shortInstanceName),
      streamParts server.shortInstanceName ++ [0, 4] ++ dnsBitmap typeAaaa⟩

def aaaaRecord : ServiceRecord :=
  match server.ipv6Address with
  | some address => ⟨server.shortInstanceName, payload typeAaaa 16, toNetworkOrder address⟩
  | none =>
    ⟨server.shortInstanceName, payload typeNsec (6 + streamedSize server.shortInstanceName),
      streamParts server.shortInstanceName ++ [0, 4] ++ dnsBitmap typeA⟩

def ptrRecord : ServiceRecord :=
  ⟨server.serviceNameParts, payload typePtr (streamedSize server.fullInstanceName),
    streamParts server.fullInstanceName⟩

def srvRecord : ServiceRecord :=
  ⟨server.fullInstanceName, payload typeSrv (streamedSize server.shortInstanceName + 6),
    toBigEndian 0 ++ toBigEndian 0 ++ toBigEndian server.port.toNat ++
      streamParts server.shortInstanceName⟩

def txtRecord : ServiceRecord :=
  ⟨server.fullInstanceName, payload typeTxt server.textLength, server.text.streamed⟩

def answerRecord (type : Nat) : ServiceRecord :=
  if type = typeA then server.aRecord
  else if type = typeAaaa then server.aaaaRecord
  else if type = typePtr then server.ptrRecord
  else if type = typeSrv then server.srvRecord
  else server.txtRecord

def additionalRecords (type : Nat) : List ServiceRecord :=
  if type = typePtr then [server.txtRecord, server.srvRecord, server.aRecord, server.aaaaRecord]
  else if type = typeSrv then [server.aRecord, server.aaaaRecord]
  else []

theorem a_eq : server.a = server.aRecord.bytes := by
  cases known : server.ipv4Address <;>
    simp [a, aRecord, known, addA, addNoA, ServiceRecord.bytes]

theorem aaaa_eq : server.aaaa = server.aaaaRecord.bytes := by
  cases known : server.ipv6Address <;>
    simp [aaaa, aaaaRecord, known, addAaaa, addNoAaaa, ServiceRecord.bytes]

theorem addPtr_eq : server.addPtr server.serviceNameParts = server.ptrRecord.bytes := by
  simp [addPtr, ptrRecord, ServiceRecord.bytes]

theorem addSrv_eq : server.addSrv server.fullInstanceName = server.srvRecord.bytes := by
  simp [addSrv, srvRecord, ServiceRecord.bytes]

theorem addTxt_eq : server.addTxt server.fullInstanceName = server.txtRecord.bytes := by
  simp [addTxt, txtRecord, ServiceRecord.bytes]

theorem length_streamParts (parts : List Bytes) :
    (streamParts parts).length = streamedSize parts := by
  have sum : ∀ start, parts.foldl (fun result part => result + (part.length + 1)) start =
      start + (parts.map fun part => part.length + 1).sum := by
    induction parts with
    | nil => simp
    | cons part parts ih =>
      intro start
      rw [foldl_cons, ih, map_cons, sum_cons]
      omega
  rw [streamParts, length_append, length_streamed, streamedSize, sum, length_singleton]
  omega

/-- Labels of 1 to 63 characters. -/
def Labelled (labels : List Bytes) : Prop :=
  ∀ label ∈ labels, label ≠ [] ∧ label.length ≤ maxLabel

/-- The instance is a label, and the text is streamed in the size that it gives, which a record can
hold. -/
structure Streamable : Prop where
  instance_ : server.instance_ ≠ [] ∧ server.instance_.length ≤ maxLabel
  size : server.text.streamedSize = server.text.streamed.length + 1
  room : server.text.streamed.length < 65536

theorem streamedSize_le {parts : List Bytes} (labelled : Labelled parts) :
    streamedSize parts ≤ 1 + 64 * parts.length := by
  rw [← length_streamParts, streamParts, length_append, length_streamed]
  have sum : (parts.map fun part => part.length + 1).sum ≤ 64 * parts.length := by
    induction parts with
    | nil => simp
    | cons part parts ih =>
      have short : part.length ≤ 63 := (labelled part (mem_cons_self ..)).2
      have rest := ih fun other member => labelled other (mem_cons_of_mem _ member)
      rw [map_cons, sum_cons, length_cons]
      omega
  rw [length_singleton]
  omega

theorem localLabel_label : localLabel ≠ [] ∧ localLabel.length ≤ maxLabel := by decide

variable {server}

theorem labelled_short (label : server.instance_ ≠ [] ∧ server.instance_.length ≤ maxLabel) :
    Labelled server.shortInstanceName := by
  simp only [Labelled, shortInstanceName, mem_cons, not_mem_nil, or_false]
  rintro _ (rfl | rfl)
  · exact label
  · exact localLabel_label

theorem labelled_full (label : server.instance_ ≠ [] ∧ server.instance_.length ≤ maxLabel)
    (labelled : Labelled server.serviceNameParts) : Labelled server.fullInstanceName := by
  intro part member
  cases member with
  | head => exact label
  | tail _ member => exact labelled part member

theorem aRecord_wellFormed (labelled : Labelled server.shortInstanceName) :
    server.aRecord.WellFormed := by
  have size := streamedSize_le labelled
  have length : server.shortInstanceName.length = 2 := rfl
  rw [aRecord]
  split
  · exact ⟨labelled, by simp [payload], by simp⟩
  · constructor
    · exact labelled
    · simp only [payload, length_append, length_streamParts]
      simp [dnsBitmap]
      omega
    · simp only [length_append, length_streamParts]
      simp [dnsBitmap]
      omega

theorem aaaaRecord_wellFormed (labelled : Labelled server.shortInstanceName) :
    server.aaaaRecord.WellFormed := by
  have size := streamedSize_le labelled
  have length : server.shortInstanceName.length = 2 := rfl
  rw [aaaaRecord]
  split
  next address _ =>
    have sixteen : (toNetworkOrder address).length = 16 := by
      simp [toNetworkOrder, length_flatMap, toBigEndian]
    exact ⟨labelled, by simp [payload, sixteen], by simp [sixteen]⟩
  · constructor
    · exact labelled
    · simp only [payload, length_append, length_streamParts]
      simp [dnsBitmap]
      omega
    · simp only [length_append, length_streamParts]
      simp [dnsBitmap]
      omega

theorem ptrRecord_wellFormed (labelled : Labelled server.serviceNameParts)
    (whole : Labelled server.fullInstanceName) : server.ptrRecord.WellFormed := by
  have size := streamedSize_le whole
  have length : server.fullInstanceName.length = 4 := rfl
  constructor
  · exact labelled
  · simp only [ptrRecord, payload, length_streamParts]
    omega
  · simp only [ptrRecord, length_streamParts]
    omega

theorem srvRecord_wellFormed (labelled : Labelled server.fullInstanceName)
    (short : Labelled server.shortInstanceName) : server.srvRecord.WellFormed := by
  have size := streamedSize_le short
  have length : server.shortInstanceName.length = 2 := rfl
  constructor
  · exact labelled
  · simp only [srvRecord, payload, length_append, length_streamParts]
    simp [toBigEndian]
    omega
  · simp only [srvRecord, length_append, length_streamParts]
    simp [toBigEndian]
    omega

theorem txtRecord_wellFormed (streamable : server.Streamable)
    (labelled : Labelled server.fullInstanceName) : server.txtRecord.WellFormed := by
  have size := streamable.size
  have room := streamable.room
  constructor
  · exact labelled
  · simp only [txtRecord, payload, textLength]
    split <;> omega
  · exact room

def servedName (server : Service) (type : Nat) : List Bytes :=
  if type = typeA ∨ type = typeAaaa then server.shortInstanceName
  else if type = typePtr then server.serviceNameParts
  else server.fullInstanceName

theorem records_wellFormed (streamable : server.Streamable) {type : Nat}
    (labelled : Labelled (server.servedName type)) :
    ∀ record ∈ server.answerRecord type :: server.additionalRecords type, record.WellFormed := by
  have short := labelled_short streamable.instance_
  by_cases addresses : type = typeA ∨ type = typeAaaa
  · have none : server.additionalRecords type = [] := by
      rcases addresses with rfl | rfl <;> rfl
    rw [none]
    intro record member
    cases mem_singleton.mp member
    rcases addresses with rfl | rfl
    · exact aRecord_wellFormed short
    · exact aaaaRecord_wellFormed short
  · rw [servedName, if_neg addresses] at labelled
    rw [not_or] at addresses
    have whole : Labelled server.fullInstanceName := by
      split at labelled
      · exact labelled_full streamable.instance_ labelled
      · exact labelled
    have txt := txtRecord_wellFormed streamable whole
    have srv := srvRecord_wellFormed whole short
    have a := aRecord_wellFormed short
    have aaaa := aaaaRecord_wellFormed short
    by_cases ptr : type = typePtr
    · rw [if_pos ptr] at labelled
      have ptrRecord := ptrRecord_wellFormed labelled whole
      subst ptr
      intro record member
      have known : record ∈ [server.ptrRecord, server.txtRecord, server.srvRecord, server.aRecord,
        server.aaaaRecord] := member
      simp only [mem_cons, not_mem_nil, or_false] at known
      rcases known with rfl | rfl | rfl | rfl | rfl
      · exact ptrRecord
      · exact txt
      · exact srv
      · exact a
      · exact aaaa
    · by_cases isSrv : type = typeSrv
      · subst isSrv
        intro record member
        have known : record ∈ [server.srvRecord, server.aRecord, server.aaaaRecord] := member
        simp only [mem_cons, not_mem_nil, or_false] at known
        rcases known with rfl | rfl | rfl
        · exact srv
        · exact a
        · exact aaaa
      · have answer : server.answerRecord type = server.txtRecord := by
          simp only [answerRecord, addresses, ptr, isSrv, if_false]
        have none : server.additionalRecords type = [] := by
          simp only [additionalRecords, ptr, isSrv, if_false]
        rw [answer, none]
        intro record member
        cases mem_singleton.mp member
        exact txt

end Service

/-! ### Questions -/

structure Question where
  labels : List Bytes
  footer : DnsQuestionFooter
  deriving DecidableEq

/-- A number of questions from a position on. -/
inductive Questions (data : Bytes) : Nat → Nat → List Question → Prop
  | nil {p : Nat} : Questions data 0 p []
  | cons {count p stop : Nat} {labels : List Bytes} {questions : List Question}
      (name : ReadAs data p labels stop) (room : stop + 4 ≤ data.length)
      (rest : Questions data count (stop + 4) questions) :
      Questions data (count + 1) p (⟨labels, footerAt data stop⟩ :: questions)

/-- The class is IN, and the type one of those that are served. -/
def Question.Known (question : Question) : Prop :=
  question.footer.class_ = classIn ∧
    question.footer.type ∈ [typeA, typeAaaa, typePtr, typeSrv, typeTxt]

/-- The labels are those of the name that is served for the type. -/
def Question.ForMe (question : Question) (server : Service) : Prop :=
  question.labels = server.servedName question.footer.type

instance (server : Service) (question : Question) : Decidable (question.ForMe server) :=
  inferInstanceAs (Decidable (question.labels = server.servedName question.footer.type))

/-- A query whose questions are all known, and one of them is for the service. -/
structure Service.AsksFor (server : Service) (data : Bytes) : Prop where
  header : 12 ≤ data.length
  query : (headerOf data).response = false
  opcode : (headerOf data).opcode = 0
  questions : ∃ questions, Questions data (headerOf data).questionsCount 12 questions ∧
    (∀ question ∈ questions, question.Known) ∧ ∃ question ∈ questions, question.ForMe server

/-- The names that are read, up to a question that is not known, have at most 253 characters, and
labels without dots. -/
inductive Readable (data : Bytes) : Nat → Nat → List Question → Bool → Prop
  | done {p : Nat} : Readable data 0 p [] true
  | broken {count p stop : Nat} {labels : List Bytes} (name : ReadAs data p labels stop)
      (fits : (nameOf labels).length ≤ maxHostname) (whole : ∀ label ∈ labels, separator ∉ label)
      (ends : data.length < stop + 4 ∨ ¬ Question.Known ⟨labels, footerAt data stop⟩) :
      Readable data (count + 1) p [] false
  | next {count p stop : Nat} {labels : List Bytes} {questions : List Question} {valid : Bool}
      (name : ReadAs data p labels stop) (fits : (nameOf labels).length ≤ maxHostname)
      (whole : ∀ label ∈ labels, separator ∉ label) (room : stop + 4 ≤ data.length)
      (known : Question.Known ⟨labels, footerAt data stop⟩)
      (rest : Readable data count (stop + 4) questions valid) :
      Readable data (count + 1) p (⟨labels, footerAt data stop⟩ :: questions) valid

variable {data : Bytes}

variable {p stop : Nat} {labels : List Bytes} {count : Nat}

theorem ReadAs.labelled (reads : ReadAs data p labels stop) : Service.Labelled labels := by
  induction reads with
  | outside | last => exact nofun
  | label present short _ ih =>
    intro label member
    cases member with
    | head => exact ⟨labelAt_present present, by rw [labelAt, length_extract]; exact short⟩
    | tail _ member => exact ih label member
  | refused => exact nofun
  | reference _ _ _ ih => exact ih

theorem ReadAs.lt (reads : ReadAs data p labels stop) (inside : p < data.length) : p < stop := by
  have next : p < after data (p + 1) := by
    rw [after]
    split <;> omega
  induction reads with
  | outside outside => exact absurd inside (Nat.not_lt.mpr outside)
  | last => exact Nat.lt_succ_self _
  | @label p stop labels present short rest ih =>
    have positive := Nat.pos_of_ne_zero (positive_size present)
    have behind_ : p < behind data p := by
      rw [behind]
      omega
    by_cases more : behind data p < data.length
    · refine behind_.trans (ih more ?_)
      rw [after]
      split <;> omega
    · cases rest with
      | outside => exact behind_
      | last inside => exact absurd inside more
      | label present => exact absurd (inside_of_byteAt present) more
      | refused marked | reference marked => exact absurd (inside_of_isReference marked) more
  | refused | reference => exact next

theorem Questions.length_le {questions : List Question} (asked : Questions data count p questions)
    (inside : p ≤ data.length) :
    questions.length = count ∧ p + 5 * count ≤ data.length := by
  induction asked with
  | nil => exact ⟨rfl, by omega⟩
  | @cons count p stop labels questions name room rest ih =>
    have here : p < data.length := by
      by_contra outside
      cases name with
      | outside => omega
      | last inside => exact outside inside
      | label present => exact outside (inside_of_byteAt present)
      | refused marked | reference marked => exact outside (inside_of_isReference marked)
    have more := name.lt here
    obtain ⟨length, fits⟩ := ih room
    exact ⟨congrArg (· + 1) length, by omega⟩

theorem Readable.questions {count p : Nat} {questions : List Question} {valid : Bool}
    (readable : Readable data count p questions valid) (all : valid = true) :
    Questions data count p questions ∧ ∀ question ∈ questions, question.Known := by
  induction readable with
  | done => exact ⟨.nil, nofun⟩
  | broken => cases all
  | next name _ _ room known _ ih =>
    obtain ⟨asked, others⟩ := ih all
    exact ⟨.cons name room asked, forall_mem_cons.mpr ⟨known, others⟩⟩

theorem Readable.broken_off {questions questions' : List Question} {valid : Bool}
    (readable : Readable data count p questions valid) (asked : Questions data count p questions')
    (known : ∀ question ∈ questions', question.Known) :
    valid = true ∧ questions' = questions := by
  induction readable generalizing questions' with
  | done =>
    cases asked
    exact ⟨rfl, rfl⟩
  | broken name _ _ ends =>
    cases asked with
    | cons name' room =>
      obtain ⟨rfl, rfl⟩ := name.unique name'
      cases ends with
      | inl short => omega
      | inr unknown => exact absurd (known _ (mem_cons_self ..)) unknown
  | next name _ _ room _ _ ih =>
    cases asked with
    | cons name' _ rest =>
      obtain ⟨rfl, rfl⟩ := name.unique name'
      obtain ⟨all, same⟩ := ih rest fun question member =>
        known question (mem_cons_of_mem _ member)
      exact ⟨all, by rw [same]⟩

/-! ### Reading questions -/

theorem hostNameIs_iff (parts components : List Bytes) :
    hostNameIs parts components = true ↔ parts = components := by
  induction parts generalizing components with
  | nil => cases components <;> simp [hostNameIs]
  | cons part parts ih =>
    cases components with
    | nil => simp [hostNameIs]
    | cons component components =>
      rw [hostNameIs]
      split
      next same => simp [ih, same]
      next other => simp [other]

namespace ServiceAnswer

variable (answer : ServiceAnswer)

def addAnswers (records : List ServiceRecord) : ServiceAnswer :=
  records.foldl (fun answer record => answer.addAnswer record.bytes) answer

def addAdditionals (records : List ServiceRecord) : ServiceAnswer :=
  records.foldl (fun answer record => answer.addAdditional record.bytes) answer

theorem addAnswers_cons (record : ServiceRecord) (records : List ServiceRecord) :
    answer.addAnswers (record :: records) = (answer.addAnswer record.bytes).addAnswers records := rfl

theorem addAdditionals_append (front back : List ServiceRecord) :
    answer.addAdditionals (front ++ back) = (answer.addAdditionals front).addAdditionals back :=
  foldl_append

theorem addAnswers_eq (records : List ServiceRecord) (small : answer.answersCount < 65536) :
    answer.addAnswers records =
      { answer with
        stream := answer.stream ++ records.flatMap ServiceRecord.bytes
        answersCount := (answer.answersCount + records.length) % 65536 } := by
  induction records generalizing answer with
  | nil =>
    have same := Nat.mod_eq_of_lt small
    simp [addAnswers, same]
  | cons record records ih =>
    rw [addAnswers_cons, ih _ (Nat.mod_lt _ (by decide))]
    simp only [addAnswer, flatMap_cons, append_assoc, length_cons, mk.injEq,
      true_and, and_true]
    omega

theorem addAdditionals_eq (records : List ServiceRecord)
    (small : answer.additionalRecordsCount < 65536) :
    answer.addAdditionals records =
      { answer with
        stream := answer.stream ++ records.flatMap ServiceRecord.bytes
        additionalRecordsCount := (answer.additionalRecordsCount + records.length) % 65536 } := by
  induction records generalizing answer with
  | nil =>
    have same := Nat.mod_eq_of_lt small
    simp [addAdditionals, same]
  | cons record records ih =>
    have next : answer.addAdditionals (record :: records) =
        (answer.addAdditional record.bytes).addAdditionals records := rfl
    rw [next, ih _ (Nat.mod_lt _ (by decide))]
    simp only [addAdditional, flatMap_cons, append_assoc, length_cons, mk.injEq,
      true_and]
    omega

end ServiceAnswer

namespace Service

variable (server : Service)

/-- The answers to questions, in their order. -/
def answersTo (questions : List Question) : List ServiceRecord :=
  questions.flatMap fun question =>
    if question.ForMe server then [server.answerRecord question.footer.type] else []

def additionalTo (questions : List Question) : List ServiceRecord :=
  questions.flatMap fun question =>
    if question.ForMe server then server.additionalRecords question.footer.type else []

variable {server}

theorem isFooterValid_iff (labels : List Bytes) (footer : DnsQuestionFooter) :
    isFooterValid footer = true ↔ Question.Known ⟨labels, footer⟩ := by
  simp only [isFooterValid, Question.Known, mem_cons, not_mem_nil, or_false]
  split
  next none =>
    apply iff_of_false nofun
    intro known
    have := known.2
    tauto
  next some =>
    split
    next other => exact iff_of_false nofun fun known => other known.1
    next same =>
      apply iff_of_true rfl
      constructor
      · exact not_not.mp same
      · tauto

variable {labels : List Bytes} {footer : DnsQuestionFooter} {count p : Nat} {valid : Bool}

variable (server) in
theorem isQueryForMe_iff (known : Question.Known ⟨labels, footer⟩) (present : Labelled labels)
    (whole : ∀ label ∈ labels, separator ∉ label) :
    server.isQueryForMe (nameOf labels) footer = true ↔ Question.ForMe ⟨labels, footer⟩ server := by
  have parts : tokens (nameOf labels) = labels :=
    tokens_text (fun label member => (present label member).1) whole
  rw [isQueryForMe, parts, Question.ForMe, servedName]
  have type := known.2
  simp only [mem_cons, not_mem_nil, or_false] at type
  simp only
  rcases type with type | type | type | type | type <;> rw [type] <;>
    simp [typeA, typeAaaa, typePtr, typeSrv, typeTxt, hostNameIs_iff]

theorem addAnswerFor_known (known : Question.Known ⟨labels, footer⟩) (answer : ServiceAnswer) :
    server.addAnswerFor footer.type answer =
      .ok (answer.addAnswer (server.answerRecord footer.type).bytes) := by
  have type := known.2
  simp only [mem_cons, not_mem_nil, or_false] at type
  rcases type with type | type | type | type | type <;> rw [type]
  · rw [show server.answerRecord typeA = server.aRecord from rfl, ← a_eq]
    rfl
  · rw [show server.answerRecord typeAaaa = server.aaaaRecord from rfl, ← aaaa_eq]
    rfl
  · rw [show server.answerRecord typePtr = server.ptrRecord from rfl, ← addPtr_eq]
    rfl
  · rw [show server.answerRecord typeSrv = server.srvRecord from rfl, ← addSrv_eq]
    rfl
  · rw [show server.answerRecord typeTxt = server.txtRecord from rfl, ← addTxt_eq]
    rfl

theorem addAdditionalFor_eq (type : Nat) (answer : ServiceAnswer) :
    server.addAdditionalFor type answer = answer.addAdditionals (server.additionalRecords type) := by
  rw [addAdditionalFor, additionalRecords]
  split
  · simp [addAdditionals, addTxtAdditional,
      addSrvAdditional, addAAdditional,
      addAaaaAdditional, a_eq, aaaa_eq, addSrv_eq, addTxt_eq]
  · split
    · simp [addAdditionals, addAAdditional,
        addAaaaAdditional, a_eq, aaaa_eq]
    · rfl

theorem readQuestions_invalid (rounds count : Nat) (s : QuestionsRead) (broken : s.valid = false) :
    server.readQuestions data rounds count s = .ok s := by
  cases count with
  | zero => rfl
  | succ count => rw [readQuestions, broken, if_neg nofun]

theorem additional_invalid (rounds count : Nat) (s : QuestionsRead) (broken : s.valid = false) :
    server.readQuestionsForAdditionalRecords data rounds count s = .ok s := by
  cases count with
  | zero => rfl
  | succ count => rw [readQuestionsForAdditionalRecords, broken, if_neg nofun]

variable (server) in
theorem readQuestions_reads {questions : List Question}
    (readable : Readable data count p questions valid) (answer : ServiceAnswer) :
    ∃ r : Reader, server.readQuestions data (enoughRounds data) count
      { answer, valid := true, r := ⟨p, false⟩ } =
        .ok { answer := answer.addAnswers (server.answersTo questions), valid, r } := by
  induction readable generalizing answer with
  | done => exact ⟨_, rfl⟩
  | @broken count p stop labels name fits whole ends =>
    have read := readHostname_reads (r := ⟨p, false⟩) name fits
    have unknown : ((extractFooter data ⟨stop, false⟩).2.failed ||
        !isFooterValid (extractFooter data ⟨stop, false⟩).1) = true := by
      by_cases short : data.length < stop + 4
      · rw [extractFooter_short false short]
        rfl
      · have other := ends.resolve_left short
        rw [extractFooter_within false (Nat.not_lt.mp short)]
        rw [← isFooterValid_iff labels, Bool.not_eq_true] at other
        simp [other]
    refine ⟨(extractFooter data ⟨stop, false⟩).2, ?_⟩
    rw [readQuestions, if_pos rfl, readQuestion, read]
    simp only [Except.bind, Reader.rewind, unknown, if_true]
    rw [readQuestions_invalid _ _ _ rfl]
    rfl
  | @next count p stop labels questions valid name fits whole room known _ ih =>
    have read := readHostname_reads (r := ⟨p, false⟩) name fits
    have forMe := isQueryForMe_iff server known name.labelled whole
    have checked : isFooterValid (footerAt data stop) = true :=
      (isFooterValid_iff labels _).mpr known
    rw [readQuestions, if_pos rfl, readQuestion, read]
    simp only [Except.bind, Reader.rewind, extractFooter_within false room, checked,
      Bool.not_true, Bool.or_self, Bool.false_eq_true, if_false]
    by_cases mine : Question.ForMe ⟨labels, footerAt data stop⟩ server
    · obtain ⟨r, others⟩ := ih (answer.addAnswer (server.answerRecord (footerAt data stop).type).bytes)
      refine ⟨r, ?_⟩
      have more : server.answersTo (⟨labels, footerAt data stop⟩ :: questions) =
          server.answerRecord (footerAt data stop).type :: server.answersTo questions := by
        simp [answersTo, mine]
      rw [forMe.mpr mine, if_pos rfl, addAnswerFor_known known, more,
        addAnswers_cons]
      exact others
    · obtain ⟨r, others⟩ := ih answer
      refine ⟨r, ?_⟩
      have same : server.answersTo (⟨labels, footerAt data stop⟩ :: questions) =
          server.answersTo questions := by
        simp [answersTo, mine]
      rw [Bool.eq_false_iff.mpr (fun asked => mine (forMe.mp asked)),
        if_neg Bool.false_ne_true, same]
      exact others

variable (server) in
theorem additional_reads {questions : List Question}
    (readable : Readable data count p questions valid) (all : valid = true) (answer : ServiceAnswer)
    (failed : Bool) :
    ∃ r : Reader, server.readQuestionsForAdditionalRecords data (enoughRounds data) count
      { answer, valid := true, r := ⟨p, failed⟩ } =
        .ok { answer := answer.addAdditionals (server.additionalTo questions), valid := true, r } := by
  induction readable generalizing answer with
  | done => exact ⟨_, rfl⟩
  | broken => cases all
  | @next count p stop labels questions valid name fits whole room known _ ih =>
    have read := readHostname_reads (r := ⟨p, failed⟩) name fits
    have forMe := isQueryForMe_iff server known name.labelled whole
    rw [readQuestionsForAdditionalRecords, if_pos rfl, readQuestionForAdditionalRecords, read]
    simp only [Except.map, Except.bind, Reader.rewind, extractFooter_within failed room]
    by_cases mine : Question.ForMe ⟨labels, footerAt data stop⟩ server
    · obtain ⟨r, others⟩ := ih all
        (answer.addAdditionals (server.additionalRecords (footerAt data stop).type))
      refine ⟨r, ?_⟩
      have more : server.additionalTo (⟨labels, footerAt data stop⟩ :: questions) =
          server.additionalRecords (footerAt data stop).type ++ server.additionalTo questions := by
        simp [additionalTo, mine]
      rw [forMe.mpr mine, if_pos rfl, addAdditionalFor_eq, more,
        addAdditionals_append]
      exact others
    · obtain ⟨r, others⟩ := ih all answer
      refine ⟨r, ?_⟩
      have same : server.additionalTo (⟨labels, footerAt data stop⟩ :: questions) =
          server.additionalTo questions := by
        simp [additionalTo, mine]
      rw [Bool.eq_false_iff.mpr (fun asked => mine (forMe.mp asked)),
        if_neg Bool.false_ne_true, same]
      exact others

/-- What a valid query is answered by, with the counts that are written into the header. -/
def answerTo (server : Service) (data : Bytes) (questions : List Question)
    (answersCount additionalRecordsCount : Nat) : Bytes :=
  DnsRecordHeader.toBytes
      { id := (headerOf data).id, flags := 0x8000, questionsCount := 0, answersCount,
        nameServersCount := 0, additionalRecordsCount } ++
    (server.answersTo questions ++ server.additionalTo questions).flatMap ServiceRecord.bytes

theorem isValidQuestion_iff (header : DnsRecordHeader) (failed : Bool) :
    isValidQuestion header failed = true ↔
      failed = false ∧ header.opcode = 0 ∧ header.response = false := by
  rw [isValidQuestion]
  cases failed <;> simp

variable (server) in
theorem createAnswer_reads {questions : List Question} (parser : AnswerParser)
    (complete : 12 ≤ data.length) (opcode : (headerOf data).opcode = 0)
    (query : (headerOf data).response = false)
    (readable : Readable data (headerOf data).questionsCount 12 questions valid)
    (fresh : parser.valid = true) (answers : parser.answersCount < 65536)
    (additional : parser.additionalRecordsCount < 65536) :
    ∃ result, server.createAnswer data (enoughRounds data) parser = .ok result ∧
      result.valid = valid ∧ result.answer.isSome = valid ∧
      (valid = true →
        result.answersCount = (parser.answersCount + (server.answersTo questions).length) % 65536 ∧
        result.additionalRecordsCount =
          (parser.additionalRecordsCount + (server.additionalTo questions).length) % 65536 ∧
        result.answer = some
          { stream := server.answerTo data questions parser.answersCount
              parser.additionalRecordsCount
            answersCount := result.answersCount
            additionalRecordsCount := result.additionalRecordsCount }) := by
  obtain ⟨header, first, _, same⟩ := extractHeader_reads data
  have offset : min 12 data.length = 12 := Nat.min_eq_left complete
  have whole : decide (data.length < 12) = false := decide_eq_false (Nat.not_lt.mpr complete)
  have passes := (isValidQuestion_iff (headerOf data) false).mpr ⟨rfl, opcode, query⟩
  rw [same complete, offset, whole] at first
  let start := construct (headerOf data).id parser.answersCount
    parser.additionalRecordsCount
  obtain ⟨r, loop⟩ := readQuestions_reads server readable start
  simp only [createAnswer, first, passes, if_true, fresh]
  rw [loop]
  simp only [Except.bind]
  cases valid with
  | false =>
    rw [additional_invalid _ _ _ rfl]
    exact ⟨_, rfl, rfl, rfl, nofun⟩
  | true =>
    obtain ⟨r', loop'⟩ := additional_reads server readable rfl
      (start.addAnswers (server.answersTo questions)) r.failed
    rw [Reader.rewind, loop']
    have small : start.answersCount < 65536 := answers
    have small' : (start.addAnswers (server.answersTo questions)).additionalRecordsCount < 65536 := by
      rw [addAnswers_eq _ _ small]
      exact additional
    refine ⟨_, rfl, rfl, rfl, fun _ => ?_⟩
    rw [addAdditionals_eq _ _ small', addAnswers_eq _ _ small]
    simp [answerTo, start, construct]

theorem createAnswer_refuses {parser : AnswerParser}
    (refused : ¬ (12 ≤ data.length ∧ (headerOf data).opcode = 0 ∧
      (headerOf data).response = false)) (rounds : Nat) :
    server.createAnswer data rounds parser = .ok parser := by
  obtain ⟨header, first, _, same⟩ := extractHeader_reads data
  have fails : isValidQuestion header (decide (data.length < 12)) = false := by
    rw [Bool.eq_false_iff, ne_eq, isValidQuestion_iff]
    rintro ⟨complete, opcode, query⟩
    have complete := Nat.not_lt.mp (of_decide_eq_false complete)
    rw [same complete] at opcode query
    exact refused ⟨complete, opcode, query⟩
  simp only [createAnswer, first, fails, Bool.false_eq_true, if_false]

variable (server) in
theorem length_answersTo (questions : List Question) :
    (server.answersTo questions).length ≤ questions.length := by
  induction questions with
  | nil => exact Nat.le_refl 0
  | cons question questions ih =>
    rw [answersTo, flatMap_cons, length_append, length_cons]
    rw [answersTo] at ih
    split
    · rw [length_singleton]
      omega
    · rw [length_nil]
      omega

variable (server) in
theorem length_additionalRecords (type : Nat) : (server.additionalRecords type).length ≤ 4 := by
  rw [additionalRecords]
  split
  · exact Nat.le_refl 4
  · split
    · exact Nat.le_of_ble_eq_true rfl
    · exact Nat.zero_le 4

variable (server) in
theorem length_additionalTo (questions : List Question) :
    (server.additionalTo questions).length ≤ 4 * questions.length := by
  induction questions with
  | nil => exact Nat.le_refl 0
  | cons question questions ih =>
    have four := length_additionalRecords server question.footer.type
    rw [additionalTo, flatMap_cons, length_append, length_cons]
    rw [additionalTo] at ih
    split
    · omega
    · rw [length_nil]
      omega

theorem answersTo_some (questions : List Question) :
    (server.answersTo questions).length ≠ 0 ↔ ∃ question ∈ questions, question.ForMe server := by
  rw [ne_eq, length_eq_zero_iff, answersTo, flatMap_eq_nil_iff]
  simp

theorem Questions.labelled {questions : List Question} (asked : Questions data count p questions) :
    ∀ question ∈ questions, Labelled question.labels := by
  induction asked with
  | nil => exact nofun
  | cons name _ _ ih => exact forall_mem_cons.mpr ⟨name.labelled, ih⟩

variable (server) in
theorem counts_small {questions : List Question} (small : data.length < 65536)
    (complete : 12 ≤ data.length)
    (asked : Questions data (headerOf data).questionsCount 12 questions) :
    (server.answersTo questions).length < 65536 ∧ (server.additionalTo questions).length < 65536 := by
  obtain ⟨length, fits⟩ := asked.length_le complete
  have answers := length_answersTo server questions
  have additional := length_additionalTo server questions
  omega

theorem answerTo_wellFormed (streamable : server.Streamable) {questions : List Question}
    (small : data.length < 65536) (complete : 12 ≤ data.length)
    (asked : Questions data (headerOf data).questionsCount 12 questions) :
    WellFormed (server.answerTo data questions (server.answersTo questions).length
      (server.additionalTo questions).length) := by
  obtain ⟨answers, additional⟩ := counts_small server small complete asked
  refine ⟨(headerOf data).id, server.answersTo questions, server.additionalTo questions, rfl,
    field_lt _ _, answers, additional, ?_⟩
  intro record member
  have known : ∃ question ∈ questions, question.ForMe server ∧
      record ∈ server.answerRecord question.footer.type ::
        server.additionalRecords question.footer.type := by
    cases mem_append.mp member with
    | inl answer =>
      obtain ⟨question, there, found⟩ := mem_flatMap.mp answer
      split at found
      next mine =>
        cases mem_singleton.mp found
        exact ⟨question, there, mine, mem_cons_self ..⟩
      next => cases found
    | inr more =>
      obtain ⟨question, there, found⟩ := mem_flatMap.mp more
      split at found
      next mine => exact ⟨question, there, mine, mem_cons_of_mem _ found⟩
      next => cases found
  obtain ⟨question, there, mine, found⟩ := known
  have labelled := Questions.labelled asked question there
  rw [mine] at labelled
  exact records_wellFormed streamable labelled record found

theorem length_answerTo (questions : List Question) (answers additional answers' additional' : Nat) :
    (server.answerTo data questions answers additional).length =
      (server.answerTo data questions answers' additional').length := by
  simp only [answerTo, length_append, length_headerBytes]

variable (server) in
theorem countAnswer_reads {questions : List Question} (small : data.length < 65536)
    (complete : 12 ≤ data.length) (opcode : (headerOf data).opcode = 0)
    (query : (headerOf data).response = false)
    (readable : Readable data (headerOf data).questionsCount 12 questions valid) :
    ∃ result, server.countAnswer data (enoughRounds data) = .ok result ∧
      (result.hasAnswer = true ↔ server.AsksFor data) ∧
      (valid = true → result.valid = true ∧
        result.answersCount = (server.answersTo questions).length ∧
        result.additionalRecordsCount = (server.additionalTo questions).length ∧
        result.written = server.answerTo data questions 0 0) := by
  obtain ⟨result, counted, ends, present, counts⟩ := createAnswer_reads server
    .initial complete opcode query readable rfl (by decide) (by decide)
  refine ⟨result, counted, ?_, ?_⟩
  · cases all : valid with
    | false =>
      have none : result.answer = none := by
        rw [all] at present
        exact Option.not_isSome_iff_eq_none.mp (by rw [present]; exact nofun)
      rw [AnswerParser.hasAnswer, none]
      apply iff_of_false nofun
      rintro ⟨_, _, _, questions', asked, known, _⟩
      exact absurd ((readable.broken_off asked known).1) (by rw [all]; exact nofun)
    | true =>
      obtain ⟨answers, additional, written⟩ := counts all
      obtain ⟨asked, known⟩ := readable.questions all
      have bounds := (counts_small server small complete asked).1
      rw [AnswerParser.hasAnswer, written]
      simp only [answers, decide_eq_true_eq]
      rw [show AnswerParser.initial.answersCount = 0 from rfl, Nat.zero_add,
        Nat.mod_eq_of_lt bounds, answersTo_some]
      constructor
      · intro mine
        exact ⟨complete, query, opcode, questions, asked, known, mine⟩
      · rintro ⟨_, _, _, questions', asked', known', mine⟩
        cases (readable.broken_off asked' known').2
        exact mine
  · intro all
    obtain ⟨answers, additional, written⟩ := counts all
    obtain ⟨asked, _⟩ := readable.questions all
    have bounds := counts_small server small complete asked
    refine ⟨ends.trans all, ?_, ?_, ?_⟩
    · rw [answers, show AnswerParser.initial.answersCount = 0 from rfl, Nat.zero_add,
        Nat.mod_eq_of_lt bounds.1]
    · rw [additional, show AnswerParser.initial.additionalRecordsCount = 0 from rfl, Nat.zero_add,
        Nat.mod_eq_of_lt bounds.2]
    · rw [AnswerParser.written, written]
      rfl

variable (server) in
theorem writeAnswer_reads {questions : List Question} (small : data.length < 65536)
    (complete : 12 ≤ data.length) (opcode : (headerOf data).opcode = 0)
    (query : (headerOf data).response = false)
    (readable : Readable data (headerOf data).questionsCount 12 questions true) :
    ∃ result, server.writeAnswer data (enoughRounds data) = .ok result ∧
      result.written = server.answerTo data questions (server.answersTo questions).length
        (server.additionalTo questions).length := by
  obtain ⟨first, counted, _, found⟩ := countAnswer_reads server small complete opcode
    query readable
  obtain ⟨fresh, answers, additional, _⟩ := found rfl
  have bounds := counts_small server small complete (readable.questions rfl).1
  obtain ⟨second, done, _, _, written⟩ := createAnswer_reads server first
    complete opcode query readable fresh (by rw [answers]; exact bounds.1)
    (by rw [additional]; exact bounds.2)
  refine ⟨second, ?_, ?_⟩
  · rw [writeAnswer, counted]
    exact done
  · rw [AnswerParser.written, (written rfl).2.2, answers, additional]
    rfl

end Service

end Dns
