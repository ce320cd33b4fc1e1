import EmbeddedInfra.Dns.CNameWalks
import EmbeddedInfra.Dns.NamesMatched
import EmbeddedInfra.Dns.ReplyParser

/-! Where the address of a lookup that succeeds comes from. -/

namespace Dns

open List

variable {data : Bytes}

/-- Equal but for the case of letters. -/
def SameLabels (labels tokens : List Bytes) : Prop :=
  labels.map (List.map toLower) = tokens.map (List.map toLower)

/-- Where a record and its data are. -/
structure ResourceRecord where
  position : Nat
  owner : List Bytes
  payload : DnsRecordPayload
  dataStart : Nat

namespace ResourceRecord

def dataEnd (record : ResourceRecord) : Nat :=
  record.dataStart + record.payload.resourceDataLength

end ResourceRecord

/-- A number of records, one behind the other. -/
inductive Section (data : Bytes) : Nat → Nat → List ResourceRecord → Prop
  | done {p : Nat} : Section data 0 p []
  | record {n p stop : Nat} {owner : List Bytes} {records : List ResourceRecord}
      (owned : Encodes data p owner stop)
      (room : stop + 10 + (DnsRecordPayload.ofBytes ((data.drop stop).take 10)).resourceDataLength ≤
        data.length)
      (rest : Section data n
        (stop + 10 + (DnsRecordPayload.ofBytes ((data.drop stop).take 10)).resourceDataLength)
        records) :
      Section data (n + 1) p
        ({ position := p, owner, payload := .ofBytes ((data.drop stop).take 10)
           dataStart := stop + 10 } :: records)

/-- The hostname, and the names to which `CNAME` records lead from it. -/
inductive Chain (data : Bytes) (records : List ResourceRecord) (hostname : Bytes) :
    List Bytes → Prop
  | asked : Chain data records hostname (tokens hostname)
  | cName {name target : List Bytes} {record : ResourceRecord}
      (onto : Chain data records hostname name) (member : record ∈ records)
      (cname : record.payload.isCName = true) (owner : SameLabels record.owner name)
      (leads : Encodes data record.dataStart target record.dataEnd) :
      Chain data records hostname target

def text (labels : List Bytes) : Bytes := labels.flatMap (· ++ [separator])

/-- A name whose labels contain no separator, and whose references lead to names that end before
them. -/
inductive Canonical (data : Bytes) : Nat → List Bytes → Nat → Prop
  | root {p : Nat} (here : data[p]? = some 0) : Canonical data p [] (p + 1)
  | label {p stop : Nat} {size : UInt8} {labels : List Bytes} (here : data[p]? = some size)
      (nonempty : 0 < size.toNat) (short : size.toNat ≤ 63)
      (room : p + 1 + size.toNat ≤ data.length)
      (whole : separator ∉ (data.drop (p + 1)).take size.toNat)
      (rest : Canonical data (p + 1 + size.toNat) labels stop) :
      Canonical data p ((data.drop (p + 1)).take size.toNat :: labels) stop
  | reference {p stop : Nat} {high low : UInt8} {labels : List Bytes}
      (here : data[p]? = some high) (marked : isReference high = true)
      (next : data[p + 1]? = some low) (before : stop ≤ p)
      (target : Canonical data (referenceOffset high low) labels stop) :
      Canonical data p labels (p + 2)

variable {p stop : Nat} {labels : List Bytes} {records : List ResourceRecord}
  {hostname address : Bytes} {ttl : Nat}

theorem Canonical.lt (canonical : Canonical data p labels stop) : p < stop := by
  induction canonical with
  | root | label _ _ _ _ _ _ ih | reference => omega

theorem Canonical.encodes (canonical : Canonical data p labels stop) :
    Encodes data p labels stop := by
  induction canonical with
  | root here => exact .root here
  | label here nonempty short room _ _ ih => exact .label here nonempty short room ih
  | reference here marked next before target ih =>
    have := target.lt
    exact .reference here marked next (by omega) ih

theorem Canonical.le_length (canonical : Canonical data p labels stop) : stop ≤ data.length := by
  induction canonical with
  | root here => exact (List.getElem?_eq_some_iff.mp here).1
  | label _ _ _ _ _ _ ih => exact ih
  | reference _ _ next _ _ _ =>
    have := (List.getElem?_eq_some_iff.mp next).1
    omega

theorem text_cons (label : Bytes) (labels : List Bytes) :
    text (label :: labels) = label ++ separator :: text labels := by
  simp [text]

variable {label current : Bytes} {rounds queryId : Nat} {fromNameServer : Bool}

theorem tokens_single (present : label ≠ []) (whole : separator ∉ label) :
    tokens label = [label] := by
  rw [tokens, splitOn_eq_singleton whole]
  simp [present]

theorem tokens_cons {rest : Bytes} (present : label ≠ []) (whole : separator ∉ label) :
    tokens (label ++ separator :: rest) = label :: tokens rest := by
  rw [tokens, splitOn_append_cons_self_of_not_mem whole]
  simp [tokens, present]

theorem tokens_text (present : ∀ label ∈ labels, label ≠ [])
    (whole : ∀ label ∈ labels, separator ∉ label) : tokens (text labels).dropLast = labels := by
  induction labels with
  | nil => rfl
  | cons label labels ih =>
    have first := present label (mem_cons_self ..)
    have unbroken := whole label (mem_cons_self ..)
    rw [text_cons]
    cases labels with
    | nil =>
      have last : (label ++ separator :: text []).dropLast = label := by simp [text]
      rw [last, tokens_single first unbroken]
    | cons next labels =>
      have more : separator :: text (next :: labels) ≠ [] := cons_ne_nil _ _
      have rest : text (next :: labels) ≠ [] := by simp [text]
      rw [dropLast_append_of_ne_nil more, dropLast_cons_of_ne_nil rest,
        tokens_cons first unbroken,
        ih (fun label member => present label (mem_cons_of_mem _ member))
          (fun label member => whole label (mem_cons_of_mem _ member))]

theorem Canonical.present (canonical : Canonical data p labels stop) :
    ∀ label ∈ labels, label ≠ [] := by
  induction canonical with
  | root => exact nofun
  | @label p stop size labels _ nonempty _ room _ _ ih =>
    intro label member
    cases member with
    | head =>
      intro empty
      have := congrArg List.length empty
      rw [length_take, length_drop, length_nil] at this
      omega
    | tail _ member => exact ih label member
  | reference _ _ _ _ _ ih => exact ih

theorem Canonical.whole (canonical : Canonical data p labels stop) :
    ∀ label ∈ labels, separator ∉ label := by
  induction canonical with
  | root => exact nofun
  | label _ _ _ _ whole _ ih =>
    intro label member
    cases member with
    | head => exact whole
    | tail _ member => exact ih label member
  | reference _ _ _ _ _ ih => exact ih

section

variable {reference : UInt8 → Bytes → Reader → Except Stop (Bytes × Reader)}

theorem characters_eq (size left p : Nat) (hostname : Bytes) (inside : p + (size + 1) ≤ data.length)
    (room : hostname.length + (size + 1) < maxHostname) :
    readCNameParts data reference (left + (size + 1)) (size + 1) hostname ⟨p, false⟩ =
      readCNameParts data reference left 0
        (hostname ++ (data.drop p).take (size + 1) ++ [separator]) ⟨p + (size + 1), false⟩ := by
  have here : data[p]? = some (byteAt data p) := by
    rw [byteAt, getD_eq_getElem?_getD, getElem?_eq_getElem (by omega)]
    rfl
  induction size generalizing p hostname with
  | zero =>
    rw [last_character_eq left hostname _ room, extractByte_some here, take_succ_drop here]
    rfl
  | succ size ih =>
    have next : data[p + 1]? = some (byteAt data (p + 1)) := by
      rw [byteAt, getD_eq_getElem?_getD, getElem?_eq_getElem (by omega)]
      rfl
    have long : (hostname ++ [byteAt data p]).length = hostname.length + 1 := by simp
    calc
      _ = readCNameParts data reference (left + (size + 1)) (size + 1)
            (hostname ++ [byteAt data p]) ⟨p + 1, false⟩ := by
        rw [← Nat.add_assoc left, character_eq _ _ hostname _ (by omega), extractByte_some here]
      _ = _ := by
        rw [ih (p + 1) _ (by omega) (by omega) next, take_succ_drop here]
        simp only [append_assoc, singleton_append]
        congr 2
        omega

end

theorem readCName_canonical (canonical : Canonical data p labels stop) (rounds resourceSize : Nat)
    (hostname : Bytes) (enough : stop ≤ rounds) (within : stop ≤ p + resourceSize)
    (inside : p + resourceSize ≤ data.length)
    (room : hostname.length + (text labels).length < maxHostname) :
    ∃ offset, readCName data rounds resourceSize hostname ⟨p, false⟩ =
        .ok ((hostname ++ text labels).dropLast, ⟨offset, false⟩) ∧
      (p + resourceSize = stop → offset = stop) := by
  induction canonical generalizing rounds resourceSize hostname with
  | @root p here =>
    obtain ⟨rounds, rfl⟩ : ∃ more, rounds = more + 1 := ⟨rounds - 1, by omega⟩
    obtain ⟨left, rfl⟩ : ∃ left, resourceSize = left + 1 := ⟨resourceSize - 1, by omega⟩
    refine ⟨p + 1 + left, ?_, by omega⟩
    rw [readCName_succ, readCNameParts, if_neg (by omega), if_pos rfl, extractByte_some here]
    simp [consume_within (show p + 1 + left ≤ data.length by omega), text]
  | @label p stop size labels here nonempty short room' whole rest ih =>
    have behind := rest.lt
    have length : ((data.drop (p + 1)).take size.toNat).length = size.toNat := by
      rw [length_take, length_drop]
      omega
    rw [text_cons, length_append, length_cons, length] at room
    obtain ⟨rounds, rfl⟩ : ∃ more, rounds = more + 1 := ⟨rounds - 1, by omega⟩
    obtain ⟨n, sized⟩ : ∃ n, size.toNat = n + 1 := ⟨size.toNat - 1, by omega⟩
    obtain ⟨left, rfl⟩ : ∃ left, resourceSize = left + (n + 1) + 1 :=
      ⟨resourceSize - (n + 1) - 1, by omega⟩
    have present : byteAt data p ≠ 0 := by
      rw [byteAt_some here]
      intro zero
      rw [zero] at nonempty
      exact absurd nonempty (Nat.lt_irrefl 0)
    have there : p < data.length := inside_of_byteAt present
    have unmarked : ¬ isReference (byteAt data p) = true := by
      rw [byteAt_some here, isReference_of_le short]
      rintro ⟨⟩
    obtain ⟨offset, returns, last⟩ := ih (rounds + 1) left
      (hostname ++ (data.drop (p + 1)).take (n + 1) ++ [separator]) enough (by omega) (by omega)
      (by
        rw [sized] at length
        simp only [length_append, length, length_singleton]
        omega)
    refine ⟨offset, ?_, fun full => last (by omega)⟩
    calc
      _ = readCNameParts data _ (left + (n + 1)) (byteAt data p).toNat hostname
            ⟨p + 1, false || decide (data.length ≤ p)⟩ := by
        rw [readCName_succ, size_eq _ false (by omega) present, if_neg unmarked]
      _ = readCName data (rounds + 1) left
            (hostname ++ (data.drop (p + 1)).take (n + 1) ++ [separator])
            ⟨p + 1 + (n + 1), false⟩ := by
        rw [byteAt_some here, sized, decide_eq_false (by omega), Bool.or_false,
          characters_eq n left (p + 1) hostname (by omega) (by omega), readCName_succ]
      _ = _ := by
        rw [sized] at returns ⊢
        rw [returns, text_cons]
        simp only [append_assoc, singleton_append]
  | @reference p stop high low labels here marked next before target ih =>
    have lower := target.lt
    have inside' : p + 1 < data.length := (List.getElem?_eq_some_iff.mp next).1
    obtain ⟨rounds, rfl⟩ : ∃ more, rounds = more + 1 := ⟨rounds - 1, by omega⟩
    obtain ⟨left, rfl⟩ : ∃ left, resourceSize = left + 1 := ⟨resourceSize - 1, by omega⟩
    have marked' : isReference (byteAt data p) = true := by rwa [byteAt_some here]
    have present : byteAt data p ≠ 0 := by
      intro zero
      rw [zero] at marked'
      cases marked'
    obtain ⟨offset, returns, _⟩ := ih rounds (p + 2 - referenceOffset high low) hostname
      (by omega) (by omega) (by omega) room
    refine ⟨p + 2, ?_, fun _ => rfl⟩
    have backward : p + 2 > referenceOffset high low := by omega
    rw [readCName_succ, size_eq _ false (by omega) present, if_pos marked']
    simp only [byteAt_some here, Bool.false_or, decide_eq_false (Nat.not_le.mpr
      (Nat.lt_of_succ_lt inside')), extractByte_some next, if_pos backward, Reader.rewind, returns]
    rfl

theorem extract_within {count : Nat} (room : p + count ≤ data.length) :
    Reader.extract data count ⟨p, false⟩ = ((data.drop p).take count, ⟨p + count, false⟩) := by
  have length : ((data.drop p).take count).length = count := by
    rw [length_take, length_drop]
    omega
  simp [Reader.extract, length]

theorem startsNext_labels (labels : List Bytes) (hostname : Bytes) :
    (partsMatch labels (tokens hostname) = true ∧
      ¬ (Starts labels (tokens hostname) ∧
        labels.map List.length ≠ (tokens hostname).map List.length)) →
      SameLabels labels (tokens hostname) := by
  intro ⟨found, whole⟩
  have starts := (partsMatch_iff labels (tokens hostname)).mp found
  exact starts_same_length.mpr ⟨starts, by_contra fun shorter => whole ⟨starts, shorter⟩⟩

/-- The records are such that a name is not taken for another. -/
structure Unambiguous (data : Bytes) (records : List ResourceRecord) (hostname : Bytes) : Prop where
  plain : ∀ record ∈ records, Plain data record.position
  whole : ∀ record ∈ records, ∀ name, Chain data records hostname name →
    ¬ (Starts record.owner name ∧ record.owner.map List.length ≠ name.map List.length)
  canonical : ∀ record ∈ records, record.payload.isCName = true →
    ∃ target, Canonical data record.dataStart target record.dataEnd ∧
      (text target).length < maxHostname

/-- An `A` record of the hostname, or of a name to which `CNAME` records lead from it. -/
def FromAnswer (data : Bytes) (records : List ResourceRecord) (hostname address : Bytes)
    (ttl : Nat) : Prop :=
  ∃ record ∈ records, record.payload.isIPv4Answer = true ∧ record.payload.ttl = ttl ∧
    address = (data.drop record.dataStart).take addressSize ∧
    ∃ name, Chain data records hostname name ∧ SameLabels record.owner name

theorem readAnswer_follows (unambiguous : Unambiguous data records hostname)
    (chain : Chain data records hostname (tokens current)) {owner : List Bytes}
    (owned : Encodes data p owner stop)
    (room : stop + 10 + (DnsRecordPayload.ofBytes ((data.drop stop).take 10)).resourceDataLength ≤
      data.length)
    (member : { position := p, owner, payload := .ofBytes ((data.drop stop).take 10), dataStart :=
      stop + 10 } ∈ records) :
    ∃ (answer : Answer) (current' : Bytes) (r : Reader),
      (readAnswer data current ⟨p, false⟩).run data (enoughRounds data) =
        .ok (answer, current', r) ∧
      Chain data records hostname (tokens current') ∧
      match answer with
      | .answer address ttl => FromAnswer data records hostname address ttl
      | _ => r = ⟨stop + 10 +
          (DnsRecordPayload.ofBytes ((data.drop stop).take 10)).resourceDataLength, false⟩ := by
  have matching : (NameRead.hostname current ⟨p, false⟩).read data (enoughRounds data) = _ :=
    plain_returns owned (unambiguous.plain _ member) current
  have described : extractPayload data ⟨stop, false⟩ =
      (.ofBytes ((data.drop stop).take 10), ⟨stop + 10, false⟩) := by
    rw [extractPayload, extract_within (by omega)]
  have same : partsMatch owner (tokens current) = true → SameLabels owner (tokens current) :=
    fun found => startsNext_labels owner current
      ⟨found, unambiguous.whole _ member _ chain⟩
  rw [readAnswer, Parsing.run_bind, Parsing.run_name, matching]
  simp only [Except.bind]
  rw [described]
  generalize payload : DnsRecordPayload.ofBytes ((data.drop stop).take 10) = description at *
  split
  next cname =>
    rw [Bool.and_eq_true] at cname
    obtain ⟨target, canonical, short⟩ := unambiguous.canonical _ member cname.2
    have ending : stop + 10 + description.resourceDataLength = _ := rfl
    obtain ⟨offset, returns, last⟩ := readCName_canonical canonical (enoughRounds data)
      description.resourceDataLength [] (canonical.le_length.trans (Nat.le_succ _)) (Nat.le_refl _)
      room (by simpa using short)
    have read : (NameRead.cName description.resourceDataLength ⟨stop + 10, false⟩).read data
        (enoughRounds data) = _ := returns
    rw [Parsing.run_bind, Parsing.run_name, read]
    cases last rfl
    refine ⟨_, _, _, rfl, ?_, rfl⟩
    rw [nil_append, tokens_text canonical.present canonical.whole]
    exact .cName chain member cname.2 (same cname.1) canonical.encodes
  next =>
    split
    next address =>
      rw [Bool.and_eq_true] at address
      have sized : description.resourceDataLength = addressSize := by
        simpa using (Bool.and_eq_true_iff.mp address.2).2
      have extracted : Reader.extract data addressSize ⟨stop + 10, false⟩ = _ :=
        extract_within (by omega)
      rw [extracted]
      refine ⟨_, _, _, rfl, chain, ?_⟩
      exact ⟨_, member, address.2, rfl, rfl, _, chain, same address.1⟩
    next =>
      refine ⟨_, _, _, rfl, chain, ?_⟩
      exact consume_within room

theorem readAnswerRecords_follows (unambiguous : Unambiguous data records hostname) {n : Nat}
    {rest : List ResourceRecord} (listed : Section data n p rest)
    (part : ∀ record ∈ rest, record ∈ records)
    (chain : Chain data records hostname (tokens current)) {recurse : Bool} {answers : Answers}
    (returns : (readAnswerRecords data n current recurse ⟨p, false⟩).run data (enoughRounds data) =
      .ok answers) (found : answers.answer = some (address, ttl)) :
    FromAnswer data records hostname address ttl := by
  induction listed generalizing current recurse with
  | done =>
    cases returns
    cases found
  | record owned room later ih =>
    obtain ⟨answer, current', r, read, chain', result⟩ := readAnswer_follows unambiguous chain
      owned room (part _ (mem_cons_self ..))
    rw [readAnswerRecords, Parsing.run_bind, read] at returns
    have part' := fun record member => part record (mem_cons_of_mem _ member)
    cases answer with
    | answer address' ttl' =>
      cases returns
      cases found
      exact result
    | cName | noAnswer =>
      simp only at result
      rw [result] at returns
      exact ih part' chain' returns

/-- A question and a number of answers. -/
structure Reply (data : Bytes) (records : List ResourceRecord) : Prop where
  sections : ∃ asked stop, Encodes data 12 asked stop ∧ Plain data 12 ∧
    Section data (DnsRecordHeader.ofBytes (data.take 12)).answersCount (stop + 4) records

theorem bind_ok {α β ε : Type} {first : Except ε α} {next : α → Except ε β} {result : β}
    (returns : first.bind next = .ok result) :
    ∃ value, first = .ok value ∧ next value = .ok result := by
  cases first with
  | error => cases returns
  | ok value => exact ⟨value, rfl, returns⟩

theorem tryFindAnswer_success {reply : ReplyParser}
    (success : (tryFindAnswer data reply hostname).run data rounds = .ok (.success address ttl)) :
    ∃ answers, (readAnswerRecords data reply.header.answersCount hostname false reply.reader).run
        data rounds = .ok answers ∧ answers.answer = some (address, ttl) := by
  rw [tryFindAnswer, Parsing.run_bind] at success
  obtain ⟨answers, returns, rest⟩ := bind_ok success
  refine ⟨answers, returns, ?_⟩
  cases found : answers.answer with
  | some answer =>
    simp only [found] at rest
    cases rest
    rfl
  | none =>
    simp only [found, Parsing.run_bind] at rest
    obtain ⟨⟨servers, recurse, r⟩, _, last⟩ := bind_ok rest
    cases recurse <;> cases last

theorem dataReceived_success
    (success : (dataReceived data hostname fromNameServer queryId).run data rounds =
      .ok (.success address ttl)) :
    ∃ reply, (ReplyParser.construct data hostname ⟨0, false⟩).run data rounds = .ok reply ∧
      (tryFindAnswer data reply hostname).run data rounds = .ok (.success address ttl) := by
  rw [dataReceived, Parsing.run_bind] at success
  obtain ⟨reply, returns, rest⟩ := bind_ok success
  refine ⟨reply, returns, ?_⟩
  split at rest
  · split at rest
    · cases rest
    · exact rest
  · cases rest

theorem success_follows (reply : Reply data records)
    (unambiguous : Unambiguous data records hostname)
    (success : (dataReceived data hostname fromNameServer queryId).run data (enoughRounds data) =
      .ok (.success address ttl)) :
    FromAnswer data records hostname address ttl := by
  obtain ⟨asked, stop, question, plain, listed⟩ := reply.sections
  obtain ⟨reply, constructed, rest⟩ := dataReceived_success success
  obtain ⟨answers, returns, found⟩ := tryFindAnswer_success rest
  obtain ⟨byte, here⟩ := question.first
  have inside : 12 < data.length := (List.getElem?_eq_some_iff.mp here).1
  have header : extractHeader data ⟨0, false⟩ = (.ofBytes (data.take 12), ⟨12, false⟩) := by
    rw [extractHeader, extract_within (by omega)]
    rfl
  have matching : (NameRead.hostname hostname ⟨12, false⟩).read data (enoughRounds data) = _ :=
    plain_returns question plain hostname
  rw [ReplyParser.construct, header] at constructed
  simp only at constructed
  rw [Parsing.run_bind, Parsing.run_name, matching] at constructed
  cases constructed
  simp only at returns
  generalize (DnsRecordHeader.ofBytes (data.take 12)).answersCount = count at listed returns
  cases listed with
  | done =>
    cases returns
    cases found
  | record owned room later =>
    obtain ⟨byte, first⟩ := owned.first
    have inside' := (List.getElem?_eq_some_iff.mp first).1
    have footer : (extractFooter data ⟨stop, false⟩).2 = ⟨stop + 4, false⟩ := by
      rw [extractFooter, extract_within (by omega)]
    rw [footer] at returns
    exact readAnswerRecords_follows unambiguous (.record owned room later)
      (fun _ member => member) .asked returns found

def answered : Bytes :=
  [0, 7, 0x81, 0x80, 0, 1, 0, 1, 0, 0, 0, 0, 1, 0x61, 0, 0, 1, 0, 1,
    0xc0, 12, 0, 1, 0, 1, 0, 0, 0, 60, 0, 4, 192, 168, 0, 1]

def answeredRecord : ResourceRecord where
  position := 19
  owner := [[0x61]]
  payload := { type := 1, class_ := 1, ttl := 60, resourceDataLength := 4 }
  dataStart := 31

theorem answered_question : Encodes answered 12 [[0x61]] 15 ∧ Plain answered 12 :=
  ⟨.label (show answered[12]? = some 1 from rfl) (by decide) (by decide) (by decide) (.root rfl),
    .label (show answered[12]? = some 1 from rfl) rfl (.root rfl)⟩

theorem answered_reply : Reply answered [answeredRecord] where
  sections := ⟨[[0x61]], 15, answered_question.1, answered_question.2,
    .record (.reference (show answered[19]? = some 0xc0 from rfl) rfl
      (show answered[20]? = some 12 from rfl) (by decide) answered_question.1)
      (by decide) .done⟩

theorem answered_unambiguous : Unambiguous answered [answeredRecord] [0x61] where
  plain := by
    intro record member
    cases mem_singleton.mp member
    exact .reference (show answered[19]? = some 0xc0 from rfl) rfl
      (show answered[20]? = some 12 from rfl) rfl rfl answered_question.2
  whole := by
    intro record member name chain
    cases mem_singleton.mp member
    cases chain with
    | asked => exact fun shorter => shorter.2 (by decide)
    | cName _ member cname =>
      cases mem_singleton.mp member
      cases cname
  canonical := by
    intro record member cname
    cases mem_singleton.mp member
    cases cname

/-- A reply to the question for `ab`, with the address of `a`. -/
def abbreviated : Bytes :=
  [0, 7, 0x81, 0x80, 0, 1, 0, 1, 0, 0, 0, 0, 2, 0x61, 0x62, 0, 0, 1, 0, 1,
    1, 0x61, 0, 0, 1, 0, 1, 0, 0, 0, 60, 0, 4, 192, 168, 0, 1]

end Dns
