import EmbeddedInfra.Dns.ReplyParser

/-! `MdnsClient::AnswerParser`. -/

namespace Dns

/-- A record that the queries are told of. -/
structure Record where
  isAnswer : Bool
  hostname : Bytes
  payload : DnsRecordPayload
  data : Bytes
  deriving DecidableEq

def isValidAnswer (header : DnsRecordHeader) (failed : Bool) : Bool :=
  !failed && header.response && header.opcode = 0 && header.error = 0 &&
    header.questionsCount = 0 && header.answersCount ≠ 0 && header.nameServersCount = 0

section

variable (data : Bytes)

def contiguousRange (max : Nat) (r : Reader) : Bytes × Reader :=
  let range := (data.drop r.offset).take max
  (range, { r with offset := r.offset + range.length })

/-- `ReadRecord`; without a record the answer is not valid. -/
def readRecord (isAnswer : Bool) (r : Reader) : Parsing (Option Record × Reader) := do
  let (hostname, r) ← .name (.reconstructed r)
  let (payload, r) := extractPayload data r
  let (range, r) := contiguousRange data payload.resourceDataLength r
  return (if r.failed then none else some { isAnswer, hostname, payload, data := range }, r)

/-- The loops of `Parse`, with whether the answer is still valid. -/
def readRecords (isAnswer : Bool) : Nat → Reader → Parsing (List Record × Bool × Reader)
  | 0, r => return ([], true, r)
  | count + 1, r => do
      let (record, r) ← readRecord data isAnswer r
      match record with
      | none => return ([], false, r)
      | some record =>
        let (records, valid, r) ← readRecords isAnswer count r
        return (record :: records, valid, r)

def answerParser : Parsing (List Record) := do
  let (header, r) := extractHeader data { offset := 0, failed := false }
  if isValidAnswer header r.failed then
    let (answers, valid, r) ← readRecords data true header.answersCount r
    if valid then
      let (additional, _, _) ← readRecords data false header.additionalRecordsCount r
      return answers ++ additional
    else return answers
  else return []

end

end Dns
