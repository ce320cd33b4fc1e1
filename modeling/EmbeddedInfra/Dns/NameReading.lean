import Mathlib.Tactic

/-! How the resolver and the multicast client read names from a datagram, and follow them through
compression pointers. -/

namespace Dns

abbrev Bytes := List UInt8

/-- Why a function has not returned. -/
inductive Stop
  | running
  | assertion
  deriving DecidableEq

/-- A stream over a datagram with the error policy `noFail`. -/
structure Reader where
  offset : Nat
  failed : Bool
  deriving DecidableEq

namespace Reader

/-- Bytes that are not there are read as zero. -/
def extract (data : Bytes) (count : Nat) (r : Reader) : Bytes × Reader :=
  let range := (data.drop r.offset).take count
  (range ++ List.replicate (count - range.length) 0,
    { offset := r.offset + range.length, failed := r.failed || range.length < count })

def extractByte (data : Bytes) (r : Reader) : UInt8 × Reader :=
  match data[r.offset]? with
  | some byte => (byte, { r with offset := r.offset + 1 })
  | none => (0, { r with failed := true })

def consume (data : Bytes) (amount : Nat) (r : Reader) : Reader :=
  { offset := min (r.offset + amount) data.length
    failed := r.failed || data.length < r.offset + amount }

def rewind (position : Nat) (r : Reader) : Reader := { r with offset := position }

end Reader

/-- `std::tolower`. -/
def toLower (c : UInt8) : UInt8 := if 65 ≤ c ∧ c ≤ 90 then c + 32 else c

def isReference (size : UInt8) : Bool := 0xc0 ≤ size

def referenceOffset (size offsetLow : UInt8) : Nat := size.toNat % 64 * 256 + offsetLow.toNat

/-- A class derived from `DnsHostnameParts`. -/
structure HostnameParts (π : Type) where
  current : π → Bytes
  empty : π → Bool
  consumeCurrent : π → Except Stop π

/-- `DnsHostnamePartsString`, by the tokens that remain. -/
def partsString : HostnameParts (List Bytes) where
  current := fun tokens => tokens.headD []
  empty := List.isEmpty
  consumeCurrent := fun tokens => .ok tokens.tail

def separator : UInt8 := 46

/-- `Tokenizer`; consecutive separators count as one. -/
def tokens (hostname : Bytes) : List Bytes := (hostname.splitOn separator).filter (· ≠ [])

section

variable {π : Type} (parts : HostnameParts π) (data : Bytes)

/-- The loop of `ReadAndMatchHostnamePart`. -/
def matchCharacters : Bytes → Reader → Bool × Reader
  | [], r => (true, r)
  | expected :: rest, r =>
    let (c, r) := r.extractByte data
    if toLower expected ≠ toLower c then (false, r.consume data rest.length)
    else matchCharacters rest r

def readAndMatchHostnamePart (size : Nat) (hostnameParts : π) (r : Reader) : Bool × Reader :=
  if parts.empty hostnameParts ∨ (parts.current hostnameParts).length < size then
    (false, r.consume data size)
  else matchCharacters data ((parts.current hostnameParts).take size) r

/-- `ReadAndMatchReferenceHostname`, with the call of `ReadAndMatchHostnameWithoutReference`. -/
def readAndMatchReferenceHostname
    (readAndMatch : Nat → π → Bool → Reader → Except Stop (Bool × Reader))
    (size : UInt8) (hostnameParts : π) (r : Reader) : Except Stop (Bool × Reader) :=
  let (offsetLow, r) := r.extractByte data
  let offset := referenceOffset size offsetLow
  let currentPosition := r.offset
  if currentPosition ≤ offset then .ok (false, r)
  else
    let (size, r) := (r.rewind offset).extractByte data
    (readAndMatch size.toNat hostnameParts true r).map fun (result, r) =>
      (result, r.rewind currentPosition)

/-- `ReadAndMatchHostnameWithoutReference` from a round of its loop on, for a number of rounds. -/
def readAndMatchHostnameWithoutReference :
    Nat → Nat → π → Bool → Reader → Except Stop (Bool × Reader)
  | 0, _, _, _, _ => .error .running
  | rounds + 1, size, hostnameParts, result, r =>
    if size = 0 then
      .ok (result && parts.empty hostnameParts && !r.failed, r)
    else
      let (matches_, r) := readAndMatchHostnamePart parts data size hostnameParts r
      let result := result && matches_
      (if result then parts.consumeCurrent hostnameParts else .ok hostnameParts).bind
        fun hostnameParts =>
          let (size, r) := r.extractByte data
          if isReference size then
            (readAndMatchReferenceHostname data (readAndMatchHostnameWithoutReference rounds)
              size hostnameParts r).map fun (found, r) => (found && result, r)
          else readAndMatchHostnameWithoutReference rounds size.toNat hostnameParts result r

def readAndMatchHostnameParts (rounds : Nat) (hostnameParts : π) (r : Reader) :
    Except Stop (Bool × Reader) :=
  let (size, r) := r.extractByte data
  if isReference size then
    readAndMatchReferenceHostname data (readAndMatchHostnameWithoutReference parts data rounds)
      size hostnameParts r
  else readAndMatchHostnameWithoutReference parts data rounds size.toNat hostnameParts true r

def readAndMatchHostname (rounds : Nat) (hostname : Bytes) (r : Reader) :
    Except Stop (Bool × Reader) :=
  readAndMatchHostnameParts partsString data rounds (tokens hostname) r

end

/-- The maximum size of `hostname`. -/
def maxHostname : Nat := 253

/-- The loop of `ReadCName`, with `ReadCNameReference`. -/
def readCNameParts (data : Bytes)
    (reference : UInt8 → Bytes → Reader → Except Stop (Bytes × Reader)) :
    Nat → Nat → Bytes → Reader → Except Stop (Bytes × Reader)
  | 0, _, hostname, r => .ok (hostname, r)
  | resourceSize + 1, partSize, hostname, r =>
    if maxHostname ≤ hostname.length then .ok (hostname, r)
    else if partSize = 0 then
      let (partSize, r) := r.extractByte data
      if partSize = 0 then .ok (hostname.dropLast, r.consume data resourceSize)
      else if isReference partSize then reference partSize hostname r
      else readCNameParts data reference resourceSize partSize.toNat hostname r
    else
      let (c, r) := r.extractByte data
      let hostname := hostname ++ [c]
      if partSize = 1 then
        if maxHostname ≤ hostname.length then .error .assertion
        else readCNameParts data reference resourceSize 0 (hostname ++ [separator]) r
      else readCNameParts data reference resourceSize (partSize - 1) hostname r

/-- `ReadCName`, for a number of references. -/
def readCName (data : Bytes) : Nat → Nat → Bytes → Reader → Except Stop (Bytes × Reader)
  | 0, _, _, _ => .error .running
  | rounds + 1, resourceSize, hostname, r =>
    readCNameParts data
      (fun partSize hostname r =>
        let (offsetLow, r) := r.extractByte data
        let offset := referenceOffset partSize offsetLow
        let currentPosition := r.offset
        if currentPosition > offset then
          (readCName data rounds (currentPosition - offset) hostname (r.rewind offset)).map
            fun (hostname, r) => (hostname, r.rewind currentPosition)
        else .ok (hostname, r))
      resourceSize 0 hostname r

def maxLabel : Nat := 63

structure PartsStream where
  streamPosition : Nat
  label : Bytes
  finalPosition : Option Nat
  deriving DecidableEq

namespace PartsStream

/-- The loop of `ReadNext`. -/
def followReferences (data : Bytes) :
    Nat → UInt8 → Option Nat → Reader → Except Stop (UInt8 × Option Nat × Reader)
  | 0, _, _, _ => .error .running
  | rounds + 1, size, finalPosition, r =>
    if isReference size then
      let (offsetLow, r) := r.extractByte data
      let offset := referenceOffset size offsetLow
      let finalPosition := finalPosition.or (some r.offset)
      if r.offset ≤ offset then .ok (0, finalPosition, r)
      else
        let (size, r) := (r.rewind offset).extractByte data
        followReferences data rounds size finalPosition r
    else .ok (size, finalPosition, r)

/-- `ReadNext`; the stream of the name has an error policy of its own. -/
def readNext (data : Bytes) (rounds : Nat) (parts : PartsStream) : Except Stop PartsStream :=
  let r : Reader := { offset := parts.streamPosition, failed := false }
  if data.length ≤ r.offset then .ok { parts with label := [] }
  else
    let (size, r) := r.extractByte data
    (followReferences data rounds size parts.finalPosition r).map fun (size, finalPosition, r) =>
      if size.toNat ≤ maxLabel then
        let (label, r) := r.extract data size.toNat
        { streamPosition := r.offset, label, finalPosition }
      else { streamPosition := r.offset, label := [], finalPosition }

def construct (data : Bytes) (rounds : Nat) (streamPosition : Nat) : Except Stop PartsStream :=
  readNext data rounds { streamPosition, label := [], finalPosition := none }

def consumeStream (parts : PartsStream) (r : Reader) : Reader :=
  r.rewind (parts.finalPosition.getD parts.streamPosition)

end PartsStream

def partsStream (data : Bytes) (rounds : Nat) : HostnameParts PartsStream where
  current := PartsStream.label
  empty := fun parts => parts.label.isEmpty
  consumeCurrent := PartsStream.readNext data rounds

/-- The loop of `MdnsClient::AnswerParser::ReadHostname`; there is no room for more labels than
characters. -/
def readHostnameParts (data : Bytes) (rounds : Nat) :
    Nat → Bytes → PartsStream → Except Stop (Bytes × PartsStream)
  | 0, reconstructedHostname, parts =>
    if parts.label.isEmpty then .ok (reconstructedHostname, parts) else .error .assertion
  | room + 1, reconstructedHostname, parts =>
    if parts.label.isEmpty then .ok (reconstructedHostname, parts)
    else if maxHostname < reconstructedHostname.length + parts.label.length then
      .error .assertion
    else
      let reconstructedHostname := reconstructedHostname ++ parts.label
      (parts.readNext data rounds).bind fun parts =>
        if parts.label.isEmpty then .ok (reconstructedHostname, parts)
        else if maxHostname ≤ reconstructedHostname.length then .error .assertion
        else readHostnameParts data rounds room (reconstructedHostname ++ [separator]) parts

def readHostname (data : Bytes) (rounds : Nat) (r : Reader) : Except Stop (Bytes × Reader) :=
  (PartsStream.construct data rounds r.offset).bind fun parts =>
    (readHostnameParts data rounds maxHostname [] parts).map fun (reconstructedHostname, parts) =>
      (reconstructedHostname, parts.consumeStream r)

end Dns
