import EmbeddedInfra.Dns.NameReading

/-! Programs that read names from a datagram, and do nothing else that may not end. -/

namespace Dns

/-- A name that is to be read. -/
inductive NameRead
  /-- `ReadAndMatchHostname`. -/
  | hostname (hostname : Bytes) (r : Reader)
  /-- `ReadAndMatchHostnameParts`, with the name at another position. -/
  | parts (streamPosition : Nat) (r : Reader)
  /-- `ReadCName`, into an empty hostname. -/
  | cName (resourceSize : Nat) (r : Reader)
  /-- `MdnsClient::AnswerParser::ReadHostname`. -/
  | reconstructed (r : Reader)
  deriving DecidableEq

namespace NameRead

abbrev Result : NameRead → Type
  | .hostname _ _ => Bool × Reader
  | .parts _ _ => Bool × Reader
  | .cName _ _ => Bytes × Reader
  | .reconstructed _ => Bytes × Reader

def read (data : Bytes) (rounds : Nat) : (name : NameRead) → Except Stop name.Result
  | .hostname string r => readAndMatchHostname data rounds string r
  | .parts streamPosition r =>
    (PartsStream.construct data rounds streamPosition).bind fun hostnameParts =>
      readAndMatchHostnameParts (partsStream data rounds) data rounds hostnameParts r
  | .cName resourceSize r => readCName data rounds resourceSize [] r
  | .reconstructed r => readHostname data rounds r

end NameRead

inductive Parsing (α : Type) : Type
  | done (value : α)
  | read (name : NameRead) (next : name.Result → Parsing α)

namespace Parsing

def bind {α β : Type} : Parsing α → (α → Parsing β) → Parsing β
  | done value, next => next value
  | read name rest, next => read name fun result => (rest result).bind next

instance : Monad Parsing where
  pure := done
  bind := bind

def name (name : NameRead) : Parsing name.Result := read name done

def run {α : Type} (data : Bytes) (rounds : Nat) : Parsing α → Except Stop α
  | done value => .ok value
  | read name next => (name.read data rounds).bind fun result => (next result).run data rounds

theorem run_name (data : Bytes) (rounds : Nat) (read : NameRead) :
    (name read).run data rounds = read.read data rounds := by
  simp only [name, run]
  cases read.read data rounds <;> rfl

theorem run_bind {α β : Type} (data : Bytes) (rounds : Nat) (first : Parsing α)
    (next : α → Parsing β) :
    (first >>= next).run data rounds =
      (first.run data rounds).bind fun value => (next value).run data rounds := by
  induction first with
  | done value => rfl
  | read name rest ih =>
    calc
      _ = (name.read data rounds).bind fun result => (rest result >>= next).run data rounds := rfl
      _ = (name.read data rounds).bind fun result =>
          ((rest result).run data rounds).bind fun value => (next value).run data rounds := by
        simp only [ih]
      _ = _ := by
        simp only [run]
        cases name.read data rounds <;> rfl

end Parsing

end Dns
