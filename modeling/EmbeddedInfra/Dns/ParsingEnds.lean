import EmbeddedInfra.Dns.AnswerParser
import EmbeddedInfra.Dns.CNameWalks
import EmbeddedInfra.Dns.NamesMatched
import EmbeddedInfra.Dns.ReferenceWalks

/-! Which datagrams are parsed in finitely many steps. -/

namespace Dns

open Walks PartsStream

variable {data : Bytes}

/-- As far as the labels of the name agree with the parts, no reference of the parts leads in a
circle of references. -/
def PartsEnd (data : Bytes) (hostnameParts : PartsStream) (position : Nat) : Prop :=
  ∀ p, follow data position = some p →
    ∀ c, Relation.ReflTransGen (Compares (partsStream data (enoughRounds data)) data)
        ⟨p, hostnameParts, true⟩ c →
      byteAt data c.place ≠ 0 → agrees (partsStream data (enoughRounds data)) data c = true →
        LoopFree (pointerNext data) c.hostnameParts.streamPosition

/-- The name does not lead in a circle, and a canonical name not over more references than there are
bytes. -/
def NameRead.LoopFree (data : Bytes) : NameRead → Prop
  | .hostname _ r => LabelsEnd data r.offset
  | .parts streamPosition r =>
    Walks.LoopFree (pointerNext data) streamPosition ∧
      ∀ hostnameParts,
        PartsStream.construct data (enoughRounds data) streamPosition = .ok hostnameParts →
        LabelsEnd data r.offset ∧ PartsEnd data hostnameParts r.offset
  | .cName resourceSize r =>
    ∃ n ≤ data.length, References data
      { place := r.offset, resourceSize, length := 0 } n
  | .reconstructed r =>
    Walks.LoopFree (pointerNext data) r.offset ∧
      ∀ hostnameParts,
        PartsStream.construct data (enoughRounds data) r.offset = .ok hostnameParts →
        ∀ g, Relation.ReflTransGen (Gathers data) (0, hostnameParts) g → Gatherable data g

theorem consumable_stream (c : Comparing PartsStream) :
    Consumable (partsStream data (enoughRounds data)) data c ↔
      (byteAt data c.place ≠ 0 → agrees (partsStream data (enoughRounds data)) data c = true →
        LoopFree (pointerNext data) c.hostnameParts.streamPosition) := by
  apply imp_congr_right
  intro _
  rw [consumed]
  by_cases same : agrees (partsStream data (enoughRounds data)) data c = true
  · rw [if_pos same]
    exact c.hostnameParts.readNext_iff.trans ⟨fun free _ => free, fun free => free same⟩
  · rw [if_neg same]
    exact iff_of_true ⟨_, rfl⟩ (fun agreed => absurd agreed same)

theorem bind_ends_iff {α : Type} (streamPosition : Nat) (next : PartsStream → Except Stop α) :
    (construct data (enoughRounds data) streamPosition).bind next ≠ .error .running ↔
      LoopFree (pointerNext data) streamPosition ∧ ∀ hostnameParts,
        construct data (enoughRounds data) streamPosition = .ok hostnameParts →
        next hostnameParts ≠ .error .running := by
  have first : (∃ hostnameParts, construct data (enoughRounds data) streamPosition =
      .ok hostnameParts) ↔ LoopFree (pointerNext data) streamPosition :=
    readNext_iff { streamPosition, label := [], finalPosition := none }
  cases returns : construct data (enoughRounds data) streamPosition with
  | error e =>
    cases readNext_error _ _ returns
    apply iff_of_false (by simp [Except.bind])
    intro ⟨free, _⟩
    obtain ⟨hostnameParts, returns'⟩ := first.mpr free
    exact absurd (returns.symm.trans returns') nofun
  | ok hostnameParts =>
    have free := first.mp ⟨_, returns⟩
    simp [Except.bind, free]

theorem read_ends_iff (name : NameRead) :
    name.read data (enoughRounds data) ≠ .error .running ↔ name.LoopFree data := by
  cases name with
  | hostname string r => exact hostname_ends_iff string r
  | parts streamPosition r =>
    refine (bind_ends_iff streamPosition _).trans (and_congr_right fun _ => ?_)
    apply forall_congr'
    intro hostnameParts
    apply imp_congr_right
    intro _
    refine (match_ends_iff (partsStream data (enoughRounds data))
      (fun parts _ stops => readNext_error parts _ stops) hostnameParts r).trans ?_
    simp only [consumable_stream]
    constructor
    · intro ends
      exact ⟨fun p leads => (ends p leads).1, fun p leads => (ends p leads).2⟩
    · intro ⟨labels, parts⟩ p leads
      exact ⟨labels p leads, parts p leads⟩
  | cName resourceSize r =>
    refine (readCName_ends_iff (enoughRounds data)
      { place := r.offset, resourceSize, length := 0 } [] r.failed rfl).trans ?_
    simp only [enoughRounds, Nat.lt_succ_iff]
    rfl
  | reconstructed r =>
    refine (bind_ends_iff r.offset _).trans (and_congr_right fun _ => ?_)
    apply forall_congr'
    intro hostnameParts
    apply imp_congr_right
    intro _
    rw [map_running]
    exact readHostnameParts_ends_iff maxHostname [] hostnameParts (Nat.le_refl _)

/-- A program comes to read a name. -/
inductive Asks {α : Type} (data : Bytes) : Parsing α → NameRead → Prop
  | here {name : NameRead} {next : name.Result → Parsing α} : Asks data (.read name next) name
  | later {name other : NameRead} {next : name.Result → Parsing α} {result : name.Result}
      (returns : name.read data (enoughRounds data) = .ok result)
      (rest : Asks data (next result) other) : Asks data (.read name next) other

/-- No more steps, and no more calls inside each other, than the size of the datagram allows. -/
def Ends {α : Type} (data : Bytes) (parsing : Parsing α) : Prop :=
  parsing.run data (enoughRounds data) ≠ .error .running

theorem asks_read {α : Type} {name other : NameRead} {next : name.Result → Parsing α}
    (asks : Asks data (.read name next) other) :
    other = name ∨ ∃ result, name.read data (enoughRounds data) = .ok result ∧
      Asks data (next result) other := by
  cases asks with
  | here => exact .inl rfl
  | later returns rest => exact .inr ⟨_, returns, rest⟩

theorem ends_iff {α : Type} (parsing : Parsing α) :
    Ends data parsing ↔ ∀ name, Asks data parsing name → name.LoopFree data := by
  induction parsing with
  | done value => exact iff_of_true (by rintro ⟨⟩) (by rintro _ ⟨⟩)
  | read name next ih =>
    have first : name.read data (enoughRounds data) ≠ _ ↔ name.LoopFree data := read_ends_iff name
    rw [Ends, Parsing.run]
    cases returns : name.read data (enoughRounds data) with
    | error e =>
      rw [returns] at first
      cases e with
      | running =>
        apply iff_of_false (by simp [Except.bind])
        intro free
        exact first.mpr (free name .here) rfl
      | assertion =>
        apply iff_of_true (by simp [Except.bind])
        intro other asks
        cases asks_read asks with
        | inl same =>
          rw [same]
          exact first.mp (by simp)
        | inr onward =>
          obtain ⟨result, returns', _⟩ := onward
          cases returns.symm.trans returns'
    | ok result =>
      have here : name.LoopFree data := first.mp (by simp [returns])
      refine (ih result).trans ?_
      constructor
      · intro later other asks
        cases asks_read asks with
        | inl same =>
          rw [same]
          exact here
        | inr onward =>
          obtain ⟨result', returns', rest⟩ := onward
          cases Except.ok.inj (returns.symm.trans returns')
          exact later other rest
      · intro free other asks
        exact free other (.later returns asks)

def circular : Bytes := List.replicate 12 0 ++ [1, 0x61, 0xc0, 12]

theorem circular_runs (hostname : Bytes) (rounds : Nat) :
    (NameRead.hostname hostname ⟨12, false⟩).read circular rounds = .error .running := by
  have leads : follow circular 12 = some 12 := by decide
  have back : labelNext circular 12 = some 12 := by decide
  refine match_runs_forever partsString (fun _ _ stops => nomatch stops) rounds
    (tokens hostname) ⟨12, false⟩ leads ?_
  intro free
  exact free 12 .refl (.single back)

end Dns
