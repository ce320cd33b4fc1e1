import EmbeddedInfra.Sequencing.Skips

/-! What a pass does from a position of the program, against direct execution of what is
to be executed there. -/

namespace Sequencing

open Sequencer

variable {σ : Type}

/-- So many pieces of direct execution lead from one state to the other, without a step. -/
inductive Quietly : Nat → Frames σ → σ → Frames σ → σ → Prop
  | refl {frames : Frames σ} {world : σ} : Quietly 0 frames world frames world
  | head {count : Nat} {frames frames' frames'' : Frames σ} {world world' world'' : σ}
      (first : advance frames world = some (frames', world'))
      (rest : Quietly count frames' world' frames'' world'') :
      Quietly (count + 1) frames world frames'' world''

theorem Quietly.one {frames frames' : Frames σ} {world world' : σ}
    (first : advance frames world = some (frames', world')) :
    Quietly 1 frames world frames' world' :=
  .head first .refl

theorem Quietly.trans {count count' : Nat} {frames frames' frames'' : Frames σ}
    {world world' world'' : σ} (front : Quietly count frames world frames' world')
    (back : Quietly count' frames' world' frames'' world'') :
    Quietly (count + count') frames world frames'' world'' := by
  induction front with
  | refl => simpa using back
  | head first _ ih =>
    rw [Nat.add_right_comm]
    exact .head first (ih back)

theorem decideBy_append (condition : Condition σ) (yes no tail : Frames σ) (world : σ) :
    decideBy condition (yes ++ tail) (no ++ tail) world =
      ((decideBy condition yes no world).1 ++ tail, (decideBy condition yes no world).2) := by
  unfold decideBy
  dsimp only
  split <;> rfl

theorem advance_append {frames frames' : Frames σ} {world world' : σ} (tail : Frames σ)
    (first : advance frames world = some (frames', world')) :
    advance (frames ++ tail) world = some (frames' ++ tail, world') := by
  have same : advance (frames ++ tail) world =
      (advance frames world).map fun next => (next.1 ++ tail, next.2) := by
    fun_cases advance frames world with
    | case1 | case4 action frames => cases first
    | case6 condition body otherwise frames | case8 condition body otherwise frames =>
      exact congrArg some (decideBy_append condition (.run body :: frames)
        (.choose otherwise :: frames) tail world)
    | case12 condition body frames =>
      exact congrArg some (decideBy_append condition
        (.run body :: .again condition body :: frames) frames tail world)
    | case14 counter last body frames =>
      simp only [List.cons_append, advance, Option.map_some]
      split <;> rfl
    | _ => rfl
  rw [same, first]
  rfl

theorem Quietly.append {count : Nat} {frames frames' : Frames σ} {world world' : σ}
    (tail : Frames σ) (quiet : Quietly count frames world frames' world') :
    Quietly count (frames ++ tail) world (frames' ++ tail) world' := by
  induction quiet with
  | refl => exact .refl
  | head first _ ih => exact .head (advance_append tail first) ih

theorem Quietly.pos {count : Nat} {frames : Frames σ} {world world' : σ}
    (quiet : Quietly count frames world [] world') (more : frames ≠ []) : 0 < count := by
  cases quiet with
  | refl => exact absurd rfl more
  | head => exact Nat.succ_pos _

mutual

/-- Between passes the positions of a program that starts at position `p`, with what is still to
be executed of it there. A path holds the positions in nested contexts, innermost first. -/
inductive At : Program σ → Nat → List Nat → Frames σ → Prop
  | start {program : Program σ} {p : Nat} : At program p [p] [.run program]
  | inside {statement : Statement σ} {rest : Program σ} {p : Nat} {path : List Nat}
      {frames : Frames σ} (within : Within statement p path frames) :
      At (.next statement rest) p path (frames ++ [.run rest])
  | after {statement : Statement σ} {rest : Program σ} {p : Nat} {path : List Nat}
      {frames : Frames σ} (within : At rest (p + statement.size) path frames) :
      At (.next statement rest) p path frames

inductive Within : Statement σ → Nat → List Nat → Frames σ → Prop
  | execute {body : Program σ} {p : Nat} {path : List Nat} {frames : Frames σ}
      (within : At body 0 path frames) : Within (.execute body) p (path ++ [p]) frames
  | branch {condition : Condition σ} {body : Program σ} {otherwise : Otherwise σ} {p : Nat}
      {path : List Nat} {frames : Frames σ} (within : At body 0 path frames) :
      Within (.branch condition body otherwise) p (path ++ [p + 1]) frames
  | otherwise {condition : Condition σ} {body : Program σ} {otherwise : Otherwise σ} {p : Nat}
      {path : List Nat} {frames : Frames σ} (within : Alternative otherwise (p + 2) path frames) :
      Within (.branch condition body otherwise) p path frames
  | whileLoop {condition : Condition σ} {body : Program σ} {p : Nat} {path : List Nat}
      {frames : Frames σ} (within : At body 0 path frames) :
      Within (.whileLoop condition body) p (path ++ [p + 1]) (frames ++ [.again condition body])
  | whileAgain {condition : Condition σ} {body : Program σ} {p : Nat} :
      Within (.whileLoop condition body) p [p] [.again condition body]
  | doWhile {body : Program σ} {condition : Condition σ} {p : Nat} {path : List Nat}
      {frames : Frames σ} (within : At body 0 path frames) :
      Within (.doWhile body condition) p (path ++ [p + 1]) (frames ++ [.again condition body])
  | doWhileAgain {body : Program σ} {condition : Condition σ} {p : Nat} :
      Within (.doWhile body condition) p [p] [.run body, .again condition body]
  | forEach {counter : Variable σ} {first last : σ → UInt32} {body : Program σ} {p : Nat}
      {path : List Nat} {frames : Frames σ} (within : At body 0 path frames) :
      Within (.forEach counter first last body) p (path ++ [p + 2])
        (frames ++ [.increment counter, .upTo counter last body])
  | forEachAgain {counter : Variable σ} {first last : σ → UInt32} {body : Program σ} {p : Nat} :
      Within (.forEach counter first last body) p [p + 1] [.upTo counter last body]

inductive Alternative : Otherwise σ → Nat → List Nat → Frames σ → Prop
  | elseIf {condition : Condition σ} {body : Program σ} {otherwise : Otherwise σ} {p : Nat}
      {path : List Nat} {frames : Frames σ} (within : At body 0 path frames) :
      Alternative (.elseIf condition body otherwise) p (path ++ [p + 2]) frames
  | further {condition : Condition σ} {body : Program σ} {otherwise : Otherwise σ} {p : Nat}
      {path : List Nat} {frames : Frames σ} (within : Alternative otherwise (p + 3) path frames) :
      Alternative (.elseIf condition body otherwise) p path frames
  | elseBranch {body : Program σ} {p : Nat} {path : List Nat} {frames : Frames σ}
      (within : At body 0 path frames) :
      Alternative (.elseBranch body) p (path ++ [p + 1]) frames

end

/-- What a piece of the program up to position `stop` in the context `e` does when it starts with
`frames` to be executed: it gets to its end, or takes a step, or goes back for another pass, and
then has executed at least `least` pieces. -/
inductive Outcome (position : List Nat → Frames σ → Prop) (least : Nat) (e : List Nat)
    (stop : Nat) (frames : Frames σ) (world : σ) : Sequencer σ → Prop
  | finished {count : Nat} {world' : σ} (quiet : Quietly count frames world [] world') :
      Outcome position least e stop frames world ⟨stop :: e, stop :: e, false, world'⟩
  | stepped {count : Nat} {world' : σ} {action : σ → σ} {frames' : Frames σ} {back q : Nat}
      {outer t : List Nat}
      (quiet : Quietly count frames world (.perform (.step action) :: frames') world')
      (next : position ((back + 1) :: outer) frames') (small : back + 1 < 256)
      (level : back :: outer = t ++ [q]) (below : q < stop) :
      Outcome position least e stop frames world
        ⟨back :: outer ++ e, stop :: e, false, action world'⟩
  | repeated {count : Nat} {world' : σ} {frames' : Frames σ} {path t : List Nat} {q : Nat}
      (quiet : Quietly count frames world frames' world') (progress : least ≤ count)
      (next : position path frames') (level : path = t ++ [q]) (below : q < stop) :
      Outcome position least e stop frames world ⟨path ++ e, stop :: e, true, world'⟩

variable {position inner : List Nat → Frames σ → Prop} {least count stop middle p : Nat}
  {e : List Nat} {frames frames' tail : Frames σ} {world world' : σ} {s : Sequencer σ}

theorem Outcome.prepend (front : Quietly count frames world frames' world')
    (outcome : Outcome position least e stop frames' world' s) :
    Outcome position (least + count) e stop frames world s := by
  cases outcome with
  | finished quiet => exact .finished (front.trans quiet)
  | stepped quiet next small level below =>
    exact .stepped (front.trans quiet) next small level below
  | repeated quiet progress next level below =>
    exact .repeated (front.trans quiet) (by omega) next level below

theorem Outcome.weaken {fewer : Nat} (outcome : Outcome position least e stop frames world s)
    (less : fewer ≤ least) : Outcome position fewer e stop frames world s := by
  cases outcome with
  | finished quiet => exact .finished quiet
  | stepped quiet next small level below => exact .stepped quiet next small level below
  | repeated quiet progress next level below =>
    exact .repeated quiet (less.trans progress) next level below

theorem Outcome.map {larger : List Nat → Frames σ → Prop}
    (outcome : Outcome position least e stop frames world s)
    (widen : ∀ path frames, position path frames → larger path frames) :
    Outcome larger least e stop frames world s := by
  cases outcome with
  | finished quiet => exact .finished quiet
  | stepped quiet next small level below =>
    exact .stepped quiet (widen _ _ next) small level below
  | repeated quiet progress next level below =>
    exact .repeated quiet progress (widen _ _ next) level below

abbrev Ends (result : Option (Sequencer σ)) (position : List Nat → Frames σ → Prop) (least : Nat)
    (e : List Nat) (stop : Nat) (frames : Frames σ) (world : σ) : Prop :=
  ∃ t, result = some t ∧ Outcome position least e stop frames world t

variable {result : Option (Sequencer σ)}

theorem Ends.behind (ends : Ends result position least e stop frames' world')
    (front : Quietly count frames world frames' world') :
    Ends result position least e stop frames world := by
  obtain ⟨t, same, outcome⟩ := ends
  exact ⟨t, same, (outcome.prepend front).weaken (Nat.le_add_right _ _)⟩

theorem Ends.map {larger : List Nat → Frames σ → Prop}
    (ends : Ends result position least e stop frames world)
    (widen : ∀ path frames, position path frames → larger path frames) :
    Ends result larger least e stop frames world := by
  obtain ⟨t, same, outcome⟩ := ends
  exact ⟨t, same, outcome.map widen⟩

theorem level_unique {t e : List Nat} {q q' : Nat} (within : (q' :: e) <:+ t ++ [q] ++ e) :
    q' = q := by
  have own : (q :: e) <:+ t ++ [q] ++ e := ⟨t, by simp⟩
  have both := (List.suffix_of_suffix_length_le within own (by simp)).eq_of_length (by simp)
  exact (List.cons.inj both).1

theorem apart_of_lt {t e : List Nat} {q p stop : Nat} (below : q < p) :
    Apart (t ++ [q] ++ e) p stop e := by
  intro q' low _ within
  have := level_unique within
  omega

theorem apart_of_le {t e : List Nat} {q p stop : Nat} (behind : stop ≤ q) :
    Apart (t ++ [q] ++ e) p stop e := by
  intro q' _ high within
  have := level_unique within
  omega

theorem Outcome.andThen {next : Call σ}
    (outcome : Outcome inner least e middle frames world s) (some : 1 ≤ least)
    (widen : ∀ path frames, inner path frames → position path (frames ++ tail))
    (skips : Skips next middle stop e)
    (goesOn : ∀ world', Ends (next ⟨middle :: e, middle :: e, false, world'⟩) position 0 e stop tail
      world')
    (nonempty : frames ≠ []) (order : middle ≤ stop) :
    Ends (next s) position 1 e stop (frames ++ tail) world := by
  cases outcome with
  | @finished count world' quiet =>
    obtain ⟨t, same, after⟩ := goesOn world'
    have positive := quiet.pos nonempty
    exact ⟨t, same, (after.prepend (quiet.append tail)).weaken (by omega)⟩
  | stepped quiet following small level below =>
    refine ⟨_, skips _ _ _ ?_, .stepped (quiet.append tail) (widen _ _ following) small level
      (by omega)⟩
    rw [level]
    exact apart_of_lt below
  | repeated quiet progress following level below =>
    refine ⟨_, skips _ _ _ ?_, .repeated (quiet.append tail) (by omega) (widen _ _ following)
      level (by omega)⟩
    rw [level]
    exact apart_of_lt below

/-- Positions in the context at position `p`. -/
def Nested (inner : List Nat → Frames σ → Prop) (p : Nat) (path : List Nat)
    (frames : Frames σ) : Prop :=
  ∃ path', path = path' ++ [p] ∧ inner path' frames

theorem popContext_finishes (room : p + 1 < 256) :
    popContext (σ := σ) ⟨stop :: p :: e, stop :: p :: e, false, world⟩ =
      some ⟨(p + 1) :: e, (p + 1) :: e, false, world⟩ := by
  simp [popContext, executeNextStep, increaseCurrentStep, Nat.mod_eq_of_lt room]

theorem Outcome.popContext (outcome : Outcome inner least (p :: e) stop frames world s)
    (room : p + 1 < 256) :
    Ends (popContext s) (Nested inner p) least e (p + 1) frames world := by
  cases outcome with
  | finished quiet => exact ⟨_, popContext_finishes room, .finished quiet⟩
  | @stepped count world' action frames' back q outer t quiet following small level below =>
    have apart : Apart (back :: outer ++ p :: e) stop (stop + 1) (p :: e) := by
      rw [level]
      exact apart_of_lt below
    refine ⟨_, popContext_skips (apart.ne (Nat.lt_succ_self _)) room, ?_⟩
    have moved : back :: outer ++ p :: e = back :: (outer ++ [p]) ++ e := by simp
    rw [moved]
    exact .stepped quiet ⟨(back + 1) :: outer, rfl, following⟩ small
      (show back :: (outer ++ [p]) = (back :: outer) ++ [p] from rfl) (Nat.lt_succ_self p)
  | @repeated count world' frames' path t q quiet progress following level below =>
    have apart : Apart (path ++ p :: e) stop (stop + 1) (p :: e) := by
      rw [level]
      exact apart_of_lt below
    refine ⟨_, popContext_skips (apart.ne (Nat.lt_succ_self _)) room, ?_⟩
    have moved : path ++ p :: e = path ++ [p] ++ e := by simp
    rw [moved]
    exact .repeated quiet progress ⟨path, rfl, following⟩ rfl (Nat.lt_succ_self p)

theorem inContext_enters {body : Call σ} (depth : e.length + 1 < maxContexts)
    (room : p + 1 < 256)
    (starts : Ends (body ⟨0 :: p :: e, 0 :: p :: e, false, world⟩) inner least (p :: e) stop frames
      world) :
    Ends (inContext body ⟨p :: e, p :: e, false, world⟩) (Nested inner p) least e (p + 1) frames
      world := by
  obtain ⟨t, same, outcome⟩ := starts
  have pushed : pushContext (σ := σ) ⟨p :: e, p :: e, false, world⟩ =
      some ⟨0 :: p :: e, 0 :: p :: e, false, world⟩ := by
    simp [pushContext, push, depth]
  simp only [inContext, pushed, Option.bind_some, same]
  exact outcome.popContext room

theorem inContext_resumes {body : Call σ} {path : List Nat} (inside : path ≠ [])
    (depth : e.length + 1 < maxContexts) (room : p + 1 < 256)
    (resumes : Ends (body ⟨path ++ p :: e, 0 :: p :: e, false, world⟩) inner least (p :: e) stop
      frames world) :
    Ends (inContext body ⟨path ++ p :: e, p :: e, false, world⟩) (Nested inner p) least e (p + 1)
      frames world := by
  obtain ⟨t, same, outcome⟩ := resumes
  have deeper : path ++ p :: e ≠ p :: e := by
    intro same
    have := congrArg List.length same
    simp only [List.length_append, List.length_cons, Nat.add_eq_right] at this
    exact inside (List.eq_nil_of_length_eq_zero this)
  simp only [inContext, pushContext_skips deeper depth, Option.bind_some, same]
  exact outcome.popContext room

end Sequencing
