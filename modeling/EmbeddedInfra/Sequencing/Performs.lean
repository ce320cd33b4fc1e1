import EmbeddedInfra.Sequencing.Outcomes

/-! Every pass does what direct execution does, up to the next step or the next turn of a loop. -/

namespace Sequencing

open Sequencer List
open Option (bind_some)

variable {σ : Type} {e : List Nat} {p : Nat} {world : σ}

/-! ### Single positions -/

section

variable {action : Call σ} {x : List Nat} {r : Bool} {world' : σ}

theorem executeWithoutContext_executes
    (executes : (action ⟨p :: e, p :: e, false, world⟩).bind executeNextStep =
      some ⟨x, p :: e, r, world'⟩) (room : p + 1 < 256) :
    executeWithoutContext action ⟨p :: e, p :: e, false, world⟩ =
      some ⟨x, (p + 1) :: e, r, world'⟩ := by
  simp only [executeWithoutContext, if_true, executes, bind_some]
  exact increaseCurrentStep_of_lt room

theorem executeNextStep_of_lt (room : p + 1 < 256) :
    executeNextStep (σ := σ) ⟨p :: e, x, r, world⟩ = some ⟨(p + 1) :: e, x, r, world⟩ := by
  simp only [executeNextStep, Nat.mod_eq_of_lt room]

theorem executeTwoSteps_of_lt (room : p + 2 < 256) :
    executeTwoSteps (σ := σ) ⟨p :: e, x, r, world⟩ = some ⟨(p + 2) :: e, x, r, world⟩ := by
  rw [executeTwoSteps, executeNextStep_of_lt (by omega)]
  exact executeNextStep_of_lt room

theorem passes_by (room : p + 1 < 256) :
    executeWithoutContext (σ := σ) some ⟨p :: e, p :: e, false, world⟩ =
      some ⟨(p + 1) :: e, (p + 1) :: e, false, world⟩ :=
  executeWithoutContext_executes (executeNextStep_of_lt room) room

theorem jumps_one (room : p + 2 < 256) :
    executeWithoutContext (σ := σ) executeNextStep ⟨p :: e, p :: e, false, world⟩ =
      some ⟨(p + 2) :: e, (p + 1) :: e, false, world⟩ := by
  apply executeWithoutContext_executes _ (by omega)
  rw [executeNextStep_of_lt (by omega)]
  exact executeNextStep_of_lt room

theorem jumps_two (room : p + 3 < 256) :
    executeWithoutContext (σ := σ) executeTwoSteps ⟨p :: e, p :: e, false, world⟩ =
      some ⟨(p + 3) :: e, (p + 1) :: e, false, world⟩ := by
  apply executeWithoutContext_executes _ (by omega)
  rw [executeTwoSteps_of_lt (by omega)]
  exact executeNextStep_of_lt room

theorem jumps_back (room : p + 3 < 256) :
    executeWithoutContext (σ := σ) executeThirdPreviousStep
        ⟨(p + 2) :: e, (p + 2) :: e, false, world⟩ =
      some ⟨p :: e, (p + 3) :: e, true, world⟩ := by
  apply executeWithoutContext_executes _ (by omega)
  have back : ((((p + 2 + 255) % 256 + 255) % 256 + 255) % 256 + 1) % 256 = p := by omega
  simp only [executeThirdPreviousStep, executePreviousStep, executeNextStep, bind_some,
    back]

variable {condition : Condition σ}

theorem skipUnless_holds (holds : condition world = (true, world')) (room : p + 1 < 256) :
    executeWithoutContext (skipUnless condition) ⟨p :: e, p :: e, false, world⟩ =
      some ⟨(p + 1) :: e, (p + 1) :: e, false, world'⟩ := by
  apply executeWithoutContext_executes _ room
  simp only [skipUnless, holds, if_true, bind_some]
  exact executeNextStep_of_lt room

theorem skipUnless_fails (fails : condition world = (false, world')) (room : p + 3 < 256) :
    executeWithoutContext (skipUnless condition) ⟨p :: e, p :: e, false, world⟩ =
      some ⟨(p + 3) :: e, (p + 1) :: e, false, world'⟩ := by
  apply executeWithoutContext_executes _ (by omega)
  simp only [skipUnless, fails, Bool.false_eq_true, if_false]
  rw [executeTwoSteps_of_lt (by omega)]
  exact executeNextStep_of_lt room

theorem repeatIf_holds (holds : condition world = (true, world')) (room : p + 3 < 256) :
    executeWithoutContext (repeatIf condition) ⟨(p + 2) :: e, (p + 2) :: e, false, world⟩ =
      some ⟨p :: e, (p + 3) :: e, true, world'⟩ := by
  apply executeWithoutContext_executes _ (by omega)
  have back : ((((p + 2 + 255) % 256 + 255) % 256 + 255) % 256 + 1) % 256 = p := by omega
  simp only [repeatIf, holds, if_true, executeThirdPreviousStep, executePreviousStep,
    executeNextStep, bind_some, back]

theorem repeatIf_fails (fails : condition world = (false, world')) (room : p + 1 < 256) :
    executeWithoutContext (repeatIf condition) ⟨p :: e, p :: e, false, world⟩ =
      some ⟨(p + 1) :: e, (p + 1) :: e, false, world'⟩ := by
  apply executeWithoutContext_executes _ room
  simp only [repeatIf, fails, Bool.false_eq_true, if_false, bind_some]
  exact executeNextStep_of_lt room

theorem assigns (counter : Variable σ) (value : σ → UInt32) (room : p + 1 < 256) :
    executeWithoutContext (assign counter value) ⟨p :: e, p :: e, false, world⟩ =
      some ⟨(p + 1) :: e, (p + 1) :: e, false, counter.set (value world) world⟩ := by
  apply executeWithoutContext_executes _ room
  simp only [assign, bind_some]
  exact executeNextStep_of_lt room

variable {counter : Variable σ} {last : σ → UInt32}

theorem skipWhenEqual_equal (equal : counter.get world = last world) (room : p + 3 < 256) :
    executeWithoutContext (skipWhenEqual counter last) ⟨p :: e, p :: e, false, world⟩ =
      some ⟨(p + 3) :: e, (p + 1) :: e, false, world⟩ := by
  apply executeWithoutContext_executes _ (by omega)
  simp only [skipWhenEqual, equal, if_true]
  rw [executeTwoSteps_of_lt (by omega)]
  exact executeNextStep_of_lt room

theorem skipWhenEqual_differs (differs : counter.get world ≠ last world) (room : p + 1 < 256) :
    executeWithoutContext (skipWhenEqual counter last) ⟨p :: e, p :: e, false, world⟩ =
      some ⟨(p + 1) :: e, (p + 1) :: e, false, world⟩ := by
  apply executeWithoutContext_executes _ room
  simp only [skipWhenEqual, differs, if_false, bind_some]
  exact executeNextStep_of_lt room

end

/-! ### What follows a branch that has been taken -/

variable {stop : Nat} {frames : Frames σ}

variable {q : Nat} {path : List Nat}

theorem ahead (behind : stop ≤ q) : Apart (q :: e) p stop e :=
  apart_of_le (t := []) behind

theorem tail_taken (otherwise : Otherwise σ) (p : Nat) (e : List Nat) (world : σ)
    (room : p + otherwise.size < 256) (fits : otherwise.Fits (e.length + 1)) :
    otherwise.tail ⟨p :: e, p :: e, false, world⟩ =
      some ⟨(p + otherwise.size) :: e, (p + otherwise.size) :: e, false, world⟩ := by
  cases otherwise with
  | endIf => exact passes_by room
  | elseIf condition body otherwise =>
    simp only [Otherwise.size] at room ⊢
    have check := skips_executeWithoutContext (e := e) (skipUnless condition)
      (show p + 1 + 1 < 256 by omega) ((p + 3) :: e) false world (ahead (by omega))
    have skipped := skips_body body (p + 1 + 1) e (by omega) fits.1.1 fits.1.2
      ((p + 3) :: e) false world (ahead (by omega))
    have further := tail_taken otherwise (p + 3) e world (by omega) fits.2
    rw [← Nat.add_assoc]
    simp only [Otherwise.tail, andThen, jumps_two (show p + 3 < 256 by omega), bind_some,
      check, skipped]
    exact further
  | elseBranch body =>
    simp only [Otherwise.size] at room ⊢
    have skipped := skips_body body (p + 1) e (by omega) fits.1 fits.2
      ((p + 2) :: e) false world (ahead (by omega))
    simp only [Otherwise.tail, andThen, jumps_one (show p + 2 < 256 by omega), bind_some,
      skipped]
    exact passes_by room

/-! ### What follows a body, however far it gets -/

def Reaches (statement : Statement σ) (p : Nat) (path : List Nat) (frames : Frames σ) : Prop :=
  Within statement p path frames ∨ path = [p + statement.size] ∧ frames = []

theorem Outcome.follow {inner position : List Nat → Frames σ → Prop} {least middle : Nat}
    {tail : Frames σ} {first next : Call σ} {s : Sequencer σ}
    (outcome : Ends (first s) inner least e middle frames world)
    (once : 1 ≤ least) (widen : ∀ path frames, inner path frames → position path (frames ++ tail))
    (skips : Skips next middle stop e)
    (goesOn : ∀ world', Ends (next ⟨middle :: e, middle :: e, false, world'⟩) position 0 e stop tail
      world')
    (nonempty : frames ≠ []) (order : middle ≤ stop) :
    Ends (Sequencing.andThen first next s) position 1 e stop (frames ++ tail) world := by
  obtain ⟨t, same, reached⟩ := outcome
  have both := reached.andThen once widen skips goesOn nonempty order
  simp only [Sequencing.andThen, same, bind_some]
  exact both

section

variable {body : Program σ} {frames : Frames σ} {x : List Nat}

/-- The body of a construct whose context is at position `p`, entered or gone on with. -/
abbrev BodyGoesOn (piece : Call σ) (inner : List Nat → Frames σ → Prop) (p : Nat) (e : List Nat)
    (frames : Frames σ) (world : σ) (x : List Nat) : Prop :=
  ∃ t, inContext piece ⟨x, p :: e, false, world⟩ = some t ∧
    Outcome (Nested inner p) 1 e (p + 1) frames world t

variable (condition : Condition σ)

theorem whileLoop_after_body (room : p + 3 < 256)
    (inside : BodyGoesOn body.sequence (At body 0) (p + 1) e frames world x)
    (nonempty : frames ≠ []) :
    Ends (andThen (inContext body.sequence) (executeWithoutContext executeThirdPreviousStep)
        ⟨x, (p + 1) :: e, false, world⟩) (Reaches (.whileLoop condition body) p) 1 e (p + 3)
      (frames ++ [.again condition body]) world := by
  apply Outcome.follow inside le_rfl _ (skips_executeWithoutContext _ room) _ nonempty
    (Nat.le_succ _)
  · intro path frames nested
    obtain ⟨path', same, within⟩ := nested
    exact .inl (same ▸ .whileLoop within)
  · intro world'
    exact ⟨_, jumps_back room, .repeated (t := []) .refl le_rfl (.inl .whileAgain) rfl
      (by omega)⟩

theorem doWhile_after_body (room : p + 3 < 256)
    (inside : BodyGoesOn body.sequence (At body 0) (p + 1) e frames world x)
    (nonempty : frames ≠ []) :
    Ends (andThen (inContext body.sequence) (executeWithoutContext (repeatIf condition))
        ⟨x, (p + 1) :: e, false, world⟩) (Reaches (.doWhile body condition) p) 1 e (p + 3)
      (frames ++ [.again condition body]) world := by
  apply Outcome.follow inside le_rfl _ (skips_executeWithoutContext _ room) _ nonempty
    (Nat.le_succ _)
  · intro path frames nested
    obtain ⟨path', same, within⟩ := nested
    exact .inl (same ▸ .doWhile within)
  · intro world'
    cases evaluated : condition world' with
    | mk holds world'' =>
      cases holds with
      | true =>
        refine ⟨_, repeatIf_holds evaluated room, .repeated (t := []) (.one ?_) (Nat.zero_le _)
          (.inl .doWhileAgain) rfl (by omega)⟩
        simp [advance, decideBy, evaluated]
      | false =>
        refine ⟨_, repeatIf_fails evaluated room, .finished (.one ?_)⟩
        simp [advance, decideBy, evaluated]

theorem forEach_after_body (counter : Variable σ) (first last : σ → UInt32) (room : p + 4 < 256)
    (inside : BodyGoesOn (countedBody counter body)
      (fun path frames => ∃ frames', frames = frames' ++ [.increment counter] ∧
        At body 0 path frames') (p + 2) e frames world x)
    (nonempty : frames ≠ []) :
    Ends (andThen (inContext (countedBody counter body))
        (executeWithoutContext executeThirdPreviousStep) ⟨x, (p + 2) :: e, false, world⟩)
      (Reaches (.forEach counter first last body) p) 1 e (p + 4)
      (frames ++ [.upTo counter last body]) world := by
  apply Outcome.follow inside le_rfl _ (skips_executeWithoutContext _ room) _ nonempty
    (Nat.le_succ _)
  · intro path frames nested
    obtain ⟨path', same, frames', split, within⟩ := nested
    rw [same, split, append_assoc]
    exact .inl (.forEach within)
  · intro world'
    exact ⟨_, jumps_back (p := p + 1) room, .repeated (t := []) .refl le_rfl (.inl .forEachAgain)
      rfl (by omega)⟩

variable {otherwise : Otherwise σ}

theorem branch_after_body (room : p + 2 + otherwise.size < 256)
    (fits : otherwise.Fits (e.length + 1))
    (inside : BodyGoesOn body.sequence (At body 0) (p + 1) e frames world x)
    (nonempty : frames ≠ []) :
    Ends (andThen (inContext body.sequence) otherwise.tail ⟨x, (p + 1) :: e, false, world⟩)
      (Reaches (.branch condition body otherwise) p) 1 e (p + 2 + otherwise.size) frames world := by
  rw [← append_nil frames]
  apply Outcome.follow inside le_rfl _ (skips_tail otherwise (p + 2) e room fits) _ nonempty
    (Nat.le_add_right _ _)
  · intro path frames nested
    obtain ⟨path', same, within⟩ := nested
    rw [append_nil]
    exact .inl (same ▸ .branch within)
  · intro world'
    exact ⟨_, tail_taken otherwise (p + 2) e world' room fits, .finished .refl⟩

theorem elseIf_after_body (room : p + 3 + otherwise.size < 256)
    (fits : otherwise.Fits (e.length + 1))
    (inside : BodyGoesOn body.sequence (At body 0) (p + 2) e frames world x)
    (nonempty : frames ≠ []) :
    Ends (andThen (inContext body.sequence) otherwise.tail ⟨x, (p + 2) :: e, false, world⟩)
      (Alternative (.elseIf condition body otherwise) p) 1 e (p + 3 + otherwise.size) frames
      world := by
  rw [← append_nil frames]
  apply Outcome.follow inside le_rfl _ (skips_tail otherwise (p + 3) e room fits) _ nonempty
    (Nat.le_add_right _ _)
  · intro path frames nested
    obtain ⟨path', same, within⟩ := nested
    rw [append_nil]
    exact same ▸ .elseIf within
  · intro world'
    exact ⟨_, tail_taken otherwise (p + 3) e world' room fits, .finished .refl⟩

theorem elseBranch_after_body (room : p + 3 < 256)
    (inside : BodyGoesOn body.sequence (At body 0) (p + 1) e frames world x)
    (nonempty : frames ≠ []) :
    Ends (andThen (inContext body.sequence) (executeWithoutContext some)
        ⟨x, (p + 1) :: e, false, world⟩) (Alternative (.elseBranch body) p) 1 e (p + 3) frames
      world := by
  rw [← append_nil frames]
  apply Outcome.follow inside le_rfl _ (skips_executeWithoutContext _ room) _ nonempty
    (Nat.le_succ _)
  · intro path frames nested
    obtain ⟨path', same, within⟩ := nested
    rw [append_nil]
    exact same ▸ .elseBranch within
  · intro world'
    exact ⟨_, passes_by room, .finished .refl⟩

end

/-! ### From the start of a piece -/

section

variable {body : Program σ} {x : List Nat}

theorem execute_positions (path : List Nat) (frames : Frames σ)
    (nested : Nested (At body 0) p path frames) : Reaches (.execute body) p path frames := by
  obtain ⟨path', same, within⟩ := nested
  exact .inl (same ▸ .execute within)

/-- The pass through a body in its context. -/
abbrev BodyStarts (body : Program σ) : Prop :=
  ∀ (p : Nat) (e : List Nat) (world : σ), body.size < 256 → body.Fits (e.length + 1 + 1) →
    ∃ t, body.sequence ⟨0 :: p :: e, 0 :: p :: e, false, world⟩ = some t ∧
      Outcome (At body 0) 1 (p :: e) (0 + body.size) [.run body] world t

theorem BodyStarts.of (starts : ∀ (e : List Nat) (world : σ), 0 + body.size < 256 →
    body.Fits (e.length + 1) → Ends (body.sequence ⟨0 :: e, 0 :: e, false, world⟩) (At body 0) 1 e
      (0 + body.size) [.run body] world) : BodyStarts body :=
  fun p e world narrow fits => starts (p :: e) world (by omega) fits

theorem BodyStarts.goesOn (starts : BodyStarts body) (world : σ) (room : p + 1 < 256)
    (narrow : body.size < 256) (fits : body.Fits (e.length + 1 + 1)) :
    BodyGoesOn body.sequence (At body 0) p e [.run body] world (p :: e) :=
  inContext_enters fits.contexts room (starts p e world narrow fits)

theorem counted_body (counter : Variable σ) {frames : Frames σ} (narrow : body.size + 1 < 256)
    (inside : Ends (body.sequence ⟨x, 0 :: p :: e, false, world⟩) (At body 0) 1 (p :: e)
      (0 + body.size) frames world) (nonempty : frames ≠ []) :
    Ends (countedBody counter body ⟨x, 0 :: p :: e, false, world⟩)
      (fun path frames => ∃ frames', frames = frames' ++ [.increment counter] ∧ At body 0 path
        frames') 1 (p :: e) (0 + body.size + 1) (frames ++ [.increment counter]) world := by
  have room : 0 + body.size + 1 < 256 := by omega
  apply Outcome.follow inside le_rfl _ (skips_executeWithoutContext _ room) _ nonempty
    (Nat.le_succ _)
  · intro path frames within
    exact ⟨frames, rfl, within⟩
  · intro world'
    exact ⟨_, assigns counter _ room, .finished (.one rfl)⟩

theorem whileLoop_turns (condition : Condition σ) (starts : BodyStarts body) (p : Nat)
    (e : List Nat) (world : σ) (room : p + 3 < 256) (narrow : body.size < 256)
    (fits : body.Fits (e.length + 1 + 1)) :
    Ends ((Statement.whileLoop condition body).sequence ⟨p :: e, p :: e, false, world⟩)
      (Reaches (.whileLoop condition body) p) 1 e (p + 3) [.again condition body] world := by
  rw [whileLoop_sequence]
  unfold andThen
  cases evaluated : condition world with
  | mk holds world' =>
    cases holds with
    | true =>
      have after := whileLoop_after_body condition room
        (starts.goesOn (e := e) world' (show p + 1 + 1 < 256 by omega) narrow fits)
        (cons_ne_nil _ _)
      have first : Quietly 1 [.again condition body] world
          ([.run body] ++ [.again condition body]) world' := by
        apply Quietly.one
        simp [advance, decideBy, evaluated]
      rw [skipUnless_holds evaluated (by omega), bind_some]
      exact after.behind first
    | false =>
      have skipped := skips_body body (p + 1) e (by omega) narrow fits ((p + 3) :: e) false
        world' (ahead (by omega))
      have last := skips_executeWithoutContext (σ := σ) (e := e) executeThirdPreviousStep
        (show p + 1 + 1 + 1 < 256 by omega) ((p + 3) :: e) false world' (ahead (by omega))
      rw [skipUnless_fails evaluated room, bind_some, skipped, bind_some]
      refine ⟨_, last, .finished (.one ?_)⟩
      simp [advance, decideBy, evaluated]

theorem doWhile_turns (condition : Condition σ) (starts : BodyStarts body) (p : Nat)
    (e : List Nat) (world : σ) (room : p + 3 < 256) (narrow : body.size < 256)
    (fits : body.Fits (e.length + 1 + 1)) :
    Ends ((Statement.doWhile body condition).sequence ⟨p :: e, p :: e, false, world⟩)
      (Reaches (.doWhile body condition) p) 1 e (p + 3) [.run body, .again condition body]
      world := by
  rw [doWhile_sequence]
  unfold andThen
  rw [passes_by (by omega), bind_some]
  exact doWhile_after_body condition room
    (starts.goesOn (e := e) world (show p + 1 + 1 < 256 by omega) narrow fits)
    (cons_ne_nil _ _)

theorem forEach_turns (counter : Variable σ) (first last : σ → UInt32)
    (starts : BodyStarts body) (p : Nat) (e : List Nat) (world : σ) (room : p + 4 < 256)
    (narrow : body.size + 1 < 256) (fits : body.Fits (e.length + 1 + 1)) :
    Ends (andThen (executeWithoutContext (skipWhenEqual counter last))
        (andThen (inContext (countedBody counter body))
          (executeWithoutContext executeThirdPreviousStep))
        ⟨(p + 1) :: e, (p + 1) :: e, false, world⟩)
      (Reaches (.forEach counter first last body) p) 1 e (p + 4) [.upTo counter last body]
      world := by
  unfold andThen
  by_cases equal : counter.get world = last world
  · have skipped := skips_countedBody counter body (p + 2) e (by omega) narrow fits
      ((p + 4) :: e) false world (ahead (by omega))
    have last := skips_executeWithoutContext (σ := σ) (e := e) executeThirdPreviousStep
      (show p + 3 + 1 < 256 by omega) ((p + 4) :: e) false world (ahead (by omega))
    rw [skipWhenEqual_equal equal (by omega), bind_some, skipped, bind_some]
    refine ⟨_, last, .finished (.one ?_)⟩
    simp [advance, equal]
  · have inside := counted_body counter narrow
      (starts (p + 2) e world (by omega) fits) (cons_ne_nil _ _)
    have after := forEach_after_body counter first last room
      (inContext_enters fits.contexts (by omega) inside) (by simp)
    have first : Quietly 1 [.upTo counter last body] world
        ([.run body] ++ [.increment counter] ++ [.upTo counter last body]) world := by
      apply Quietly.one
      simp [advance, equal]
    rw [skipWhenEqual_differs equal (by omega), bind_some]
    exact after.behind first

end

theorem next_goes_on {statement : Statement σ} {rest : Program σ} {x : List Nat}
    (first : Ends (statement.sequence ⟨x, p :: e, false, world⟩) (Reaches statement p) 1 e
      (p + statement.size) frames world)
    (then_ : ∀ world', Ends (rest.sequence
        ⟨(p + statement.size) :: e, (p + statement.size) :: e, false, world'⟩)
      (At rest (p + statement.size)) 1 e (p + statement.size + rest.size) [.run rest]
      world') (nonempty : frames ≠ []) (room : p + (Program.next statement rest).size < 256)
    (fits : rest.Fits (e.length + 1)) :
    Ends ((Program.next statement rest).sequence ⟨x, p :: e, false, world⟩)
      (At (.next statement rest) p) 1 e (p + (Program.next statement rest).size)
      (frames ++ [.run rest]) world := by
  simp only [Program.size, ← Nat.add_assoc] at room ⊢
  have skips := skips_program rest (p + statement.size) e room fits
  apply Outcome.follow first le_rfl _ skips _ nonempty (Nat.le_add_right _ _)
  · intro path frames reaches
    cases reaches with
    | inl within => exact .inside within
    | inr behind =>
      rw [behind.1, behind.2]
      exact .after .start
  · intro world'
    obtain ⟨t, same, outcome⟩ := then_ world'
    exact ⟨t, same, (outcome.map fun _ _ within => .after within).weaken (Nat.zero_le _)⟩

mutual

theorem program_starts (program : Program σ) (p : Nat) (e : List Nat) (world : σ)
    (room : p + program.size < 256) (fits : program.Fits (e.length + 1)) :
    Ends (program.sequence ⟨p :: e, p :: e, false, world⟩) (At program p) 1 e (p + program.size)
      [.run program] world := by
  match program with
  | .done => exact ⟨_, rfl, .finished (.one rfl)⟩
  | .next statement rest =>
    have sizes : p + statement.size + rest.size < 256 := by
      simp only [Program.size] at room
      omega
    have first := statement_starts statement p e world (by omega) fits.1
    exact (next_goes_on first
      (fun world' => program_starts rest (p + statement.size) e world' sizes fits.2)
      (cons_ne_nil _ _) room fits.2).behind (.one rfl)

theorem statement_starts (statement : Statement σ) (p : Nat) (e : List Nat) (world : σ)
    (room : p + statement.size < 256) (fits : statement.Fits (e.length + 1)) :
    Ends (statement.sequence ⟨p :: e, p :: e, false, world⟩) (Reaches statement p) 1 e
      (p + statement.size) [.perform statement] world := by
  match statement with
  | .step action =>
    simp only [Statement.size] at room ⊢
    refine ⟨⟨p :: e, (p + 1) :: e, false, action world⟩, ?_, ?_⟩
    · simp only [Statement.sequence, Sequencer.step, if_true]
      exact increaseCurrentStep_of_lt room
    · have next : Reaches (.step action) p ((p + 1) :: []) [] := .inr ⟨rfl, rfl⟩
      exact .stepped (t := []) .refl next room rfl (Nat.lt_succ_self p)
  | .execute body =>
    simp only [Statement.size] at room ⊢
    have starts : BodyStarts body := .of fun e => program_starts body 0 e
    simp only [Statement.sequence, execute_, Nat.sub_self, drop_zero, if_true]
    exact (Ends.map (starts.goesOn world room fits.1 fits.2) execute_positions).behind (.one rfl)
  | .branch condition body otherwise =>
    simp only [Statement.size, ← Nat.add_assoc] at room ⊢
    have positive := otherwise.size_pos
    rw [branch_sequence]
    unfold andThen
    cases evaluated : condition world with
    | mk holds world' =>
      cases holds with
      | true =>
        have starts : BodyStarts body := .of fun e => program_starts body 0 e
        have after := branch_after_body condition room fits.2
          (starts.goesOn (e := e) world' (show p + 1 + 1 < 256 by omega) fits.1.1 fits.1.2)
          (cons_ne_nil _ _)
        have first : Quietly 1 [.perform (.branch condition body otherwise)] world
            [.run body] world' := by
          apply Quietly.one
          simp [advance, decideBy, evaluated]
        rw [skipUnless_holds evaluated (by omega), bind_some]
        exact after.behind first
      | false =>
        have skipped := skips_body body (p + 1) e (by omega) fits.1.1 fits.1.2
          ((p + 3) :: e) false world' (ahead (by omega))
        have chooses := tail_chooses otherwise (p + 2) e world' room fits.2
        have first : Quietly 1 [.perform (.branch condition body otherwise)] world
            [.choose otherwise] world' := by
          apply Quietly.one
          simp [advance, decideBy, evaluated]
        rw [skipUnless_fails evaluated (by omega), bind_some, skipped, bind_some]
        exact (chooses.map fun _ _ within => .inl (.otherwise within)).behind first
  | .whileLoop condition body =>
    exact (whileLoop_turns condition (.of fun e => program_starts body 0 e) p e world room fits.1
      fits.2).behind (.one rfl)
  | .doWhile body condition =>
    exact (doWhile_turns condition (.of fun e => program_starts body 0 e) p e world room fits.1
      fits.2).behind (.one rfl)
  | .forEach counter first last body =>
    simp only [Statement.size] at room ⊢
    have turns := forEach_turns counter first last (.of fun e => program_starts body 0 e) p e
      (counter.set (first world) world) room fits.1 fits.2
    rw [forEach_sequence]
    unfold andThen
    rw [assigns counter first (by omega), bind_some]
    exact turns.behind (.one rfl)

theorem tail_chooses (otherwise : Otherwise σ) (p : Nat) (e : List Nat) (world : σ)
    (room : p + otherwise.size < 256) (fits : otherwise.Fits (e.length + 1)) :
    Ends (otherwise.tail ⟨(p + 1) :: e, p :: e, false, world⟩) (Alternative otherwise p) 1 e
      (p + otherwise.size) [.choose otherwise] world := by
  match otherwise with
  | .endIf =>
    exact ⟨_, skips_executeWithoutContext some room _ _ _ (ahead (by omega)),
      .finished (.one rfl)⟩
  | .elseIf condition body otherwise =>
    simp only [Otherwise.size, ← Nat.add_assoc] at room ⊢
    have first := skips_executeWithoutContext (σ := σ) (e := e) executeTwoSteps
      (show p + 1 < 256 by omega) ((p + 1) :: e) false world (ahead (by omega))
    unfold Otherwise.tail andThen
    rw [first, bind_some]
    cases evaluated : condition world with
    | mk holds world' =>
      cases holds with
      | true =>
        have starts : BodyStarts body := .of fun e => program_starts body 0 e
        have after := elseIf_after_body condition room fits.2
          (starts.goesOn (e := e) world' (show p + 2 + 1 < 256 by omega) fits.1.1 fits.1.2)
          (cons_ne_nil _ _)
        have quiet : Quietly 1 [.choose (.elseIf condition body otherwise)] world
            [.run body] world' := by
          apply Quietly.one
          simp [advance, decideBy, evaluated]
        rw [skipUnless_holds evaluated (by omega), bind_some]
        exact after.behind quiet
      | false =>
        have skipped := skips_body body (p + 2) e (by omega) fits.1.1 fits.1.2
          ((p + 4) :: e) false world' (ahead (by omega))
        have chooses := tail_chooses otherwise (p + 3) e world' room fits.2
        have quiet : Quietly 1 [.choose (.elseIf condition body otherwise)] world
            [.choose otherwise] world' := by
          apply Quietly.one
          simp [advance, decideBy, evaluated]
        have positive := otherwise.size_pos
        rw [skipUnless_fails evaluated (by omega), bind_some, skipped, bind_some]
        exact (chooses.map fun _ _ within => .further within).behind quiet
  | .elseBranch body =>
    simp only [Otherwise.size] at room ⊢
    have starts : BodyStarts body := .of fun e => program_starts body 0 e
    have first := skips_executeWithoutContext (σ := σ) (e := e) executeNextStep
      (show p + 1 < 256 by omega) ((p + 1) :: e) false world (ahead (by omega))
    have after := elseBranch_after_body room
      (starts.goesOn (e := e) world (show p + 1 + 1 < 256 by omega) fits.1 fits.2)
      (cons_ne_nil _ _)
    unfold Otherwise.tail andThen
    rw [first, bind_some]
    exact after.behind (.one rfl)

end

theorem body_starts (body : Program σ) : BodyStarts body := .of (program_starts body 0)

/-! ### From a position inside -/

def Level (p : Nat) (path : List Nat) (frames : Frames σ) : Prop :=
  ∃ t q, path = t ++ [q] ∧ p ≤ q ∧ frames ≠ []

theorem behind_skips {piece : Call σ} {first : Nat} (path : List Nat) (world : σ)
    (skips : Skips piece first stop e) (order : stop ≤ q) :
    piece ⟨path ++ [q] ++ e, first :: e, false, world⟩ =
      some ⟨path ++ [q] ++ e, stop :: e, false, world⟩ :=
  skips _ _ _ (apart_of_le order)

theorem Level.skips {path : List Nat} {frames : Frames σ} {piece : Call σ} {first stop : Nat}
    (level : Level p path frames) (world : σ) (skips : Skips piece first stop e)
    (order : stop ≤ p) :
    piece ⟨path ++ e, first :: e, false, world⟩ = some ⟨path ++ e, stop :: e, false, world⟩ := by
  obtain ⟨t, q, same, low, _⟩ := level
  rw [same]
  exact behind_skips t world skips (order.trans low)

theorem Level.nonempty (level : Level p path frames) : path ≠ [] := by
  obtain ⟨t, q, same, _, _⟩ := level
  simp [same]

mutual

theorem at_level {program : Program σ} {p : Nat} {path : List Nat} {frames : Frames σ}
    (within : At program p path frames) : Level p path frames := by
  match program, within with
  | _, .start => exact ⟨[], p, rfl, le_rfl, cons_ne_nil _ _⟩
  | .next statement rest, .inside within =>
    obtain ⟨t, q, same, low, _⟩ := within_level within
    exact ⟨t, q, same, low, by simp⟩
  | .next statement rest, .after within =>
    obtain ⟨t, q, same, low, some⟩ := at_level within
    exact ⟨t, q, same, by omega, some⟩

theorem within_level {statement : Statement σ} {p : Nat} {path : List Nat} {frames : Frames σ}
    (within : Within statement p path frames) : Level p path frames := by
  match statement, within with
  | .execute body, .execute within =>
    obtain ⟨_, _, _, _, some⟩ := at_level within
    exact ⟨_, _, rfl, le_rfl, some⟩
  | .branch condition body otherwise, .branch within =>
    obtain ⟨_, _, _, _, some⟩ := at_level within
    exact ⟨_, _, rfl, by omega, some⟩
  | .branch condition body otherwise, .otherwise within =>
    obtain ⟨t, q, same, low, some⟩ := alternative_level within
    exact ⟨t, q, same, by omega, some⟩
  | .whileLoop condition body, .whileLoop within => exact ⟨_, _, rfl, by omega, by simp⟩
  | .whileLoop condition body, .whileAgain => exact ⟨[], p, rfl, le_rfl, by simp⟩
  | .doWhile body condition, .doWhile within => exact ⟨_, _, rfl, by omega, by simp⟩
  | .doWhile body condition, .doWhileAgain => exact ⟨[], p, rfl, le_rfl, by simp⟩
  | .forEach counter first last body, .forEach within => exact ⟨_, _, rfl, by omega, by simp⟩
  | .forEach counter first last body, .forEachAgain =>
    exact ⟨[], p + 1, rfl, by omega, by simp⟩

theorem alternative_level {otherwise : Otherwise σ} {p : Nat} {path : List Nat}
    {frames : Frames σ} (within : Alternative otherwise p path frames) :
    Level p path frames := by
  match otherwise, within with
  | .elseIf condition body otherwise, .elseIf within =>
    obtain ⟨_, _, _, _, some⟩ := at_level within
    exact ⟨_, _, rfl, by omega, some⟩
  | .elseIf condition body otherwise, .further within =>
    obtain ⟨t, q, same, low, some⟩ := alternative_level within
    exact ⟨t, q, same, by omega, some⟩
  | .elseBranch body, .elseBranch within =>
    obtain ⟨_, _, _, _, some⟩ := at_level within
    exact ⟨_, _, rfl, by omega, some⟩

end

theorem body_goes_on {body : Program σ} (within : At body 0 path frames) (room : p + 1 < 256)
    (fits : body.Fits (e.length + 1 + 1))
    (resumes : Ends (body.sequence ⟨path ++ p :: e, 0 :: p :: e, false, world⟩) (At body 0) 1
      (p :: e) (0 + body.size) frames world) :
    BodyGoesOn body.sequence (At body 0) p e frames world (path ++ [p] ++ e) := by
  rw [append_assoc]
  exact inContext_resumes (at_level within).nonempty fits.contexts room resumes

mutual

theorem program_resumes {program : Program σ} {p : Nat} {path : List Nat} {frames : Frames σ}
    (within : At program p path frames) (e : List Nat) (world : σ)
    (room : p + program.size < 256) (fits : program.Fits (e.length + 1)) :
    Ends (program.sequence ⟨path ++ e, p :: e, false, world⟩) (At program p) 1 e (p + program.size)
      frames world := by
  match program, within with
  | program, .start => exact program_starts program p e world room fits
  | .next statement rest, .inside inner =>
    obtain ⟨_, _, _, _, some⟩ := within_level inner
    have sizes : p + statement.size + rest.size < 256 := by
      simp only [Program.size] at room
      omega
    exact next_goes_on (statement_resumes inner e world (by omega) fits.1)
      (fun world' => program_starts rest (p + statement.size) e world' sizes fits.2)
      some room fits.2
  | .next statement rest, .after inner =>
    have sizes : p + statement.size + rest.size < 256 := by
      simp only [Program.size] at room
      omega
    have skipped := (at_level inner).skips world
      (skips_statement statement p e (by omega) fits.1) le_rfl
    simp only [Program.sequence, skipped, bind_some, Program.size, ← Nat.add_assoc]
    exact (program_resumes inner e world sizes fits.2).map fun _ _ within => .after within

theorem statement_resumes {statement : Statement σ} {p : Nat} {path : List Nat}
    {frames : Frames σ} (within : Within statement p path frames) (e : List Nat) (world : σ)
    (room : p + statement.size < 256) (fits : statement.Fits (e.length + 1)) :
    Ends (statement.sequence ⟨path ++ e, p :: e, false, world⟩) (Reaches statement p) 1 e
      (p + statement.size) frames world := by
  match statement, within with
  | .execute body, @Within.execute _ _ _ path _ inner =>
    simp only [Statement.size] at room ⊢
    have goesOn := body_goes_on inner room fits.2
      (program_resumes inner (p :: e) world (by have := fits.1; omega) fits.2)
    have prefixed : (path ++ [p] ++ e).drop ((path ++ [p] ++ e).length - (p :: e).length) =
        p :: e := by simp
    simp only [Statement.sequence, execute_, prefixed, if_true]
    exact Ends.map goesOn execute_positions
  | .branch condition body otherwise, @Within.branch _ _ _ _ _ path _ inner =>
    obtain ⟨_, _, _, _, some⟩ := at_level inner
    simp only [Statement.size, ← Nat.add_assoc] at room ⊢
    have skipped := behind_skips path world (e := e)
      (skips_executeWithoutContext (skipUnless condition) (show p + 1 < 256 by omega)) le_rfl
    rw [branch_sequence]
    unfold andThen
    rw [skipped, bind_some]
    exact branch_after_body condition room fits.2
      (body_goes_on inner (by omega) fits.1.2
        (program_resumes inner ((p + 1) :: e) world (by have := fits.1.1; omega) fits.1.2)) some
  | .branch condition body otherwise, .otherwise inner =>
    simp only [Statement.size, ← Nat.add_assoc] at room ⊢
    have level := alternative_level inner
    have skipped := level.skips world
      (skips_executeWithoutContext (e := e) (skipUnless condition)
        (show p + 1 < 256 by omega)) (by omega)
    have body_skipped := level.skips world
      (skips_body body (p + 1) e (by omega) fits.1.1 fits.1.2) le_rfl
    rw [branch_sequence]
    unfold andThen
    rw [skipped, bind_some, body_skipped, bind_some]
    exact (tail_resumes inner e world room fits.2).map fun _ _ within => .inl (.otherwise within)
  | .whileLoop condition body, @Within.whileLoop _ _ _ _ path _ inner =>
    obtain ⟨_, _, _, _, some⟩ := at_level inner
    simp only [Statement.size] at room ⊢
    have skipped := behind_skips path world (e := e)
      (skips_executeWithoutContext (skipUnless condition) (show p + 1 < 256 by omega)) le_rfl
    rw [whileLoop_sequence]
    unfold andThen
    rw [skipped, bind_some]
    exact whileLoop_after_body condition room
      (body_goes_on inner (by omega) fits.2
        (program_resumes inner ((p + 1) :: e) world (by have := fits.1; omega) fits.2)) some
  | .whileLoop condition body, .whileAgain =>
    exact whileLoop_turns condition (body_starts body) p e world room fits.1 fits.2
  | .doWhile body condition, @Within.doWhile _ _ _ _ path _ inner =>
    obtain ⟨_, _, _, _, some⟩ := at_level inner
    simp only [Statement.size] at room ⊢
    have skipped := behind_skips path world (e := e)
      (skips_executeWithoutContext (σ := σ) .some (show p + 1 < 256 by omega)) le_rfl
    rw [doWhile_sequence]
    unfold andThen
    rw [skipped, bind_some]
    exact doWhile_after_body condition room
      (body_goes_on inner (by omega) fits.2
        (program_resumes inner ((p + 1) :: e) world (by have := fits.1; omega) fits.2)) some
  | .doWhile body condition, .doWhileAgain =>
    exact doWhile_turns condition (body_starts body) p e world room fits.1 fits.2
  | .forEach counter first last body, @Within.forEach _ _ _ _ _ _ path _ inner =>
    obtain ⟨_, _, _, _, some⟩ := at_level inner
    simp only [Statement.size] at room ⊢
    have narrow := fits.1
    have assigned := behind_skips (q := p + 2) path world (e := e)
      (skips_executeWithoutContext (assign counter first) (show p + 1 < 256 by omega))
      (by omega)
    have compared := behind_skips path world (e := e)
      (skips_executeWithoutContext (skipWhenEqual counter last)
        (show p + 1 + 1 < 256 by omega)) le_rfl
    have counted := counted_body counter narrow
      (program_resumes inner ((p + 2) :: e) world (by omega) fits.2) some
    have inside := inContext_resumes (at_level inner).nonempty fits.2.contexts
      (show p + 2 + 1 < 256 by omega) counted
    obtain ⟨t, same, outcome⟩ := forEach_after_body counter first last room inside (by simp)
    rw [forEach_sequence]
    unfold andThen
    rw [assigned, bind_some, compared, bind_some]
    refine ⟨t, ?_, ?_⟩
    · rw [append_assoc]
      exact same
    · simpa using outcome
  | .forEach counter first last body, .forEachAgain =>
    simp only [Statement.size] at room ⊢
    have assigned := behind_skips (q := p + 1) [] world (e := e)
      (skips_executeWithoutContext (assign counter first) (show p + 1 < 256 by omega)) le_rfl
    have turns := forEach_turns counter first last (body_starts body) p e world room fits.1
      fits.2
    rw [forEach_sequence]
    unfold andThen
    rw [nil_append] at assigned
    rw [assigned, bind_some]
    exact turns

theorem tail_resumes {otherwise : Otherwise σ} {p : Nat} {path : List Nat} {frames : Frames σ}
    (within : Alternative otherwise p path frames) (e : List Nat) (world : σ)
    (room : p + otherwise.size < 256) (fits : otherwise.Fits (e.length + 1)) :
    Ends (otherwise.tail ⟨path ++ e, p :: e, false, world⟩) (Alternative otherwise p) 1 e
      (p + otherwise.size) frames world := by
  match otherwise, within with
  | .elseIf condition body otherwise, @Alternative.elseIf _ _ _ _ _ path _ inner =>
    obtain ⟨_, _, _, _, some⟩ := at_level inner
    simp only [Otherwise.size, ← Nat.add_assoc] at room ⊢
    have jump := behind_skips (q := p + 2) path world (e := e)
      (skips_executeWithoutContext (σ := σ) executeTwoSteps (show p + 1 < 256 by omega))
      (by omega)
    have skipped := behind_skips path world (e := e)
      (skips_executeWithoutContext (skipUnless condition) (show p + 1 + 1 < 256 by omega))
      le_rfl
    unfold Otherwise.tail andThen
    rw [jump, bind_some, skipped, bind_some]
    exact elseIf_after_body condition room fits.2
      (body_goes_on inner (by omega) fits.1.2
        (program_resumes inner ((p + 2) :: e) world (by have := fits.1.1; omega) fits.1.2)) some
  | .elseIf condition body otherwise, .further inner =>
    simp only [Otherwise.size, ← Nat.add_assoc] at room ⊢
    have level := alternative_level inner
    have jump := level.skips world
      (skips_executeWithoutContext (σ := σ) (e := e) executeTwoSteps
        (show p + 1 < 256 by omega)) (by omega)
    have skipped := level.skips world
      (skips_executeWithoutContext (e := e) (skipUnless condition)
        (show p + 1 + 1 < 256 by omega)) (by omega)
    have body_skipped := level.skips world
      (skips_body body (p + 2) e (by omega) fits.1.1 fits.1.2) le_rfl
    unfold Otherwise.tail andThen
    rw [jump, bind_some, skipped, bind_some, body_skipped, bind_some]
    exact (tail_resumes inner e world room fits.2).map fun _ _ within => .further within
  | .elseBranch body, @Alternative.elseBranch _ _ _ path _ inner =>
    obtain ⟨_, _, _, _, some⟩ := at_level inner
    simp only [Otherwise.size] at room ⊢
    have jump := behind_skips path world (e := e)
      (skips_executeWithoutContext (σ := σ) executeNextStep (show p + 1 < 256 by omega)) le_rfl
    unfold Otherwise.tail andThen
    rw [jump, bind_some]
    exact elseBranch_after_body room
      (body_goes_on inner (by omega) fits.2
        (program_resumes inner ((p + 1) :: e) world (by have := fits.1; omega) fits.2)) some

end

end Sequencing
