import EmbeddedInfra.Sequencing.Performs

/-! The calls of `Load` and `Continue` against direct execution of the program. -/

namespace Sequencing

open Sequencer

variable {σ : Type}

/-- One `Continue` for each completed step, until the program is finished. Before each call the
world may change. Each call reports the world it leaves and whether the program is finished. -/
def Sequencer.continues (sequence : Call σ) (limit : Nat) :
    Sequencer σ → List (σ → σ) → Except Stop (List (σ × Bool))
  | _, [] => .ok []
  | s, change :: changes =>
    if s.finished then .ok []
    else
      (continue_ sequence limit { s with world := change s.world }).bind fun t =>
        (continues sequence limit t changes).map fun rest => (t.world, t.finished) :: rest

def Sequencer.calls (sequence : Call σ) (limit : Nat) (s : Sequencer σ)
    (changes : List (σ → σ)) : Except Stop (List (σ × Bool)) :=
  (load sequence limit s).bind fun t =>
    (continues sequence limit t changes).map fun rest => (t.world, t.finished) :: rest

/-- Direct execution, which pauses after each step. -/
def resumes (limit : Nat) : Frames σ → σ → List (σ → σ) → Option (List (σ × Bool))
  | _, _, [] => some []
  | frames, world, change :: changes =>
    if frames.isEmpty then some []
    else
      (resume limit frames (change world)).bind fun (frames, world) =>
        (resumes limit frames world changes).map fun rest => (world, frames.isEmpty) :: rest

def Program.performs (program : Program σ) (limit : Nat) (world : σ) (changes : List (σ → σ)) :
    Option (List (σ × Bool)) :=
  (resume limit [.run program] world).bind fun (frames, world) =>
    (resumes limit frames world changes).map fun rest => (world, frames.isEmpty) :: rest

section

variable {frames frames' : Frames σ} {world world' : σ} {result : Frames σ × σ}

theorem resume_advance (limit : Nat) (first : advance frames world = some (frames', world')) :
    resume (limit + 1) frames world = resume limit frames' world' := by
  cases frames with
  | nil => cases first
  | cons frame frames =>
    rw [resume, first]
    · rfl
    · intro action same
      rw [same] at first
      cases first

variable {count : Nat}

theorem resume_of_quietly {limit : Nat} (quiet : Quietly count frames world frames' world')
    (resumed : resume limit frames world = some result) :
    ∃ rest, limit = count + rest ∧ resume rest frames' world' = some result := by
  induction quiet generalizing limit with
  | refl => exact ⟨limit, (Nat.zero_add limit).symm, resumed⟩
  | head first _ ih =>
    cases limit with
    | zero => cases resumed
    | succ limit =>
      rw [resume_advance limit first] at resumed
      obtain ⟨rest, split, later⟩ := ih resumed
      exact ⟨rest, by omega, later⟩

theorem resume_quietly (limit : Nat) (quiet : Quietly count frames world frames' world') :
    resume (count + limit) frames world = resume limit frames' world' := by
  induction quiet with
  | refl => rw [Nat.zero_add]
  | @head count _ _ _ _ _ _ first _ ih =>
    rw [Nat.add_right_comm, resume_advance (count + limit) first]
    exact ih

end

section

variable {program : Program σ} {path : List Nat} {frames frames' : Frames σ} {world world' : σ}
  {r : Bool}

/-- What is left of the sequencer after a pass, and what has been executed directly meanwhile. -/
inductive PassEnds (program : Program σ) (frames : Frames σ) (world : σ) : Sequencer σ → Prop
  | finished {count : Nat} {world' : σ} (quiet : Quietly count frames world [] world') :
      PassEnds program frames world ⟨[], [], false, world'⟩
  | stepped {count : Nat} {world' : σ} {action : σ → σ} {frames' : Frames σ} {back : Nat}
      {outer : List Nat}
      (quiet : Quietly count frames world (.perform (.step action) :: frames') world')
      (next : At program 0 ((back + 1) :: outer) frames') (small : back + 1 < 256) :
      PassEnds program frames world ⟨back :: outer, [], false, action world'⟩
  | repeated {count : Nat} {world' : σ} {frames' : Frames σ} {path : List Nat}
      (quiet : Quietly count frames world frames' world') (progress : 1 ≤ count)
      (next : At program 0 path frames') : PassEnds program frames world ⟨path, [], true, world'⟩

/-- `Load` starts a program that `Continue` goes on with. -/
def Enters (x path : List Nat) : Prop := x = path ∨ x = [] ∧ path = [0]

variable {x : List Nat} {t : Sequencer σ}

theorem popContext_leaves {n : Nat} (apart : x ≠ [n]) :
    popContext (σ := σ) ⟨x, [n], r, world⟩ = some ⟨x, [], r, world⟩ := by
  simp only [popContext, apart, if_false, if_true, Option.bind_some]

theorem below_end {t : List Nat} {q stop : Nat} (below : q < stop) : t ++ [q] ≠ [stop] := by
  have before : Apart (t ++ [q] ++ []) stop (stop + 1) [] := apart_of_lt below
  rw [List.append_nil] at before
  exact before.ne (Nat.lt_succ_self _)

theorem pass_ends (fits : program.WellSized) (within : At program 0 path frames) (r : Bool)
    (world : σ) (enters : Enters x path) :
    ∃ t, pass program.sequence ⟨x, [], r, world⟩ = some t ∧ PassEnds program frames world t := by
  obtain ⟨t, same, outcome⟩ := program_resumes within [] world (by simpa using fits.1) fits.2
  rw [List.append_nil] at same
  have pushed : pushContext (σ := σ) ⟨x, [], false, world⟩ = some ⟨path, [0], false, world⟩ := by
    cases enters with
    | inl entered =>
      rw [entered]
      exact pushContext_skips (at_level within).nonempty (by decide)
    | inr starts =>
      rw [starts.1, starts.2]
      rfl
  simp only [Sequencer.pass, pushed, Option.bind_some, same]
  cases outcome with
  | finished quiet => exact ⟨_, by simp [popContext], .finished quiet⟩
  | @stepped count world' action frames' back q outer t quiet next small level below =>
    rw [List.append_nil]
    exact ⟨_, popContext_leaves (level ▸ below_end below), .stepped quiet next small⟩
  | @repeated count world' frames' path t q quiet progress next level below =>
    rw [List.append_nil]
    exact ⟨_, popContext_leaves (level ▸ below_end below), .repeated quiet progress next⟩

def Corresponds (program : Program σ) (t : Sequencer σ) (frames : Frames σ) : Prop :=
  t.execute = [] ∧ frames = [] ∨ At program 0 t.execute frames

theorem Corresponds.finished (corresponds : Corresponds program t frames) :
    t.finished = frames.isEmpty := by
  cases corresponds with
  | inl ended =>
    rw [Sequencer.finished, ended.1, ended.2]
    rfl
  | inr within =>
    obtain ⟨_, _, _, _, some⟩ := at_level within
    have running := (at_level within).nonempty
    rw [Sequencer.finished, Bool.eq_iff_iff, List.isEmpty_iff, List.isEmpty_iff]
    exact iff_of_false running some

/-- `ExecuteNextStep` at the end of `Continue`, for a program that is not finished. -/
def afterPasses (t : Sequencer σ) : Except Stop (Sequencer σ) :=
  if t.finished then .ok t
  else
    match executeNextStep t with
    | none => .error .assertion
    | some t => .ok t

theorem continue_eq (sequence : Call σ) (limit : Nat) (s : Sequencer σ) :
    continue_ sequence limit s =
      (passes sequence limit { s with examine := [] }).bind afterPasses := by
  unfold continue_ afterPasses
  cases passes sequence limit { s with examine := [] } with
  | error stop | ok t => rfl

theorem passes_succ {sequence : Call σ} {s : Sequencer σ} (limit : Nat)
    (passed : pass sequence s = some t) :
    passes sequence (limit + 1) s = if t.repeats then passes sequence limit t else .ok t := by
  simp only [passes, passed]

theorem afterPasses_stepped {back : Nat} {outer : List Nat} (small : back + 1 < 256) :
    afterPasses ⟨back :: outer, [], false, world⟩ =
      .ok ⟨(back + 1) :: outer, [], false, world⟩ := by
  simp only [afterPasses, Sequencer.finished, List.isEmpty_cons, Bool.false_eq_true, if_false,
    executeNextStep, Nat.mod_eq_of_lt small]

theorem never_asserts (limit : Nat) (fits : program.WellSized) (within : At program 0 path frames)
    (enters : Enters x path) :
    (passes program.sequence limit ⟨x, [], r, world⟩).bind afterPasses ≠ .error .assertion := by
  induction limit generalizing path frames world x r with
  | zero => nofun
  | succ limit ih =>
    obtain ⟨t, passed, ends⟩ := pass_ends fits within r world enters
    rw [passes_succ limit passed]
    cases ends with
    | finished quiet => nofun
    | stepped quiet next small =>
      simp only [Bool.false_eq_true, if_false, Except.bind, afterPasses_stepped small]
      nofun
    | repeated quiet progress next => exact ih next (.inl rfl)

theorem passes_sound (limit : Nat) (fits : program.WellSized) (within : At program 0 path frames)
    (enters : Enters x path)
    (returns : (passes program.sequence limit ⟨x, [], r, world⟩).bind afterPasses = .ok t) :
    ∃ count frames', resume count frames world = some (frames', t.world) ∧
      Corresponds program t frames' := by
  induction limit generalizing path frames world x r with
  | zero => cases returns
  | succ limit ih =>
    obtain ⟨passed, same, ends⟩ := pass_ends fits within r world enters
    rw [passes_succ limit same] at returns
    cases ends with
    | @finished count world' quiet =>
      cases returns
      refine ⟨count + 1, [], ?_, .inl ⟨rfl, rfl⟩⟩
      rw [resume_quietly 1 quiet]
      rfl
    | @stepped count world' action frames' back outer quiet next small =>
      simp only [Bool.false_eq_true, if_false, Except.bind, afterPasses_stepped small] at returns
      cases returns
      refine ⟨count + 1, frames', ?_, .inr next⟩
      rw [resume_quietly 1 quiet]
      rfl
    | @repeated count world' frames' path quiet progress next =>
      obtain ⟨rest, frames'', resumed, corresponds⟩ := ih next (.inl rfl) returns
      refine ⟨count + rest, frames'', ?_, corresponds⟩
      rw [resume_quietly rest quiet]
      exact resumed

theorem passes_complete (count : Nat) (fits : program.WellSized) (within : At program 0 path frames)
    (enters : Enters x path) (resumed : resume count frames world = some (frames', world')) :
    ∃ limit t, (passes program.sequence limit ⟨x, [], r, world⟩).bind afterPasses = .ok t ∧
      t.world = world' ∧ Corresponds program t frames' := by
  induction count using Nat.strongRecOn generalizing path frames world x r with
  | ind count ih =>
    obtain ⟨passed, same, ends⟩ := pass_ends fits within r world enters
    cases ends with
    | finished quiet =>
      obtain ⟨rest, _, last⟩ := resume_of_quietly quiet resumed
      refine ⟨1, _, by rw [passes_succ 0 same]; rfl, ?_⟩
      cases rest with
      | zero => cases last
      | succ rest =>
        cases last
        exact ⟨rfl, .inl ⟨rfl, rfl⟩⟩
    | stepped quiet next small =>
      obtain ⟨rest, _, last⟩ := resume_of_quietly quiet resumed
      refine ⟨1, _, by rw [passes_succ 0 same]; exact afterPasses_stepped small, ?_⟩
      cases rest with
      | zero => cases last
      | succ rest =>
        cases last
        exact ⟨rfl, .inr next⟩
    | repeated quiet progress next =>
      obtain ⟨rest, split, later⟩ := resume_of_quietly quiet resumed
      obtain ⟨limit, t, returns, reached⟩ := ih rest (by omega) next (.inl rfl) later
      refine ⟨limit + 1, t, ?_, reached⟩
      rw [passes_succ limit same]
      exact returns

end

variable {sequence : Call σ} {limit more : Nat} {s : Sequencer σ}

variable {t : Sequencer σ} {frames : Frames σ} {world : σ} {α β ε : Type} {first : Except ε α}
  {result : β} {changes : List (σ → σ)} {worlds : List (σ × Bool)}

theorem passes_mono (returns : passes sequence limit s = .ok t) (larger : limit ≤ more) :
    passes sequence more s = .ok t := by
  induction limit generalizing s more with
  | zero => cases returns
  | succ limit ih =>
    obtain ⟨more, rfl⟩ : ∃ rest, more = rest + 1 := ⟨more - 1, by omega⟩
    simp only [passes] at returns ⊢
    split at returns
    next => cases returns
    next passed =>
      split at returns
      next repeats => exact (if_pos repeats).trans (ih returns (by omega))
      next single => exact (if_neg single).trans returns

theorem continue_mono (returns : continue_ sequence limit s = .ok t) (larger : limit ≤ more) :
    continue_ sequence more s = .ok t := by
  rw [continue_eq] at returns ⊢
  cases passed : passes sequence limit { s with examine := [] } with
  | error stop =>
    rw [passed] at returns
    cases returns
  | ok u =>
    rw [passed] at returns
    rw [passes_mono passed larger]
    exact returns

theorem resume_mono {result : Frames σ × σ} (resumed : resume limit frames world = some result)
    (larger : limit ≤ more) :
    resume more frames world = some result := by
  induction limit generalizing frames world more with
  | zero => cases resumed
  | succ limit ih =>
    obtain ⟨more, rfl⟩ : ∃ rest, more = rest + 1 := ⟨more - 1, by omega⟩
    cases frames with
    | nil => exact resumed
    | cons frame frames =>
      by_cases steps : ∃ action, frame = .perform (.step action)
      · obtain ⟨action, rfl⟩ := steps
        exact resumed
      · have other : ∀ action : σ → σ, frame = .perform (.step action) → False :=
          fun action same => steps ⟨action, same⟩
        have unfolds : ∀ count, resume (count + 1) (frame :: frames) world =
            (advance (frame :: frames) world).bind fun next => resume count next.1 next.2 := by
          intro count
          rw [resume]
          exact other
        rw [unfolds] at resumed ⊢
        obtain ⟨next, first, later⟩ := Option.bind_eq_some_iff.mp resumed
        rw [first]
        exact ih later (by omega)

theorem bind_eq_ok {next : α → Except ε β} :
    first.bind next = .ok result ↔ ∃ value, first = .ok value ∧ next value = .ok result := by
  cases first with
  | error | ok value => simp [Except.bind]

theorem map_eq_ok {next : α → β} :
    first.map next = .ok result ↔ ∃ value, first = .ok value ∧ next value = result := by
  cases first with
  | error | ok value => simp [Except.map]

theorem continues_mono (returns : continues sequence limit s changes = .ok worlds)
    (larger : limit ≤ more) :
    continues sequence more s changes = .ok worlds := by
  induction changes generalizing s worlds with
  | nil => exact returns
  | cons change changes ih =>
    simp only [continues] at returns ⊢
    split at returns
    next finished => exact (if_pos finished).trans returns
    next running =>
      rw [if_neg running]
      obtain ⟨t, called, later⟩ := bind_eq_ok.mp returns
      obtain ⟨rest, same, listed⟩ := map_eq_ok.mp later
      rw [continue_mono called larger]
      exact map_eq_ok.mpr ⟨rest, ih same, listed⟩

theorem resumes_mono (returns : resumes limit frames world changes = some worlds)
    (larger : limit ≤ more) :
    resumes more frames world changes = some worlds := by
  induction changes generalizing frames world worlds with
  | nil => exact returns
  | cons change changes ih =>
    simp only [resumes] at returns ⊢
    split at returns
    next finished => exact (if_pos finished).trans returns
    next running =>
      rw [if_neg running]
      obtain ⟨next, resumed, later⟩ := Option.bind_eq_some_iff.mp returns
      obtain ⟨rest, same, listed⟩ := Option.map_eq_some_iff.mp later
      rw [resume_mono resumed larger]
      exact Option.map_eq_some_iff.mpr ⟨rest, ih same, listed⟩

section

variable {program : Program σ} {frames : Frames σ}

variable {s : Sequencer σ} {limit : Nat} {changes : List (σ → σ)} {worlds : List (σ × Bool)}

theorem continue_never_asserts (fits : program.WellSized) (within : At program 0 s.execute frames)
    (limit : Nat) :
    continue_ program.sequence limit s ≠ .error .assertion := by
  rw [continue_eq]
  exact never_asserts limit fits within (.inl rfl)

section

variable (fits : program.WellSized) (corresponds : Corresponds program s frames)

include fits corresponds

theorem continues_never_asserts (limit : Nat) (changes : List (σ → σ)) :
    continues program.sequence limit s changes ≠ .error .assertion := by
  induction changes generalizing s frames with
  | nil => nofun
  | cons change changes ih =>
    simp only [continues]
    split
    next => nofun
    next running =>
      cases corresponds with
      | inl ended => exact absurd (by simp [Sequencer.finished, ended.1]) running
      | inr within =>
        cases called : continue_ program.sequence limit { s with world := change s.world } with
        | error stop =>
          have fine := continue_never_asserts fits
            (s := { s with world := change s.world }) within limit
          rw [called] at fine
          intro same
          cases same
          exact fine rfl
        | ok t =>
          have returns := called
          rw [continue_eq] at returns
          obtain ⟨_, frames', _, after⟩ := passes_sound limit fits within (.inl rfl) returns
          have later := ih after
          simp only [Except.bind]
          cases rest : continues program.sequence limit t changes with
          | error stop =>
            rw [rest] at later
            exact later
          | ok worlds => nofun

theorem continues_sound (returns : continues program.sequence limit s changes = .ok worlds) :
    ∃ count, resumes count frames s.world changes = some worlds := by
  induction changes generalizing s frames worlds with
  | nil =>
    cases returns
    exact ⟨0, rfl⟩
  | cons change changes ih =>
    simp only [continues] at returns
    simp only [resumes, ← corresponds.finished]
    split at returns
    next finished =>
      cases returns
      exact ⟨0, if_pos finished⟩
    next running =>
      cases corresponds with
      | inl ended => exact absurd (by simp [Sequencer.finished, ended.1]) running
      | inr within =>
        obtain ⟨t, called, later⟩ := bind_eq_ok.mp returns
        obtain ⟨rest, same, listed⟩ := map_eq_ok.mp later
        rw [continue_eq] at called
        obtain ⟨count, frames', resumed, after⟩ :=
          passes_sound limit fits within (.inl rfl) called
        obtain ⟨count', others⟩ := ih after same
        refine ⟨max count count', ?_⟩
        rw [if_neg running, resume_mono resumed (Nat.le_max_left _ _), Option.bind_some,
          resumes_mono others (Nat.le_max_right _ _), ← after.finished]
        exact congrArg some listed

theorem continues_complete {count : Nat}
    (returns : resumes count frames s.world changes = some worlds) :
    ∃ limit, continues program.sequence limit s changes = .ok worlds := by
  induction changes generalizing s frames worlds with
  | nil =>
    cases returns
    exact ⟨0, rfl⟩
  | cons change changes ih =>
    simp only [resumes, ← corresponds.finished] at returns
    simp only [continues]
    split at returns
    next finished =>
      cases returns
      exact ⟨0, if_pos finished⟩
    next running =>
      cases corresponds with
      | inl ended => exact absurd (by simp [Sequencer.finished, ended.1]) running
      | inr within =>
        obtain ⟨⟨frames', world'⟩, resumed, later⟩ := Option.bind_eq_some_iff.mp returns
        obtain ⟨rest, same, listed⟩ := Option.map_eq_some_iff.mp later
        obtain ⟨limit, t, called, left, after⟩ :=
          passes_complete (r := s.repeats) count fits within (.inl rfl) resumed
        rw [← left] at same
        obtain ⟨limit', others⟩ := ih after same
        have call : continue_ program.sequence limit { s with world := change s.world } =
            .ok t := by
          rw [continue_eq]
          exact called
        refine ⟨max limit limit', ?_⟩
        rw [if_neg running, continue_mono call (Nat.le_max_left _ _)]
        refine map_eq_ok.mpr ⟨rest, continues_mono others (Nat.le_max_right _ _), ?_⟩
        rw [after.finished, left]
        exact listed

end

theorem load_eq (sequence : Call σ) (limit : Nat) (s : Sequencer σ) :
    load sequence limit s =
      (passes sequence limit ⟨[], [], s.repeats, s.world⟩).bind afterPasses :=
  continue_eq sequence limit { s with execute := [] }

theorem load_mono {sequence : Call σ} {more : Nat} {t : Sequencer σ}
    (returns : load sequence limit s = .ok t) (larger : limit ≤ more) :
    load sequence more s = .ok t :=
  continue_mono returns larger

theorem calls_never_assert (fits : program.WellSized) (s : Sequencer σ) (limit : Nat)
    (changes : List (σ → σ)) : calls program.sequence limit s changes ≠ .error .assertion := by
  unfold calls
  cases loaded : load program.sequence limit s with
  | error stop =>
    have fine : (passes program.sequence limit ⟨[], [], s.repeats, s.world⟩).bind afterPasses ≠
        .error .assertion := never_asserts limit fits .start (.inr ⟨rfl, rfl⟩)
    rw [← load_eq, loaded] at fine
    intro same
    cases same
    exact fine rfl
  | ok t =>
    have returns := loaded
    rw [load_eq] at returns
    obtain ⟨_, _, _, after⟩ := passes_sound limit fits .start (.inr ⟨rfl, rfl⟩) returns
    have later := continues_never_asserts fits after limit changes
    simp only [Except.bind]
    cases rest : continues program.sequence limit t changes with
    | error stop =>
      rw [rest] at later
      intro same
      cases same
      exact later rfl
    | ok worlds => nofun

theorem calls_sound (fits : program.WellSized)
    (returns : calls program.sequence limit s changes = .ok worlds) :
    ∃ count, program.performs count s.world changes = some worlds := by
  obtain ⟨t, loaded, later⟩ := bind_eq_ok.mp returns
  obtain ⟨rest, same, listed⟩ := map_eq_ok.mp later
  rw [load_eq] at loaded
  obtain ⟨count, frames', resumed, after⟩ :=
    passes_sound limit fits .start (.inr ⟨rfl, rfl⟩) loaded
  obtain ⟨count', others⟩ := continues_sound fits after same
  refine ⟨max count count', ?_⟩
  rw [Program.performs, resume_mono resumed (Nat.le_max_left _ _), Option.bind_some]
  dsimp only
  rw [resumes_mono others (Nat.le_max_right _ _), ← after.finished]
  exact congrArg some listed

theorem calls_complete (fits : program.WellSized) (s : Sequencer σ) {count : Nat}
    (returns : program.performs count s.world changes = some worlds) :
    ∃ limit, calls program.sequence limit s changes = .ok worlds := by
  obtain ⟨⟨frames', world'⟩, resumed, later⟩ := Option.bind_eq_some_iff.mp returns
  obtain ⟨rest, same, listed⟩ := Option.map_eq_some_iff.mp later
  obtain ⟨limit, t, loaded, left, after⟩ :=
    passes_complete (r := s.repeats) count fits .start (.inr ⟨rfl, rfl⟩) resumed
  rw [← left] at same
  rw [← load_eq] at loaded
  obtain ⟨limit', others⟩ := continues_complete fits after same
  refine ⟨max limit limit', ?_⟩
  rw [calls, load_mono loaded (Nat.le_max_left _ _)]
  refine map_eq_ok.mpr ⟨rest, continues_mono others (Nat.le_max_right _ _), ?_⟩
  rw [after.finished, left]
  exact listed

/-- `Load` and `Continue` do what direct execution does, one step for each call: each call
leaves the same world, and the program is finished after the same call. No assertion fails, and
the calls return whenever direct execution gets to its next step or its end. -/
theorem runs_structured_program (program : Program σ) (fits : program.WellSized)
    (s : Sequencer σ) (changes : List (σ → σ)) :
    (∀ limit, calls program.sequence limit s changes ≠ .error .assertion) ∧
    ∀ worlds, (∃ limit, calls program.sequence limit s changes = .ok worlds) ↔
      ∃ count, program.performs count s.world changes = some worlds := by
  refine ⟨fun limit => calls_never_assert fits s limit changes, fun worlds => ⟨?_, ?_⟩⟩
  · intro returns
    obtain ⟨limit, returned⟩ := returns
    exact calls_sound fits returned
  · intro performs
    obtain ⟨count, performed⟩ := performs
    exact calls_complete fits s performed

def loggedCounter : Variable (UInt32 × List Nat) where
  get := Prod.fst
  set value world := (value, world.2)

def logs (entry : Nat) (world : UInt32 × List Nat) : UInt32 × List Nat :=
  (world.1, world.2 ++ [entry])

/-- `ForEach` over two values, with an `If` on the variable inside. -/
def exampleProgram : Program (UInt32 × List Nat) :=
  .next (.forEach loggedCounter (fun _ => 0) (fun _ => 2)
    (.next (.branch (fun world => (world.1 == 0, logs 10 world)) (.next (.step (logs 1)) .done)
      (.elseBranch (.next (.step (logs 2)) .done))) .done)) .done

theorem runs_structured_program_forEach :
    (∃ limit, calls exampleProgram.sequence limit ⟨[], [], false, (7, [])⟩ [id, id] =
      .ok [((0, [10, 1]), false), ((1, [10, 1, 10, 2]), false), ((2, [10, 1, 10, 2]), true)]) := by
  have fits : exampleProgram.WellSized := by
    simp [exampleProgram, Program.WellSized, Program.size, Program.Fits, Statement.size,
      Statement.Fits, Otherwise.size, Otherwise.Fits, maxContexts]
  apply ((runs_structured_program exampleProgram fits ⟨[], [], false, (7, [])⟩ [id, id]).2 _).mpr
  exact ⟨20, by rfl⟩

end

end Sequencing
