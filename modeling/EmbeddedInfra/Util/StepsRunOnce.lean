import EmbeddedInfra.Runs
import EmbeddedInfra.Util.RegisterStepRunner

/-! Every list of steps is run once, and an aborted run leaves the runner free. -/

namespace RegisterSteps

open Runs List

/-! ### What a run performs -/

def Requests : Step → Nat → Request → Prop
  | .writeRegister address value, 0, request => request = .write address [value]
  | .writeBurst address data, 0, request => request = .write address data
  | .readBurst address size, 0, request => request = .read address size
  | .modifyRegister address _ _, 0, request => request = .read address 1
  | .modifyRegister address clearMask setMask, 1, request =>
    ∃ value, request = .write address [(value &&& ~~~clearMask) ||| setMask]
  | .delay duration, 0, request => request = .startTimer duration
  | .invoke, 0, request => request = .action
  | .await, 0, request => request = .action
  | _, _, _ => False

def stagesOf (steps : List Step) (index : Nat) : List (Nat × Nat) :=
  match steps[index]? with
  | none => []
  | some (.modifyRegister _ _ _) => [(index, 0), (index, 1)]
  | some _ => [(index, 0)]

def stages (steps : List Step) (count : Nat) : List (Nat × Nat) :=
  (List.range count).flatMap (stagesOf steps)

def Performed.key (p : Performed) : Nat × Nat := (p.index, p.stage)

namespace Run

def keys (run : Run) : List (Nat × Nat) := run.performed.map Performed.key

/-- The requests are those of the steps in order, none of them twice. -/
structure InOrder (run : Run) : Prop where
  order : run.keys <+: stages run.steps run.steps.length
  requested : ∀ p ∈ run.performed, ∃ step, run.steps[p.index]? = some step ∧
    Requests step p.stage p.request

/-- The run was aborted, and performed nothing afterwards; or all of its steps were performed, and
`onDone` was called once. -/
inductive Over (run : Run) : Prop
  | aborted (at_ : run.aborted = some run.performed.length) (silent : run.done = 0)
  | done (whole : run.aborted = none) (all : run.keys = stages run.steps run.steps.length)
      (once : run.done = 1)

end Run

theorem stages_succ (steps : List Step) (count : Nat) :
    stages steps (count + 1) = stages steps count ++ stagesOf steps count := by
  rw [stages, range_succ, flatMap_append, flatMap_singleton, stages]

theorem stages_mono (steps : List Step) {count more : Nat} (le : count ≤ more) :
    stages steps count <+: stages steps more := by
  induction more with
  | zero =>
    cases Nat.le_zero.mp le
    exact List.prefix_rfl
  | succ more ih =>
    rw [stages_succ]
    by_cases last : count = more + 1
    · rw [last, stages_succ]
    · exact (ih (by omega)).trans (List.prefix_append _ _)

/-! ### The invariant -/

/-- What a run that is not over is waiting for. -/
inductive Waiting (s : Runner) (run : Run) : Prop
  | bus (inside : s.current < s.steps.length) (step : s.steps[s.current]? ≠ some .await)
      (keys : run.keys = stages s.steps (s.current + 1))
      (callbacks : s.callbacks = [(s.runs.length, .guarded)]) (timer : s.timer = none)
      (events : s.events = []) (top : s.stack.head? ≠ some .invoke)
  | modification (step : s.steps[s.current]? =
        some (.modifyRegister s.modifyAddress s.modifyClearMask s.modifySetMask))
      (keys : run.keys = stages s.steps s.current ++ [(s.current, 0)])
      (callbacks : s.callbacks = [(s.runs.length, .modify)]) (timer : s.timer = none)
      (events : s.events = []) (top : s.stack.head? ≠ some .invoke)
  | delay (inside : s.current < s.steps.length) (step : s.steps[s.current]? ≠ some .await)
      (keys : run.keys = stages s.steps (s.current + 1)) (callbacks : s.callbacks = [])
      (timer : s.timer = some s.runs.length) (events : s.events = [])
      (top : s.stack.head? ≠ some .invoke)
  | application (inside : s.current < s.steps.length)
      (keys : run.keys = stages s.steps (s.current + 1)) (callbacks : s.callbacks = [])
      (timer : s.timer = none) (events : s.events = [])
      (step : s.steps[s.current]? = some .await ∧ s.stack.head? ≠ some .invoke ∨
        s.steps[s.current]? = some .invoke ∧ s.stack.head? = some .invoke)
  | completion (last : s.current = s.steps.length)
      (keys : run.keys = stages s.steps s.steps.length) (callbacks : s.callbacks = [])
      (timer : s.timer = none) (events : s.events = [s.runs.length])
      (top : s.stack.head? ≠ some .invoke)

structure GoesOn (s : Runner) : Prop where
  running : s.running = true
  onDone : s.onDone = some s.runs.length
  current : ∃ run earlier, s.runs = run :: earlier ∧ run.steps = s.steps ∧ run.aborted = none ∧
    run.done = 0 ∧ run.InOrder ∧ Waiting s run ∧ ∀ run ∈ earlier, run.InOrder ∧ run.Over

/-- No run goes on; a callback or an event of the one that was aborted may be outstanding. -/
structure Rests (s : Runner) : Prop where
  running : s.running = false
  onDone : s.onDone = none
  timer : s.timer = none
  ended : ∀ run ∈ s.runs, run.InOrder ∧ run.Over
  single : s.callbacks.length + s.events.length ≤ 1

structure Invariant (s : Runner) : Prop where
  phase : GoesOn s ∨ Rests s
  counted : s.callbacksOutstanding =
    UInt8.ofNat (s.callbacks.length + s.events.length + s.timer.toList.length)
  nested : ∀ frame ∈ s.stack.tail, frame ≠ .invoke
  callbacks : ∀ entry ∈ s.callbacks, entry.1 = s.runs.length
  events : ∀ run ∈ s.events, run = s.runs.length

/-! ### Executing a step -/

/-- The current run is about to go on with a step. -/
structure Ready (s : Runner) : Prop where
  running : s.running = true
  onDone : s.onDone = some s.runs.length
  current : ∃ run earlier, s.runs = run :: earlier ∧ run.steps = s.steps ∧ run.aborted = none ∧
    run.done = 0 ∧ run.InOrder ∧ run.keys = stages s.steps s.current ∧
    ∀ run ∈ earlier, run.InOrder ∧ run.Over
  inside : s.current ≤ s.steps.length
  counted : s.callbacksOutstanding = 0
  callbacks : s.callbacks = []
  timer : s.timer = none
  events : s.events = []
  top : ∀ frame ∈ s.stack, frame ≠ .invoke

theorem keys_append (run : Run) (p : Performed) :
    ({ run with performed := run.performed ++ [p] } : Run).keys = run.keys ++ [p.key] := by
  simp [Run.keys]

variable {run : Run} {step : Step} {steps : List Step} {index : Nat} {s : Runner}
  {earlier : List Run} {stack : List Frame} {t : Runner}

theorem Run.InOrder.append (inOrder : run.InOrder) {p : Performed}
    (found : run.steps[p.index]? = some step) (requests : Requests step p.stage p.request)
    (keys : run.keys ++ [p.key] <+: stages run.steps (p.index + 1)) :
    ({ run with performed := run.performed ++ [p] } : Run).InOrder where
  order := by
    have inside := (List.getElem?_eq_some_iff.mp found).1
    rw [keys_append]
    exact keys.trans (stages_mono run.steps inside)
  requested := by
    intro q member
    rcases mem_append.mp member with old | new
    · exact inOrder.requested q old
    · rw [mem_singleton.mp new]
      exact ⟨step, found, requests⟩

theorem stagesOf_simple (found : steps[index]? = some step)
    (simple : ∀ address clearMask setMask, step ≠ .modifyRegister address clearMask setMask) :
    stagesOf steps index = [(index, 0)] := by
  rw [stagesOf, found]
  cases step with
  | modifyRegister address clearMask setMask => exact absurd rfl (simple address clearMask setMask)
  | _ => rfl

theorem first_stage (found : steps[index]? = some step) :
    stages steps index ++ [(index, 0)] <+: stages steps (index + 1) := by
  rw [stages_succ, List.prefix_append_right_inj, stagesOf, found]
  cases step <;> simp

theorem perform_runs (runs : s.runs = run :: earlier) (stage : Nat) (request : Request) :
    (s.perform stage request).runs =
      { run with performed := run.performed ++ [⟨s.current, stage, request⟩] } :: earlier := by
  simp only [Runner.perform, runs, modifyHead_cons]

theorem Ready.perform (ready : Ready s) (request : Request)
    (found : s.steps[s.current]? = some step) (requests : Requests step 0 request) :
    ∃ run earlier, (s.perform 0 request).runs = run :: earlier ∧ run.steps = s.steps ∧
      run.aborted = none ∧ run.done = 0 ∧ run.InOrder ∧
      run.keys = stages s.steps s.current ++ [(s.current, 0)] ∧
      ∀ run ∈ earlier, run.InOrder ∧ run.Over := by
  obtain ⟨run, earlier, runs, steps, whole, silent, inOrder, keys, before⟩ := ready.current
  refine ⟨_, earlier, perform_runs runs 0 request, steps, whole, silent, ?_, ?_, before⟩
  · apply inOrder.append (by rw [steps]; exact found) requests
    rw [keys, steps]
    exact first_stage found
  · rw [keys_append, keys]
    rfl

theorem length_perform (s : Runner) (stage : Nat) (request : Request) :
    (s.perform stage request).runs.length = s.runs.length := by
  rw [Runner.perform]
  simp

theorem head_of_top (top : ∀ frame ∈ stack, frame ≠ .invoke) : stack.head? ≠ some .invoke := by
  intro first
  exact top _ (mem_of_head? first) rfl

theorem tail_of_top (top : ∀ frame ∈ stack, frame ≠ .invoke) :
    ∀ frame ∈ stack.tail, frame ≠ .invoke :=
  fun frame member => top frame (mem_of_mem_tail member)

theorem not_await (found : steps[index]? = some step) (other : step ≠ .await) :
    steps[index]? ≠ some .await := by
  rw [found]
  exact fun same => other (Option.some.inj same)

theorem Ready.issue (ready : Ready s) {request : Request} {callback : Callback}
    (found : s.steps[s.current]? = some step) (requests : Requests step 0 request)
    (waits : ∀ run : Run, run.keys = stages s.steps s.current ++ [(s.current, 0)] →
      ((s.perform 0 request).issue callback).callbacks =
        [(((s.perform 0 request).issue callback).runs.length, callback)] →
      Waiting ((s.perform 0 request).issue callback) run) :
    Invariant ((s.perform 0 request).issue callback) := by
  obtain ⟨run, earlier, runs, steps, whole, silent, inOrder, keys, before⟩ :=
    ready.perform _ found requests
  have number := length_perform s 0 request
  have callbacks : ((s.perform 0 request).issue callback).callbacks =
      [(((s.perform 0 request).issue callback).runs.length, callback)] :=
    congrArg (· ++ _) ready.callbacks
  refine ⟨.inl ⟨ready.running, ?_, run, earlier, runs, steps, whole, silent, inOrder,
    waits run keys callbacks, before⟩, ?_, tail_of_top ready.top, ?_, ?_⟩
  · exact ready.onDone.trans (congrArg some number.symm)
  · rw [callbacks]
    simp [Runner.issue, Runner.perform, ready.counted, ready.events, ready.timer]
  · intro entry member
    rw [callbacks] at member
    rw [mem_singleton.mp member]
  · intro r member
    exact absurd (ready.events ▸ member) not_mem_nil

theorem Ready.bus (ready : Ready s) {request : Request} (found : s.steps[s.current]? = some step)
    (requests : Requests step 0 request)
    (simple : ∀ address clearMask setMask, step ≠ .modifyRegister address clearMask setMask)
    (other : step ≠ .await) : Invariant ((s.perform 0 request).issue .guarded) := by
  have inside := (List.getElem?_eq_some_iff.mp found).1
  refine ready.issue found requests fun run keys callbacks =>
    .bus inside (not_await found other) ?_ callbacks ready.timer ready.events (head_of_top ready.top)
  rw [keys]
  exact (congrArg _ (stagesOf_simple found simple).symm).trans (stages_succ _ _).symm

theorem Ready.modification (ready : Ready s)
    (found : s.steps[s.current]? =
      some (.modifyRegister s.modifyAddress s.modifyClearMask s.modifySetMask)) :
    Invariant ((s.perform 0 (.read s.modifyAddress 1)).issue .modify) :=
  ready.issue found rfl fun _ keys callbacks =>
    .modification found keys callbacks ready.timer ready.events (head_of_top ready.top)

theorem Ready.delay (ready : Ready s) {duration : Nat}
    (found : s.steps[s.current]? = some (.delay duration)) :
    Invariant (s.execute (.delay duration)) := by
  obtain ⟨run, earlier, runs, steps, whole, silent, inOrder, keys, before⟩ :=
    ready.perform (.startTimer duration) found rfl
  have inside := (List.getElem?_eq_some_iff.mp found).1
  have number := length_perform s 0 (.startTimer duration)
  have simple := stagesOf_simple found (fun _ _ _ => Step.noConfusion)
  refine ⟨.inl ⟨ready.running, ?_, run, earlier, runs, steps, whole, silent, inOrder, ?_, before⟩,
    ?_, tail_of_top ready.top, ?_, ?_⟩
  · exact ready.onDone.trans (congrArg some number.symm)
  · refine .delay inside (not_await found Step.noConfusion) ?_ ready.callbacks
      (congrArg some number.symm) ready.events (head_of_top ready.top)
    rw [keys]
    exact (congrArg _ simple.symm).trans (stages_succ _ _).symm
  · simp [Runner.execute, Runner.perform, ready.counted, ready.callbacks, ready.events]
  · intro entry member
    exact absurd (ready.callbacks ▸ member) not_mem_nil
  · intro r member
    exact absurd (ready.events ▸ member) not_mem_nil

theorem Ready.action (ready : Ready s) {frame : Frame} (found : s.steps[s.current]? = some step)
    (called : step = .await ∧ frame = .await ∨ step = .invoke ∧ frame = .invoke) :
    Invariant { s.perform 0 .action with stack := frame :: s.stack } := by
  have requests : Requests step 0 .action := by
    rcases called with ⟨rfl, rfl⟩ | ⟨rfl, rfl⟩ <;> exact rfl
  have simple : stagesOf s.steps s.current = [(s.current, 0)] := by
    apply stagesOf_simple found
    rcases called with ⟨rfl, rfl⟩ | ⟨rfl, rfl⟩ <;> exact fun _ _ _ => Step.noConfusion
  obtain ⟨run, earlier, runs, steps, whole, silent, inOrder, keys, before⟩ :=
    ready.perform _ found requests
  have inside := (List.getElem?_eq_some_iff.mp found).1
  have number := length_perform s 0 .action
  refine ⟨.inl ⟨ready.running, ?_, run, earlier, runs, steps, whole, silent, inOrder, ?_, before⟩,
    ?_, ready.top, ?_, ?_⟩
  · exact ready.onDone.trans (congrArg some number.symm)
  · refine .application inside ?_ ready.callbacks ready.timer ready.events ?_
    · rw [keys]
      exact (congrArg _ simple.symm).trans (stages_succ _ _).symm
    · rcases called with ⟨rfl, rfl⟩ | ⟨rfl, rfl⟩
      · exact .inl ⟨found, fun first => by cases first⟩
      · exact .inr ⟨found, rfl⟩
  · simp [Runner.perform, ready.counted, ready.callbacks, ready.events, ready.timer]
  · intro entry member
    exact absurd (ready.callbacks ▸ member) not_mem_nil
  · intro r member
    exact absurd (ready.events ▸ member) not_mem_nil

theorem Ready.complete (ready : Ready s) (last : s.steps.length ≤ s.current) :
    Invariant s.complete := by
  obtain ⟨run, earlier, runs, steps, whole, silent, inOrder, keys, before⟩ := ready.current
  have last := Nat.le_antisymm ready.inside last
  have events : s.events ++ [s.runs.length] = [s.runs.length] := by
    rw [ready.events]
    rfl
  refine ⟨.inl ⟨ready.running, ready.onDone, run, earlier, runs, steps, whole, silent, inOrder, ?_,
    before⟩, ?_, tail_of_top ready.top, ?_, ?_⟩
  · exact .completion last (last ▸ keys) ready.callbacks ready.timer events (head_of_top ready.top)
  · simp [Runner.complete, ready.counted, ready.callbacks, events, ready.timer]
  · intro entry member
    exact absurd (ready.callbacks ▸ member) not_mem_nil
  · intro r member
    simp only [Runner.complete, events, mem_singleton] at member
    exact member

theorem Ready.executeCurrentStep (ready : Ready s) : Invariant s.executeCurrentStep := by
  rw [Runner.executeCurrentStep]
  split
  next absent => exact ready.complete (List.getElem?_eq_none_iff.mp absent)
  next step found =>
    cases step with
    | writeRegister address value | writeBurst address data | readBurst address size =>
      exact ready.bus found rfl (fun _ _ _ => Step.noConfusion) Step.noConfusion
    | modifyRegister address clearMask setMask =>
      have told : Ready { s with
          modifyAddress := address
          modifyClearMask := clearMask
          modifySetMask := setMask } := { ready with }
      exact told.modification found
    | delay duration => exact ready.delay found
    | invoke => exact ready.action found (.inr ⟨rfl, rfl⟩)
    | await => exact ready.action found (.inl ⟨rfl, rfl⟩)

theorem advance_invariant (ready : Ready { s with current := s.current + 1 }) :
    Invariant s.advance := by
  rw [Runner.advance, if_pos ready.running]
  exact ready.executeCurrentStep

/-! ### What the runner waited for has come -/

theorem none_invoke (top : stack.head? ≠ some .invoke)
    (nested : ∀ frame ∈ stack.tail, frame ≠ .invoke) : ∀ frame ∈ stack, frame ≠ .invoke := by
  cases stack with
  | nil => exact fun _ member => absurd member not_mem_nil
  | cons first rest =>
    intro frame member
    rcases mem_cons.mp member with rfl | member
    · exact fun same => top (congrArg some same)
    · exact nested frame member

theorem ready_next (running : s.running = true) (onDone : s.onDone = some s.runs.length)
    (runs : s.runs = run :: earlier)
    (started : run.steps = s.steps ∧ run.aborted = none ∧ run.done = 0 ∧ run.InOrder)
    (before : ∀ run ∈ earlier, run.InOrder ∧ run.Over) (inside : s.current < s.steps.length)
    (keys : run.keys = stages s.steps (s.current + 1)) (counted : s.callbacksOutstanding = 0)
    (idle : s.callbacks = [] ∧ s.timer = none ∧ s.events = [])
    (top : ∀ frame ∈ s.stack, frame ≠ .invoke) : Ready { s with current := s.current + 1 } where
  running := running
  onDone := onDone
  current := ⟨run, earlier, runs, started.1, started.2.1, started.2.2.1, started.2.2.2, keys, before⟩
  inside := inside
  counted := counted
  callbacks := idle.1
  timer := idle.2.1
  events := idle.2.2
  top := top

theorem eraseIdx_single {α : Type} {entries : List α} {entry found : α} (single : entries = [entry])
    (at_ : entries[index]? = some found) :
    found = entry ∧ entries.eraseIdx index = [] := by
  subst single
  cases index with
  | zero => exact ⟨(Option.some.inj at_).symm, rfl⟩
  | succ index => cases at_

theorem modified {value : UInt8} (running : s.running = true)
    (onDone : s.onDone = some s.runs.length) (runs : s.runs = run :: earlier)
    (started : run.steps = s.steps ∧ run.aborted = none ∧ run.done = 0 ∧ run.InOrder)
    (before : ∀ run ∈ earlier, run.InOrder ∧ run.Over)
    (step : s.steps[s.current]? =
      some (.modifyRegister s.modifyAddress s.modifyClearMask s.modifySetMask))
    (keys : run.keys = stages s.steps s.current ++ [(s.current, 0)])
    (counted : s.callbacksOutstanding = 0)
    (idle : s.callbacks = [] ∧ s.timer = none ∧ s.events = [])
    (top : ∀ frame ∈ s.stack, frame ≠ .invoke) :
    Invariant ((s.perform 1 (.write s.modifyAddress
      [(value &&& ~~~s.modifyClearMask) ||| s.modifySetMask])).issue .guarded) := by
  obtain ⟨steps, whole, silent, inOrder⟩ := started
  obtain ⟨callbacks, timer, events⟩ := idle
  have inside := (List.getElem?_eq_some_iff.mp step).1
  have both : stages s.steps s.current ++ [(s.current, 0)] ++ [(s.current, 1)] =
      stages s.steps (s.current + 1) := by
    rw [stages_succ, stagesOf, step]
    exact append_assoc _ _ _
  have number := length_perform s 1
    (.write s.modifyAddress [(value &&& ~~~s.modifyClearMask) ||| s.modifySetMask])
  refine ⟨.inl ⟨running, onDone.trans (congrArg some number.symm), _, earlier,
    perform_runs runs _ _, steps, whole, silent, ?_, ?_, before⟩, ?_, tail_of_top top, ?_, ?_⟩
  · have found := steps.symm ▸ step
    refine inOrder.append found ⟨value, rfl⟩ ?_
    rw [keys, steps]
    exact both ▸ List.prefix_rfl
  · refine .bus inside (not_await step Step.noConfusion) ?_ ?_ timer events (head_of_top top)
    · rw [keys_append, keys]
      exact both
    · simp only [Runner.issue, Runner.perform, callbacks, nil_append]
  · simp [Runner.issue, Runner.perform, callbacks, counted, events, timer]
  · intro entry member
    simp only [Runner.issue, Runner.perform, callbacks, nil_append, mem_singleton]
      at member ⊢
    rw [member]
  · intro r member
    exact absurd (events ▸ member) not_mem_nil

theorem busCallback_invariant {value : UInt8} (keeps : Invariant s)
    (steps : s.step (.busCallback index value) = some t) : Invariant t := by
  simp only [Runner.step] at steps
  split at steps
  · cases steps
  next number callback at_ =>
    cases steps
    rcases keeps.phase with goesOn | rests
    · obtain ⟨run, earlier, runs, same, whole, silent, inOrder, waiting, before⟩ := goesOn.current
      cases waiting with
      | bus inside step keys callbacks timer events top =>
        obtain ⟨found, empty⟩ := eraseIdx_single callbacks at_
        cases found
        refine advance_invariant (ready_next goesOn.running goesOn.onDone runs
          ⟨same, whole, silent, inOrder⟩ before inside keys ?_ ⟨empty, timer, events⟩
          (none_invoke top keeps.nested))
        simp [keeps.counted, callbacks, timer, events]
      | modification step keys callbacks timer events top =>
        obtain ⟨found, empty⟩ := eraseIdx_single callbacks at_
        cases found
        simp only [Runner.deliver]
        rw [if_pos goesOn.running]
        refine modified goesOn.running goesOn.onDone runs ⟨same, whole, silent, inOrder⟩ before
          step keys ?_ ⟨empty, timer, events⟩ (none_invoke top keeps.nested)
        simp [keeps.counted, callbacks, timer, events]
      | delay inside step keys callbacks timer events top
      | application inside keys callbacks timer events step
      | completion last keys callbacks timer events top =>
        rw [callbacks] at at_
        cases at_
    · have inside := (List.getElem?_eq_some_iff.mp at_).1
      have single := rests.single
      have erased : (s.callbacks.eraseIdx index).length = 0 := by
        rw [length_eraseIdx_of_lt inside]
        omega
      have counted : s.callbacksOutstanding - 1 = 0 := by
        rw [keeps.counted, rests.timer, show s.callbacks.length = 1 by omega,
          show s.events.length = 0 by omega]
        rfl
      have empty := eq_nil_of_length_eq_zero erased
      have rested : Invariant { s with
          callbacks := s.callbacks.eraseIdx index
          callbacksOutstanding := s.callbacksOutstanding - 1 } := by
        refine ⟨.inr ⟨rests.running, rests.onDone, rests.timer, rests.ended, ?_⟩, ?_, keeps.nested,
          ?_, keeps.events⟩
        · show (s.callbacks.eraseIdx index).length + s.events.length ≤ 1
          omega
        · simp [counted, empty, rests.timer, show s.events = [] from
            eq_nil_of_length_eq_zero (by omega)]
        · intro entry member
          rw [empty] at member
          exact absurd member not_mem_nil
      cases callback with
      | guarded =>
        simp only [Runner.deliver, Runner.advance]
        rw [if_neg (by simp [rests.running])]
        exact rested
      | modify =>
        simp only [Runner.deliver]
        rw [if_neg (by simp [rests.running])]
        exact rested

theorem timerExpires_invariant (keeps : Invariant s) (steps : s.step .timerExpires = some t) :
    Invariant t := by
  simp only [Runner.step] at steps
  split at steps
  next expires =>
    cases steps
    rcases keeps.phase with goesOn | rests
    · obtain ⟨run, earlier, runs, same, whole, silent, inOrder, waiting, before⟩ := goesOn.current
      cases waiting with
      | delay inside step keys callbacks timer events top =>
        refine advance_invariant (ready_next goesOn.running goesOn.onDone runs
          ⟨same, whole, silent, inOrder⟩ before inside keys ?_ ⟨callbacks, rfl, events⟩
          (none_invoke top keeps.nested))
        simp [keeps.counted, callbacks, timer, events]
      | bus _ _ _ _ timer _ _ | modification _ _ _ timer _ _ | application _ _ _ timer _ _
      | completion _ _ _ timer _ _ => simp [timer] at expires
    · simp [rests.timer] at expires
  next => cases steps

theorem waiting_of_stack (waiting : Waiting s run) (before : s.stack.head? ≠ some .invoke)
    (top : stack.head? ≠ some .invoke) :
    Waiting { s with stack } run := by
  cases waiting with
  | bus inside step keys callbacks timer events _ =>
    exact .bus inside step keys callbacks timer events top
  | modification step keys callbacks timer events _ =>
    exact .modification step keys callbacks timer events top
  | delay inside step keys callbacks timer events _ =>
    exact .delay inside step keys callbacks timer events top
  | application inside keys callbacks timer events step =>
    refine .application inside keys callbacks timer events (.inl ?_)
    rcases step with ⟨step, _⟩ | ⟨_, first⟩
    · exact ⟨step, top⟩
    · exact absurd first before
  | completion last keys callbacks timer events _ =>
    exact .completion last keys callbacks timer events top

section

variable (keeps : Invariant s)

include keeps

theorem returns_invariant (steps : s.step .returns = some t) : Invariant t := by
  simp only [Runner.step] at steps
  split at steps
  · cases steps
  next frame stack opened =>
    cases steps
    have nested : ∀ frame ∈ stack, frame ≠ .invoke := by
      have nested := keeps.nested
      rw [opened] at nested
      exact nested
    rcases keeps.phase with goesOn | rests
    · obtain ⟨run, earlier, runs, same, whole, silent, inOrder, waiting, before⟩ := goesOn.current
      by_cases invoked : frame = .invoke
      · have top : s.stack.head? = some .invoke := by
          rw [opened, invoked]
          rfl
        cases waiting with
        | application inside keys callbacks timer events step =>
          cases invoked
          refine advance_invariant (ready_next goesOn.running goesOn.onDone runs
            ⟨same, whole, silent, inOrder⟩ before inside keys ?_ ⟨callbacks, timer, events⟩ nested)
          simp [keeps.counted, callbacks, timer, events]
        | bus _ _ _ _ _ _ other | modification _ _ _ _ _ other | delay _ _ _ _ _ _ other
        | completion _ _ _ _ _ other => exact absurd top other
      · have other : s.stack.head? ≠ some .invoke := by
          rw [opened]
          exact fun first => invoked (Option.some.inj first)
        have kept : Invariant { s with stack } := by
          refine ⟨.inl ⟨goesOn.running, goesOn.onDone, run, earlier, runs, same, whole, silent,
            inOrder, ?_, before⟩, keeps.counted, tail_of_top nested, keeps.callbacks, keeps.events⟩
          exact waiting_of_stack waiting other (head_of_top nested)
        cases frame with
        | invoke => exact absurd rfl invoked
        | await | done => exact kept
    · have kept : Invariant { s with stack } := by
        refine ⟨.inr ?_, keeps.counted, tail_of_top nested, keeps.callbacks, keeps.events⟩
        exact ⟨rests.running, rests.onDone, rests.timer, rests.ended, rests.single⟩
      cases frame with
      | invoke =>
        simp only [Runner.returned, Runner.advance]
        rw [if_neg (by simp [rests.running])]
        exact kept
      | await | done => exact kept

theorem continue_invariant (steps : s.step .continue_ = some t) : Invariant t := by
  simp only [Runner.step] at steps
  split at steps
  next awaits =>
    cases steps
    rcases keeps.phase with goesOn | rests
    · obtain ⟨run, earlier, runs, same, whole, silent, inOrder, waiting, before⟩ := goesOn.current
      cases waiting with
      | application inside keys callbacks timer events step =>
        rcases step with ⟨_, top⟩ | ⟨invokes, _⟩
        · refine advance_invariant (ready_next goesOn.running goesOn.onDone runs
            ⟨same, whole, silent, inOrder⟩ before inside keys ?_ ⟨callbacks, timer, events⟩
            (none_invoke top keeps.nested))
          simp [keeps.counted, callbacks, timer, events]
        · rw [awaits] at invokes
          cases invokes
      | bus _ step _ _ _ _ _ => exact absurd awaits step
      | modification step _ _ _ _ _ =>
        rw [awaits] at step
        cases step
      | delay _ step _ _ _ _ _ => exact absurd awaits step
      | completion last _ _ _ _ _ =>
        have inside := (List.getElem?_eq_some_iff.mp awaits).1
        omega
    · rw [Runner.advance, if_neg (by simp [rests.running])]
      exact keeps
  next => cases steps

theorem load_invariant {list : List Step} (steps : s.step (.load list) = some t) : Invariant t := by
  simp only [Runner.step] at steps
  split at steps
  · cases steps
  next free =>
    cases steps
    rcases keeps.phase with goesOn | rests
    · exact absurd (.inl goesOn.running) free
    · refine ⟨.inr ?_, keeps.counted, keeps.nested, keeps.callbacks, keeps.events⟩
      exact ⟨rests.running, rests.onDone, rests.timer, rests.ended, rests.single⟩

theorem abort_invariant (noDelay : s.timer = none) : Invariant s.abort := by
  rcases keeps.phase with goesOn | rests
  · obtain ⟨run, earlier, runs, _, _, silent, inOrder, waiting, before⟩ := goesOn.current
    have ended : s.abort.runs = { run with aborted := some run.performed.length } :: earlier := by
      simp only [Runner.abort, if_pos goesOn.running, runs, modifyHead_cons]
    have number : s.abort.runs.length = s.runs.length := by
      rw [ended, runs]
      rfl
    refine ⟨.inr ⟨rfl, rfl, rfl, ?_, ?_⟩, ?_, keeps.nested, ?_, ?_⟩
    · rw [ended]
      intro other member
      rcases mem_cons.mp member with rfl | member
      · exact ⟨⟨inOrder.order, inOrder.requested⟩, .aborted rfl silent⟩
      · exact before other member
    · show s.callbacks.length + s.events.length ≤ 1
      cases waiting with
      | bus _ _ _ callbacks _ events _ | modification _ _ callbacks _ events _
      | delay _ _ _ callbacks _ events _ | application _ _ callbacks _ events _
      | completion _ _ callbacks _ events _ => simp [callbacks, events]
    · have counted := keeps.counted
      rw [noDelay] at counted
      exact counted
    · rw [number]
      exact keeps.callbacks
    · rw [number]
      exact keeps.events
  · have same : s.abort.runs = s.runs := if_neg (by simp [rests.running])
    refine ⟨.inr ⟨rfl, rfl, rfl, ?_, rests.single⟩, ?_, keeps.nested, ?_, ?_⟩
    · rw [same]
      exact rests.ended
    · have counted := keeps.counted
      rw [noDelay] at counted
      exact counted
    · rw [same]
      exact keeps.callbacks
    · rw [same]
      exact keeps.events

theorem completed_invariant (steps : s.step .event = some t) : Invariant t := by
  simp only [Runner.step] at steps
  split at steps
  · cases steps
  next number events scheduled =>
    split at steps
    next =>
      cases steps
      rcases keeps.phase with goesOn | rests
      · obtain ⟨run, earlier, runs, same, whole, silent, inOrder, waiting, before⟩ := goesOn.current
        cases waiting with
        | completion last keys callbacks timer single top =>
          have none_left : events = [] := by
            rw [single] at scheduled
            exact (List.cons.inj scheduled).2.symm
          have counted : s.callbacksOutstanding - 1 = 0 := by
            simp [keeps.counted, callbacks, timer, single]
          simp only [Runner.completed, goesOn.onDone]
          rw [Nat.sub_self, runs, modify_zero_cons]
          refine ⟨.inr ⟨rfl, rfl, timer, ?_, ?_⟩, ?_, none_invoke top keeps.nested, ?_, ?_⟩
          · intro other member
            rcases mem_cons.mp member with rfl | member
            · refine ⟨⟨inOrder.order, inOrder.requested⟩, .done whole ?_ ?_⟩
              · exact same.symm ▸ keys
              · show run.done + 1 = 1
                rw [silent]
            · exact before other member
          · simp [callbacks, none_left]
          · simp [counted, callbacks, none_left, timer]
          · rw [callbacks]
            exact fun _ member => absurd member not_mem_nil
          · rw [none_left]
            exact fun _ member => absurd member not_mem_nil
        | bus _ _ _ _ _ single _ | modification _ _ _ _ single _ | delay _ _ _ _ _ single _
        | application _ _ _ _ single _ => rw [single] at scheduled; cases scheduled
      · have one := rests.single
        rw [scheduled, length_cons] at one
        have none_left : events = [] := eq_nil_of_length_eq_zero (by omega)
        have callbacks : s.callbacks = [] := eq_nil_of_length_eq_zero (by omega)
        simp only [Runner.completed, rests.onDone]
        refine ⟨.inr ⟨rfl, rfl, rests.timer, rests.ended, ?_⟩, ?_, keeps.nested, ?_, ?_⟩
        · simp [callbacks, none_left]
        · simp [keeps.counted, callbacks, none_left, rests.timer, scheduled]
        · rw [callbacks]
          exact fun _ member => absurd member not_mem_nil
        · rw [none_left]
          exact fun _ member => absurd member not_mem_nil
    next => cases steps

theorem free_of_not_busy (free : s.busy = false) :
    Rests s ∧ s.callbacksOutstanding = 0 ∧ s.callbacks = [] ∧ s.events = [] := by
  simp only [Runner.busy, Bool.or_eq_false_iff, bne_eq_false_iff_eq] at free
  obtain ⟨running, nothing⟩ := free
  rcases keeps.phase with goesOn | rests
  · rw [goesOn.running] at running
    cases running
  · have single := rests.single
    have counted := keeps.counted
    rw [nothing, rests.timer, Option.toList_none, length_nil, Nat.add_zero] at counted
    have zero : s.callbacks.length + s.events.length = 0 := by
      by_contra more
      have one : s.callbacks.length + s.events.length = 1 := by omega
      rw [one] at counted
      exact absurd counted (by decide)
    exact ⟨rests, nothing, eq_nil_of_length_eq_zero (by omega),
      eq_nil_of_length_eq_zero (by omega)⟩

theorem start_invariant (free : s.busy = false) (outside : s.stack.head? ≠ some .invoke) :
    Invariant s.start := by
  obtain ⟨rests, nothing, callbacks, events⟩ := free_of_not_busy keeps free
  refine Ready.executeCurrentStep (s := { s with
    onDone := some (s.runs.length + 1)
    current := 0
    running := true
    runs := { steps := s.steps, performed := [], aborted := none, done := 0 } :: s.runs }) ?_
  refine ⟨rfl, rfl, ⟨_, s.runs, rfl, rfl, rfl, rfl, ?_, rfl, rests.ended⟩, Nat.zero_le _, nothing,
    callbacks, rests.timer, events, none_invoke outside keeps.nested⟩
  exact ⟨List.nil_prefix, fun _ member => absurd member not_mem_nil⟩

end

/-! ### Runs of the runner -/

/-- A delay is not aborted, and the action of an `Invoke` step does not start the runner. -/
def Undisturbed (s : Runner) : Event → Prop
  | .abort => s.timer = none
  | .start => s.stack.head? ≠ some .invoke
  | _ => True

instance (s : Runner) : DecidablePred (Undisturbed s) := fun happened => by
  cases happened <;> unfold Undisturbed <;> infer_instance

theorem step_invariant (s : Runner) (happened : Event) (t : Runner) (keeps : Invariant s)
    (undisturbed : Undisturbed s happened) (steps : s.step happened = some t) : Invariant t := by
  cases happened with
  | load list => exact load_invariant keeps steps
  | start =>
    simp only [Runner.step] at steps
    split at steps
    next => cases steps
    next free =>
      cases steps
      exact start_invariant keeps (Bool.eq_false_of_not_eq_true free) undisturbed
  | abort =>
    cases steps
    exact abort_invariant keeps undisturbed
  | continue_ => exact continue_invariant keeps steps
  | returns => exact returns_invariant keeps steps
  | busCallback index value => exact busCallback_invariant keeps steps
  | timerExpires => exact timerExpires_invariant keeps steps
  | event => exact completed_invariant keeps steps

theorem invariant_initial : Invariant {} where
  phase := .inr ⟨rfl, rfl, rfl, fun _ member => absurd member not_mem_nil, Nat.zero_le _⟩
  counted := rfl
  nested := fun _ member => absurd member not_mem_nil
  callbacks := fun _ member => absurd member not_mem_nil
  events := fun _ member => absurd member not_mem_nil

/-- What holds of the runs and of what is outstanding. -/
structure Proper (s : Runner) : Prop where
  /-- The requests of every run are those of its steps in order, none twice. -/
  inOrder : ∀ run ∈ s.runs, run.InOrder
  /-- An earlier run is over: aborted and silent since, or done once. -/
  earlier : ∀ run ∈ s.runs.tail, run.Over
  rests : s.running = false → ∀ run ∈ s.runs, run.Over
  /-- The run that goes on is not done, and something is outstanding for it. -/
  goesOn : s.running = true → ∃ run, s.runs.head? = some run ∧ run.aborted = none ∧ run.done = 0 ∧
    (s.callbacks ≠ [] ∨ s.timer.isSome ∨ s.events ≠ [] ∨ s.steps[s.current]? = some .await ∨
      s.stack.head? = some .invoke)
  /-- Nothing of an earlier run is outstanding. -/
  callbacks : ∀ entry ∈ s.callbacks, entry.1 = s.runs.length
  events : ∀ run ∈ s.events, run = s.runs.length
  timer : ∀ run ∈ s.timer, run = s.runs.length
  free : s.running = false → s.callbacks = [] → s.events = [] → s.busy = false

theorem Waiting.outstanding (waiting : Waiting s run) :
    s.callbacks ≠ [] ∨ s.timer.isSome ∨ s.events ≠ [] ∨ s.steps[s.current]? = some .await ∨
      s.stack.head? = some .invoke := by
  cases waiting with
  | bus _ _ _ callbacks _ _ _ | modification _ _ callbacks _ _ _ => simp [callbacks]
  | delay _ _ _ _ timer _ _ => simp [timer]
  | application _ _ _ _ _ step =>
    rcases step with ⟨awaits, _⟩ | ⟨_, top⟩
    · simp [awaits]
    · simp [top]
  | completion _ _ _ _ events _ => simp [events]

theorem Waiting.timer (waiting : Waiting s run) : ∀ number ∈ s.timer, number = s.runs.length := by
  cases waiting with
  | bus _ _ _ _ timer _ _ | modification _ _ _ timer _ _ | delay _ _ _ _ timer _ _
  | application _ _ _ timer _ _ | completion _ _ _ timer _ _ => simp [timer]

theorem Invariant.proper (keeps : Invariant s) : Proper s := by
  rcases keeps.phase with goesOn | rests
  · obtain ⟨run, earlier, runs, same, whole, silent, inOrder, waiting, before⟩ := goesOn.current
    refine ⟨?_, ?_, ?_, ?_, keeps.callbacks, keeps.events, waiting.timer, ?_⟩
    · rw [runs]
      intro other member
      rcases mem_cons.mp member with rfl | member
      · exact inOrder
      · exact (before other member).1
    · rw [runs]
      exact fun other member => (before other member).2
    · exact fun running => absurd (goesOn.running.symm.trans running) (by decide)
    · exact fun _ => ⟨run, by rw [runs]; rfl, whole, silent, waiting.outstanding⟩
    · exact fun running => absurd (goesOn.running.symm.trans running) (by decide)
  · refine ⟨fun run member => (rests.ended run member).1, ?_, ?_, ?_, keeps.callbacks, keeps.events,
      ?_, ?_⟩
    · exact fun run member => (rests.ended run (mem_of_mem_tail member)).2
    · exact fun _ run member => (rests.ended run member).2
    · exact fun running => absurd (rests.running.symm.trans running) (by decide)
    · rw [rests.timer]
      exact fun number member => absurd member (Option.not_mem_none number)
    · intro running callbacks events
      simp [Runner.busy, running, keeps.counted, callbacks, events, rests.timer]

/-- Whatever the bus, the timer and the application do, as long as no delay is aborted and no
`Invoke` action starts the runner. -/
theorem runs_each_list_once {s : Runner} (reached : Reachable Runner.step Undisturbed {} s) :
    Proper s := by
  have keeps : Invariant s := reached.invariant invariant_initial step_invariant
  exact keeps.proper

/-- A modification and an action, aborted while the value is read; the same list is then run to
its end. -/
def abortedOnce : List Event :=
  [.load [.modifyRegister 1 2 4, .invoke], .start, .abort, .busCallback 0 0, .start,
    .busCallback 0 255, .busCallback 0 0, .returns, .event]

def endsAbortedOnce (s : Runner) : Bool :=
  s.runs.map (fun run => (run.keys, run.aborted, run.done)) =
    [([(0, 0), (0, 1), (1, 0)], none, 1), ([(0, 0)], some 1, 0)]

theorem runs_each_list_once_abortedOnce :
    ∃ s, Reachable Runner.step Undisturbed {} s ∧ endsAbortedOnce s = true ∧ Proper s := by
  obtain ⟨s, reached, ends⟩ := exists_of_executeIf Undisturbed Runner.step {} abortedOnce
    endsAbortedOnce (by decide)
  exact ⟨s, reached, ends, runs_each_list_once reached⟩

/-- The only step is a delay, which is aborted. -/
theorem busy_forever_delayAborted :
    ∃ s, Reachable Runner.step anyStep {} s ∧ ¬ Proper s ∧
      (s.running = false ∧ s.callbacks = [] ∧ s.events = [] ∧ s.timer = none ∧ s.stack = [] ∧
        s.busy = true) := by
  obtain ⟨s, reached, ends⟩ := exists_of_execute Runner.step {} [.load [.delay 5], .start, .abort]
    (fun s => decide (s.running = false ∧ s.callbacks = [] ∧ s.events = [] ∧ s.timer = none ∧
      s.stack = [] ∧ s.busy = true)) (by decide)
  have stuck := of_decide_eq_true ends
  refine ⟨s, reached, fun proper => ?_, stuck⟩
  have free := proper.free stuck.1 stuck.2.1 stuck.2.2.1
  rw [free] at stuck
  cases stuck.2.2.2.2.2

end RegisterSteps
