import EffectScript.Proofs.History

/-!
# Suspension is transparent

A frame is suspended when its instruction opens a frame above it: a call, an
operator that calls a method, or an effect that is performed. Whatever happens
until control comes back to it, it finds itself as it was, with the values that
the instruction took gone and one value in their place, and the handlers in
force are those that were in force before.
-/

namespace EffectScript

open Activation

/-! ## One step -/

namespace Change

variable {instruction : Instruction}
    {newer older later : List (Activation Handler)}
    {callee activation : Activation Handler}

/-- The ways in which a step comes back to an activation that is not the newest
one: the activation directly above it returns a value, a running handler resumes
it, or an attempt of it is abandoned. -/
theorem comes_back
    (change : Change instruction (newer ++ callee :: activation :: older) later)
    (level : later.length = older.length + 1) :
    (∃ value, later =
      { activation with frame := activation.frame.given value } :: older ∧
        (instruction.opcode = .return ∧ callee.frame.link = none ∨
          instruction.opcode ≠ .return ∧ callee.frame.link ≠ none)) ∨
      instruction.opcode = .return ∧
        ∃ newest ∈ (newer ++ [callee]).head?, newest.frame.link ≠ none := by
  have count : (newer ++ callee :: activation :: older).length =
      newer.length + older.length + 2 := by
    simp only [List.length_append, List.length_cons]
    omega
  generalize parts : newer ++ callee :: activation :: older = activations
    at change count
  cases change with
  | works => simp only [List.length_cons] at level count; omega
  | registers => simp only [List.length_cons] at level count; omega
  | completes => simp only [List.length_cons] at level count; omega
  | opens => simp only [List.length_cons] at level count; omega
  | @returns other landed below value operation unlinked =>
      simp only [List.length_cons, Nat.add_right_cancel_iff] at level
      obtain ⟨_, sameTail⟩ := List.append_inj'
        (show newer ++ callee :: activation :: older = [] ++ other :: landed ::
          below from parts)
        (by simp [level])
      cases sameTail
      exact .inl ⟨value, rfl, .inl ⟨operation, unlinked⟩⟩
  | @abandons other landed above below link _ _ _ _ _ _ operation linked =>
      refine .inr ⟨operation, other, ?_, by simp [linked]⟩
      cases newer with
      | nil => exact congrArg some (List.cons.inj parts).1
      | cons first others => exact congrArg some (List.cons.inj parts).1
  | @resumes other landed above below link value operation _ linked =>
      simp only [List.length_cons, Nat.add_right_cancel_iff] at level
      obtain ⟨_, sameTail⟩ := List.append_inj' parts (by simp [level])
      cases sameTail
      exact .inl ⟨value, rfl, .inr ⟨operation, by simp [linked]⟩⟩

/-- The answer to an effect gives up the frame of its handler. -/
theorem gives_up
    (change : Change instruction (newer ++ callee :: activation :: older) later)
    (linked : callee.frame.link ≠ none)
    (fewer : later.length < (newer ++ callee :: activation :: older).length)
    (answers : instruction.opcode = .return ∧ newer = [] ∨ instruction.opcode ≠
      .return ∧ ∀ other ∈ newer, other.frame.link = none) :
    later.length ≤ older.length + 1 := by
  generalize parts : newer ++ callee :: activation :: older = activations
    at change fewer
  cases change with
  | works => simp at fewer
  | registers => simp at fewer
  | completes => simp at fewer
  | opens => simp only [List.length_cons] at fewer; omega
  | @returns other landed below value operation unlinked =>
      obtain ⟨_, rfl⟩ | ⟨different, _⟩ := answers
      · cases parts
        exact absurd unlinked linked
      · exact absurd operation different
  | @abandons other landed above below _ _ _ _ _ _ _ operation =>
      obtain ⟨_, rfl⟩ | ⟨different, _⟩ := answers
      · have count := congrArg List.length parts
        simp only [List.nil_append, List.length_cons, List.length_append]
          at count ⊢
        omega
      · exact absurd operation different
  | @resumes other landed above below link value operation unlinked tied =>
      obtain ⟨same, _⟩ | ⟨_, plain⟩ := answers
      · exact absurd same operation
      · -- Both name the newest activation that answers an effect.
        rcases List.append_eq_append_iff.1 parts with ⟨between, aboveEq, rest⟩ |
          ⟨between, newerEq, rest⟩
        · cases between with
          | nil =>
              cases rest
              exact Nat.le_refl _
          | cons first others =>
              have same : callee = first := (List.cons.inj rest).1
              exact absurd (unlinked callee (by simp [aboveEq, same])) linked
        · cases between with
          | nil =>
              cases rest
              exact Nat.le_refl _
          | cons first others =>
              have same : other = first := (List.cons.inj rest).1
              rw [plain other (by simp [newerEq, same])] at tied
              cases tied

end Change

namespace Machine

/-! ## Runs -/

/-- The newest frame of the machine `before`, which the run reaches after
`first` steps, executes an instruction there and has newer frames above it from
then on, at least until `last` steps. -/
structure Suspended
    (start : Machine) (first last : Nat) (before : Machine) (frame : Frame)
    (below : List Frame)
    (instruction : Instruction) : Prop where
  reaches : start.reached first = some before
  frames : before.frames = frame :: below
  executes : before.instruction? = some instruction
  order : first < last
  covered : ∀ count during, first < count → count ≤ last →
    start.reached count = some during →
    before.frames.length < during.frames.length

/-- The effect that a frame performed after `first` steps is answered by the
step after `last` steps. That step gives up frames; it is the return of the
handler, whose frame is the one directly above the suspended one, or it resumes
while no newer handler is running. -/
structure Answer
    (start : Machine) (first last : Nat)
    (before machine after : Machine)
    (answer : Instruction) : Prop where
  suspended : ∃ frame below effect, Suspended start first last before frame
      below effect ∧
    effect.opcode = .perform
  steps : Steps start last machine after answer
  fewer : after.frames.length < machine.frames.length
  answers : answer.opcode = .return ∧
    machine.frames.length = before.frames.length + 1 ∨
    answer.opcode ≠ .return ∧ ∃ newer older, machine.frames = newer ++ older ∧
      older.length = before.frames.length + 1 ∧
      ∀ frame ∈ newer, frame.link = none

/-- The effect that a frame performed after `first` steps is answered after
`last` steps. -/
def Answered (start : Machine) (first last : Nat) : Prop :=
  ∃ before machine after answer,
    Answer start first last before machine after answer

variable {start before machine after : Machine} {first last other : Nat}
    {frame : Frame} {below : List Frame} {instruction answer : Instruction}

/-- What is known about a suspended frame while newer frames are above it. -/
theorem Suspended.callee
    (started : Started start)
    (suspended : Suspended start first last before frame below instruction)
    (reaches : start.reached last = some machine) :
    ∃ activation older newer callee shape, before.Sound (activation :: older) ∧
      machine.Sound (newer ++ callee ::
        { activation with frame :=
          activation.frame.suspended instruction, shape := shape } ::
          older) ∧
      (callee.frame.link ≠ none ↔ instruction.opcode = .perform) := by
  obtain ⟨activation, older, sound⟩ := started.sound_reached suspended.reaches
  obtain ⟨during, reachesDuring⟩ := reached_of_le reaches suspended.order
  obtain ⟨same, reachesSame, steps⟩ := reached_succ.1 reachesDuring
  rw [suspended.reaches] at reachesSame
  cases reachesSame
  obtain ⟨executed, later, executes, laterSound, change⟩ := sound.running steps
  have sameInstruction : executed = instruction :=
    Option.some.inj (executes.1.symm.trans suspended.executes)
  subst sameInstruction
  have opened : (activation :: older).length < later.length := by
    rw [← sound.length_frames, ← laterSound.length_frames]
    exact suspended.covered (first + 1) during (Nat.lt_succ_self _)
      suspended.order reachesDuring
  generalize parts : activation :: older = activations at change opened
  cases change with
  | @opens _ callee _ shape _ _ _ linked =>
      cases parts
      obtain ⟨newer, kept, machineSound, continues⟩ :=
        @Sound.persists start during machine [] _ callee
          (first + 1) last laterSound reachesDuring
          suspended.order reaches
            fun count between after upTo reachesBetween => by
            have covered := suspended.covered count between
              (by omega) upTo reachesBetween
            rw [sound.length_frames] at covered
            exact covered
      exact ⟨activation, older, newer, kept, shape, sound, machineSound,
        continues.link ▸ linked⟩
  | works => simp at opened
  | registers => simp at opened
  | completes => simp at opened
  | returns => simp only [List.length_cons] at opened; omega
  | abandons => simp only [List.length_cons, List.length_append]
      at opened; omega
  | resumes => simp only [List.length_cons, List.length_append] at opened; omega

/-- A frame that gets control back is as it was before its instruction, but for
the values that the instruction took and the one that came back. -/
theorem Suspended.comes_back
    (started : Started start)
    (suspended : Suspended start first last before frame below instruction)
    (steps : Steps start last machine after answer)
    (back : after.frames.length = before.frames.length)
    (unabandoned : answer.opcode = .return → instruction.opcode ≠ .perform ∧
      machine.frames.length = before.frames.length + 1) :
    (answer.opcode ≠ .return ↔ instruction.opcode = .perform) ∧
      after.handlers = before.handlers ∧
      ∃ value, after.frames = { frame with
        ip := instruction.next
        stack := value :: frame.stack.drop instruction.taken } :: below := by
  obtain ⟨activation, older, newer, callee, shape, sound,
      machineSound, linked⟩ :=
    suspended.callee started steps.reaches
  obtain ⟨later, laterSound, change⟩ := steps.change machineSound (by simp)
  have parts := suspended.frames.symm.trans sound.frames
  simp only [List.map_cons, List.cons.injEq] at parts
  obtain ⟨rfl, rfl⟩ := parts
  have level : later.length = older.length + 1 := by
    rw [← laterSound.length_frames, back, sound.length_frames, List.length_cons]
  rcases change.comes_back level
    with ⟨value, rfl, how⟩ | ⟨operation, newest, first, answers⟩
  · refine ⟨?_, ?_, value, ?_⟩
    · rw [← linked]
      rcases how with ⟨operation, unlinked⟩ | ⟨operation, answers⟩
      · simp [operation, unlinked]
      · simp [operation, answers]
    · rw [laterSound.handlers, sound.handlers]
      rfl
    · rw [laterSound.frames]
      rfl
  · -- An abandoned attempt is none of the ways to come back.
    obtain ⟨plain, direct⟩ := unabandoned operation
    rw [machineSound.length_frames, sound.length_frames] at direct
    have none : newer = [] := by
      apply List.eq_nil_of_length_eq_zero
      simp only [List.length_append, List.length_cons] at direct
      omega
    subst none
    cases first
    exact absurd (linked.1 answers) plain

/-- The answer to an effect leaves no frame above the one that performed it. -/
theorem Answer.length_le
    (started : Started start)
    (answered : Answer start first last before machine after answer) :
    after.frames.length ≤ before.frames.length := by
  obtain ⟨frame, below, effect, suspended, performs⟩ := answered.suspended
  obtain ⟨activation, older, newer, callee, shape, sound,
      machineSound, linked⟩ :=
    suspended.callee started answered.steps.reaches
  obtain ⟨later, laterSound, change⟩ :=
    answered.steps.change machineSound (by simp)
  have fewer := answered.fewer
  rw [laterSound.length_frames, machineSound.length_frames] at fewer
  rw [laterSound.length_frames, sound.length_frames]
  refine change.gives_up (linked.2 performs) fewer ?_
  rcases answered.answers
    with ⟨operation, direct⟩ | ⟨operation, front, back, parts, count, plain⟩
  · rw [machineSound.length_frames, sound.length_frames] at direct
    refine .inl ⟨operation, List.eq_nil_of_length_eq_zero ?_⟩
    simp only [List.length_append, List.length_cons] at direct
    omega
  · refine .inr ⟨operation, fun other member => plain other.frame ?_⟩
    rw [machineSound.frames, List.map_append] at parts
    rw [sound.length_frames] at count
    obtain ⟨rfl, _⟩ := List.append_inj' parts (by simp [count])
    exact List.mem_map_of_mem member

/-- An effect that is answered is not answered again. -/
theorem Answered.le
    (started : Started start)
    (answered : Answered start first last)
    (again : Answered start first other) :
    other ≤ last := by
  obtain ⟨before, machine, after, answer, answers⟩ := answered
  obtain ⟨same, _, _, _, ⟨frame, below, effect, suspended, _⟩, _⟩ := again
  obtain ⟨_, _, _, ⟨reaches, _, _, _, _⟩, _⟩ := answers.suspended
  cases reaches.symm.trans suspended.reaches
  by_contra later
  have reachesAfter : start.reached (last + 1) = some after :=
    reached_succ.2 ⟨machine, answers.steps.reaches, answers.steps.steps⟩
  have order : first < last := by
    obtain ⟨_, _, _, early, _⟩ := answers.suspended
    exact early.order
  have covered := suspended.covered (last + 1) after (by omega)
    (by omega) reachesAfter
  exact absurd (answers.length_le started) (Nat.not_le.2 covered)

/-- Suspension is transparent in every run of a compiled script. When control
comes back to a frame by the return of what it called or by resuming the effect
that it performed, the frame has one value in place of those that its
instruction took and is otherwise as it was, the frames below it are unchanged,
and the same handlers are in force. An effect is answered at most once. -/
theorem suspension_is_transparent (started : Started start) :
    (∀ first last before frame below instruction machine after answer,
      Suspended start first last before frame below instruction →
      Steps start last machine after answer →
      after.frames.length = before.frames.length →
      (answer.opcode = .return →
        instruction.opcode ≠ .perform ∧
        machine.frames.length = before.frames.length + 1) →
      (answer.opcode ≠ .return ↔ instruction.opcode = .perform) ∧
        after.handlers = before.handlers ∧
        ∃ value, after.frames = { frame with
          ip := instruction.next
          stack := value :: frame.stack.drop instruction.taken } :: below) ∧
    ∀ first last other, Answered start first last → Answered start first other →
      last = other := by
  constructor
  · intro first last before frame below instruction machine after answer
      suspended steps back direct
    exact suspended.comes_back started steps back direct
  · intro first last other answered again
    exact Nat.le_antisymm (again.le started answered)
      (answered.le started again)

/-- An effect that is performed inside a sum and resumed comes back
transparently, and resuming it is its only answer. -/
theorem suspension_in_sum_is_transparent :
    ∃ start before frame below instruction machine after answer, Started start ∧
      Suspended start 4 8 before frame below instruction ∧
      instruction.opcode = .perform ∧
      Steps start 8 machine after answer ∧ answer.opcode ≠ .return ∧
      after.handlers = before.handlers ∧
      (∃ value, after.frames = { frame with
        ip := instruction.next
        stack := value :: frame.stack.drop instruction.taken } :: below) ∧
      ∀ last, Answered start 4 last ↔ last = 8 := by
  obtain ⟨start, started, checked⟩ := @exists_started .standard
    "try { 1 + do e(2) } handle e(x) { resume(x) }"
    (fun start => [4, 5, 6, 7, 8, 9].map
      (fun count => (start.reached count).map fun machine =>
        (machine.frames.length, machine.instruction?.map (·.opcode))) =
      [some (1, some .perform), some (2, some .comment),
        some (2, some .loadGlobal), some (2, some .loadLocal),
        some (2, some .call), some (1, some .add)]) (by decide +kernel)
  simp only [decide_eq_true_eq, List.map_cons, List.map_nil, List.cons.injEq,
    Option.map_eq_some_iff, Prod.mk.injEq, and_true] at checked
  obtain ⟨⟨before, reaches, one, instruction, executes, performs⟩,
    ⟨second, reachesSecond, two, _⟩, ⟨third, reachesThird, three, _⟩,
    ⟨fourth, reachesFourth, four, _⟩,
    ⟨machine, reachesLast, five, answer, executesLast, calls⟩,
    ⟨after, reachesAfter, six, _⟩⟩ := checked
  obtain ⟨frame, below, frames⟩ :=
    List.exists_cons_of_length_pos (by omega : 0 < before.frames.length)
  have suspended : Suspended start 4 8 before frame below instruction := by
    refine ⟨reaches, frames, executes, by omega, ?_⟩
    intro count during low high reachesDuring
    obtain rfl | rfl | rfl | rfl : count = 5 ∨ count = 6 ∨ count = 7 ∨
      count = 8 := by omega
    · cases reachesSecond.symm.trans reachesDuring; omega
    · cases reachesThird.symm.trans reachesDuring; omega
    · cases reachesFourth.symm.trans reachesDuring; omega
    · cases reachesLast.symm.trans reachesDuring; omega
  have steps : Steps start 8 machine after answer := by
    obtain ⟨same, reachesSame, goes⟩ := reached_succ.1 reachesAfter
    cases reachesLast.symm.trans reachesSame
    exact ⟨reachesLast, executesLast, goes⟩
  have resumes : answer.opcode ≠ .return := by simp [calls]
  obtain ⟨transparent, once⟩ := suspension_is_transparent started
  obtain ⟨_, handlers, back⟩ :=
    transparent 4 8 before frame below instruction machine after answer
    suspended steps (by omega) (fun returns => absurd returns resumes)
  have answered : Answered start 4 8 :=
    ⟨before, machine, after, answer,
      ⟨frame, below, instruction, suspended, performs⟩, steps, by
        omega, .inr ⟨resumes, [], machine.frames, rfl, by omega, by simp⟩⟩
  refine ⟨start, before, frame, below, instruction, machine, after, answer,
    started, suspended, performs, steps, resumes, handlers, back, fun last =>
      ⟨fun again => ?_, ?_⟩⟩
  · exact once 4 last 8 again answered
  · rintro rfl
    exact answered

end Machine

end EffectScript
