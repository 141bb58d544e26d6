import EffectScript.Proofs.Run

/-!
# Activations along a run

A step changes one activation, discards all newer ones or opens one more, and
leaves the older ones as they are. So an activation persists as long as a frame
with its index is live, and whatever lies below it is the same as when it was
opened.
-/

namespace EffectScript

open Activation

theorem suffix_drop {α : Type} {bottom stack : List α}
    {count : Nat}
    (suffix : bottom <:+ stack)
    (few : bottom.length + count ≤ stack.length) :
    bottom <:+ stack.drop count := by
  obtain ⟨front, rfl⟩ := suffix
  rw [List.length_append] at few
  rw [List.drop_append_of_le_length (by omega)]
  exact List.suffix_append _ _

/-! ## One step -/

/-- How an activation goes on in a step that leaves newer activations above
it. -/
structure Activation.Moves
    (instruction : Instruction)
    (activation : Activation Handler)
    (newer : List (Activation Handler))
    (kept : Activation Handler) : Prop where
  continues : activation.frame.Continues kept.frame
  code : kept.code = activation.code
  /-- Its handlers stay, one is registered, or those of attempts that are over
  go. -/
  own : kept.own = activation.own ∨
    (instruction.opcode = .setHandler ∧ newer = [] ∧ ∃ handler,
      kept.own = handler :: activation.own) ∨
    newer = [] ∧ ∃ gone, activation.own = gone ++ kept.own ∧
      ∀ handler ∈ gone, handler.target ≤ kept.frame.ip
  /-- What lies beneath the floor of the operand stack stays there. -/
  stack : ∀ bottom, bottom <:+ activation.frame.stack →
    bottom.length ≤ activation.shape.floor →
    bottom.length ≤ kept.shape.floor ∨ bottom.length < kept.frame.stack.length →
      bottom <:+ kept.frame.stack

/-- The parts of a change: newer activations go, one activation lands, and at
most one is opened. -/
structure Outline
    (instruction : Instruction)
    (activations later gone : List (Activation Handler))
    (landed changed : Activation Handler)
    (older opened : List (Activation Handler)) : Prop where
  before : activations = gone ++ landed :: older
  after : later = opened ++ changed :: older
  either : opened = [] ∨ gone = []
  few : opened.length ≤ 1
  fresh : ∀ callee ∈ opened, callee.own = [] ∧
    (callee.frame.link ≠ none ↔ instruction.opcode = .perform)
  moves : landed.Moves instruction opened changed

namespace Activation

variable {instruction : Instruction} {activation : Activation Handler}
  {newer older : List (Activation Handler)}

theorem Moves.refl
    (activation : Activation Handler)
    (newer : List (Activation Handler)) :
    activation.Moves instruction newer activation where
  continues := ⟨rfl, rfl, fun _ _ => rfl⟩
  code := rfl
  own := .inl rfl
  stack := fun _ suffix _ _ => suffix

/-- An activation that is given a value goes on with its handlers. -/
theorem Moves.given (activation : Activation Handler) (value : Value) :
    activation.Moves instruction []
      { activation with frame := activation.frame.given value } where
  continues := ⟨rfl, rfl, fun _ _ => rfl⟩
  code := rfl
  own := .inl rfl
  stack := fun _ suffix _ _ => suffix.trans (List.suffix_cons _ _)

/-- Taking values above the floor leaves what lies beneath it. -/
theorem Fits.suffix_drop {index count : Nat}
    (fits : activation.Fits index 0)
    (enough : count ≤ activation.shape.height)
    {bottom : List Value}
    (suffix : bottom <:+ activation.frame.stack)
    (low : bottom.length ≤ activation.shape.floor) :
    bottom <:+ activation.frame.stack.drop count := by
  have height := fits.height
  unfold Shape.depth at height
  exact EffectScript.suffix_drop suffix (by omega)

/-- Abandoning an attempt takes its handlers and all newer ones away. -/
theorem Owns.moves {handler : Handler}
    {staying cut kept : List Handler} {shape : Shape} {value : Value}
    (owns : activation.Owns older handler staying cut kept shape) :
    activation.Moves instruction []
      (activation.completed handler value shape kept) where
  continues := ⟨rfl, rfl, fun _ _ => rfl⟩
  code := rfl
  own := .inr (.inr ⟨rfl, cut, owns.own, owns.inner⟩)
  stack := by
    intro bottom suffix _ short
    have deep := owns.deep
    have level := owns.level
    have few : bottom.length ≤ handler.depth := by
      rcases short with low | less
      · exact Nat.le_trans low level
      · simp only [completed, List.length_cons, length_oldest] at less
        omega
    exact (EffectScript.suffix_drop suffix (by omega)).trans
      (List.suffix_cons _ _)

end Activation

namespace Change

variable {instruction : Instruction}
    {activations later above older : List (Activation Handler)}
    {activation : Activation Handler}

theorem outline
    (change : Change instruction activations later)
    (stacked : Stacked 0 activations) :
    ∃ gone landed changed older opened,
      Outline instruction activations later gone landed changed older
        opened := by
  cases change with
  | works continues _ stack =>
      obtain ⟨count, values, enough, stackEq⟩ := stack
      refine ⟨[], _, _, _, [], rfl, rfl, .inl rfl, Nat.zero_le _, by
        simp, continues, rfl, .inl rfl, ?_⟩
      intro bottom suffix low _
      exact stackEq ▸ (stacked.1.suffix_drop enough suffix low).trans
        (List.suffix_append _ _)
  | registers operation continues _ _ _ stack floor =>
      refine ⟨[], _, _, _, [], rfl, rfl, .inl rfl, Nat.zero_le _, by
        simp, continues, rfl,
        .inr (.inl ⟨operation, rfl, _, rfl⟩), ?_⟩
      intro bottom suffix _ short
      rw [stack] at suffix
      rcases List.suffix_cons_iff.1 suffix with rfl | inside
      · simp only [floor, List.length_cons] at short
        omega
      · exact inside
  | completes _ continues own ends stack =>
      refine ⟨[], _, _, _, [], rfl, rfl, .inl rfl, Nat.zero_le _, by
        simp, continues, rfl,
        .inr
          (.inr ⟨rfl, _, own, fun handler member =>
            Nat.le_of_eq (ends handler member)⟩), ?_⟩
      exact fun bottom suffix _ _ => stack ▸ suffix
  | @opens _ callee _ _ _ enough fresh linked =>
      refine ⟨[], _, _, _, [callee], rfl, rfl, .inr rfl, Nat.le_refl _,
        by simpa using ⟨fresh, linked⟩, ⟨rfl, rfl, fun _ _ => rfl⟩, rfl,
          .inl rfl, ?_⟩
      exact fun bottom suffix low _ => stacked.1.suffix_drop enough suffix low
  | @returns callee activation _ value =>
      exact ⟨[callee], _, _, _, [], rfl, rfl, .inl rfl, Nat.zero_le _, by
        simp, .given activation value⟩
  | @abandons callee _ above _ _ _ _ _ _ _ _ _ _ _ owns _ _ _ =>
      exact ⟨callee :: above, _, _, _, [], rfl, rfl, .inl rfl, Nat.zero_le _, by
        simp, owns.moves⟩
  | @resumes callee activation above older _ value =>
      exact ⟨above ++ [callee], activation, _, older, [], by
        simp, rfl, .inl rfl, Nat.zero_le _,
        by simp, .given activation value⟩

/-- An activation whose index stays live goes on, and those below it are left as
they are. -/
theorem persists
    (change : Change instruction (above ++ activation :: older) later)
    (stacked : Stacked 0 (above ++ activation :: older))
    (deep : older.length < later.length) :
    ∃ newer kept, later = newer ++ kept :: older ∧
      activation.Moves instruction newer kept := by
  obtain ⟨gone, landed, changed, below, opened, outline⟩ :=
    change.outline stacked
  have parts := outline.before
  have after := outline.after
  rcases Nat.lt_trichotomy below.length older.length with lower | level | higher
  · -- Something older landed, so nothing was opened.
    have longer : gone ≠ [] := by
      intro none
      have lengths := congrArg List.length parts
      simp only [none, List.length_append, List.length_cons, List.length_nil]
        at lengths
      omega
    have none : opened = [] := outline.either.resolve_right longer
    rw [after, none] at deep
    simp only [List.nil_append, List.length_cons] at deep
    omega
  · obtain ⟨_, sameTail⟩ := List.append_inj' parts (by simp [level])
    cases sameTail
    exact ⟨opened, changed, after, outline.moves⟩
  · have within : below <:+ above ++ activation :: older := by
      rw [parts]
      exact ⟨gone ++ [landed], by simp⟩
    obtain ⟨between, rfl⟩ :=
      List.suffix_of_suffix_length_le
        (List.suffix_append above (activation :: older)) within higher
    exact ⟨opened ++ changed :: between, activation, by
      rw [after]; simp, .refl _ _⟩

/-- Only the end of a body and the return of a handler take handlers of an
activation out of force and leave it the newest one. -/
theorem loses {newer : List (Activation Handler)}
    {kept : Activation Handler}
    (change : Change instruction (newer ++ activation :: older) (kept :: older))
    (fewer : kept.own.length < activation.own.length) :
    (newer = [] ∧ instruction.opcode = .popHandlers ∧
        kept.frame.stack = activation.frame.stack) ∨
      ∃ callee above link value, newer = callee :: above ∧
        instruction.opcode = .return ∧
        callee.frame.link = some link ∧ link.handlerFrame = older.length ∧
        link.target = kept.frame.ip ∧ callee.frame.stack = [value] ∧
        kept.frame.stack.head? = some value := by
  generalize parts : newer ++ activation :: older = activations at change
  have split {above : List (Activation Handler)} {other : Activation Handler}
      (same : activations = above ++ other :: older) : newer = above ∧
      activation = other := by
    obtain ⟨newerEq, rest⟩ := List.append_inj' (parts.trans same) rfl
    exact ⟨newerEq, (List.cons.inj rest).1⟩
  have stays (same : kept.own = activation.own) : False := by
    rw [same] at fewer
    exact Nat.lt_irrefl _ fewer
  cases change with
  | completes operation _ _ _ stack =>
      obtain ⟨rfl, rfl⟩ := @split [] _ rfl
      exact .inl ⟨rfl, operation, stack⟩
  | @abandons callee other above _ link _ _ _ _ _ value operation linked
        _ _ owner target returned =>
      obtain ⟨rfl, rfl⟩ := @split (callee :: above) _ rfl
      exact .inr ⟨callee, above, link, value, rfl, operation, linked, owner,
        target, returned, rfl⟩
  | works =>
      obtain ⟨-, rfl⟩ := @split [] _ rfl
      exact (stays rfl).elim
  | registers =>
      obtain ⟨-, rfl⟩ := @split [] _ rfl
      exact absurd fewer (Nat.not_lt.2 (Nat.le_succ _))
  | opens =>
      have count := congrArg List.length parts
      simp only [List.length_append, List.length_cons] at count
      omega
  | @returns callee =>
      obtain ⟨-, rfl⟩ := @split [callee] _ rfl
      exact (stays rfl).elim
  | @resumes callee resumed above =>
      obtain ⟨-, rfl⟩ := @split (above ++ [callee]) resumed (by simp)
      exact (stays rfl).elim

/-- An activation has just been opened, or it was there before, above the same
ones. -/
theorem origin {newer : List (Activation Handler)}
    {callee : Activation Handler}
    (change : Change instruction activations (newer ++ callee :: older))
    (stacked : Stacked 0 activations) :
    (∃ caller changed below, activations = caller :: below ∧
        older = changed :: below ∧
        changed.own = caller.own ∧ changed.frame.link = caller.frame.link ∧
        (callee.frame.link ≠ none ↔ instruction.opcode = .perform)) ∨
      ∃ above previous, activations = above ++ previous :: older ∧
        previous.frame.link = callee.frame.link := by
  obtain ⟨gone, landed, changed, below, opened, outline⟩ :=
    change.outline stacked
  have few := outline.few
  rcases List.append_eq_append_iff.1 outline.after
    with ⟨between, openedEq, rest⟩ | ⟨between, newerEq, rest⟩
  · cases between with
    | nil =>
        cases rest
        exact .inr ⟨gone, landed, outline.before,
          outline.moves.continues.link.symm⟩
    | cons first others =>
        -- One activation was opened, and it is this one.
        obtain ⟨rfl, olderEq⟩ := List.cons.inj rest
        have none : others = [] := by
          apply List.eq_nil_of_length_eq_zero
          rw [openedEq, List.length_append, List.length_cons] at few
          omega
        subst none
        have member : callee ∈ opened := by simp [openedEq]
        have nothingGone : gone = [] := by
          refine outline.either.resolve_left ?_
          rintro rfl
          cases member
        have own : changed.own = landed.own := by
          rcases outline.moves.own with same | ⟨_, empty, _⟩ | ⟨empty, _⟩
          · exact same
          · rw [empty] at member
            cases member
          · rw [empty] at member
            cases member
        exact .inl ⟨landed, changed, below, by
          rw [outline.before, nothingGone]; rfl, olderEq, own,
          outline.moves.continues.link, (outline.fresh callee member).2⟩
  · cases between with
    | nil =>
        cases rest
        exact .inr ⟨gone, landed, outline.before,
          outline.moves.continues.link.symm⟩
    | cons first others =>
        obtain ⟨_, belowEq⟩ := List.cons.inj rest
        refine .inr ⟨gone ++ landed :: others, callee, ?_, rfl⟩
        rw [outline.before, belowEq]
        simp

end Change

theorem Frame.Continues.trans {first second third : Frame}
    (early : first.Continues second)
    (late : second.Continues third) : first.Continues third where
  closure := late.closure.trans early.closure
  link := late.link.trans early.link
  boxes := by
    intro slot heap
    have sameTemplate : second.template = first.template :=
      congrArg Closure.template early.closure
    exact (late.boxes slot (sameTemplate ▸ heap)).trans (early.boxes slot heap)

/-! ## Many steps -/

namespace Machine

/-- After `last` steps the run executes an instruction that goes on in the
machine `after`. -/
structure Steps
    (start : Machine) (last : Nat) (machine after : Machine)
    (instruction : Instruction) : Prop where
  reaches : start.reached last = some machine
  executes : machine.instruction? = some instruction
  steps : machine.step = .running after

/-- The frame with the given index is live. -/
def FrameAt (machine : Machine) (index : Nat) (frame : Frame) : Prop :=
  ∃ newer older, machine.frames = newer ++ frame :: older ∧ older.length = index

variable {start machine later after : Machine}
    {above older activations : List (Activation Handler)}
    {activation : Activation Handler} {first last : Nat}
    {instruction : Instruction}

theorem Sound.length_frames (sound : machine.Sound activations) :
    machine.frames.length = activations.length := by
  rw [sound.frames, List.length_map]

theorem FrameAt.lt {index : Nat} {frame : Frame}
    (live : machine.FrameAt index frame) :
    index < machine.frames.length := by
  obtain ⟨newer, older, frames, rfl⟩ := live
  simp only [frames, List.length_append, List.length_cons]
  omega

/-- The frame with the index of an activation is that of the activation. -/
theorem Sound.frameAt
    (sound : machine.Sound (above ++ activation :: older))
    {frame : Frame} :
    machine.FrameAt older.length frame ↔ frame = activation.frame := by
  constructor
  · rintro ⟨newer, rest, frames, level⟩
    rw [sound.frames, List.map_append, List.map_cons] at frames
    obtain ⟨_, same⟩ := List.append_inj' frames (by simp [level])
    exact (List.cons.inj same).1.symm
  · rintro rfl
    exact ⟨above.map (·.frame), older.map (·.frame), by
      simp [sound.frames], by simp⟩

/-- The change that a step of a run makes. -/
theorem Steps.change
    (steps : Steps start last machine after instruction)
    (sound : machine.Sound activations)
    (live : activations ≠ []) :
    ∃ later, after.Sound later ∧ Change instruction activations later := by
  obtain ⟨activation, older, rfl⟩ := List.exists_cons_of_ne_nil live
  obtain ⟨executed, later, executes, laterSound, change⟩ :=
    sound.running steps.steps
  cases executes.1.symm.trans steps.executes
  exact ⟨later, laterSound, change⟩

/-- The steps of a run that goes on. -/
theorem Started.steps
    (started : Started start)
    (reaches : start.reached (last + 1) = some after) :
    ∃ machine instruction, Steps start last machine after instruction := by
  obtain ⟨machine, reachesMachine, steps⟩ := reached_succ.1 reaches
  obtain ⟨activation, older, sound⟩ := started.sound_reached reachesMachine
  obtain ⟨instruction, _, executes, _⟩ := sound.running steps
  exact ⟨machine, instruction, reachesMachine, executes.1, steps⟩

/-- An activation whose index stays live during a run goes on, and those below
it are left as they are. -/
theorem Sound.persists
    (sound : machine.Sound (above ++ activation :: older))
    (reaches : start.reached first = some machine)
    (order : first ≤ last)
    (reachesLast : start.reached last = some later)
    (live : ∀ count during, first < count → count ≤ last → start.reached count =
      some during → older.length < during.frames.length) :
    ∃ newer kept, later.Sound (newer ++ kept :: older) ∧
      activation.frame.Continues kept.frame := by
  induction order generalizing later with
  | refl =>
      rw [reaches] at reachesLast
      cases reachesLast
      exact ⟨above, activation, sound, rfl, rfl, fun _ _ => rfl⟩
  | @step last order inner =>
      obtain ⟨before, reachesBefore, steps⟩ := reached_succ.1 reachesLast
      obtain ⟨newer, kept, beforeSound, continues⟩ := inner reachesBefore
        fun count during after upTo =>
          live count during after (Nat.le_succ_of_le upTo)
      obtain ⟨newest, others, parts⟩ :=
        List.exists_cons_of_ne_nil (show newer ++ kept :: older ≠ [] by simp)
      obtain ⟨instruction, activations, _, laterSound, change⟩ :=
        (parts ▸ beforeSound).running steps
      rw [← parts] at change
      have deep := live (last + 1) later (Nat.lt_succ_of_le order)
        (Nat.le_refl _) reachesLast
      rw [laterSound.length_frames] at deep
      obtain ⟨onward, changed, rfl, moves⟩ :=
        change.persists beforeSound.stacked deep
      exact ⟨onward, changed, laterSound, continues.trans moves.continues⟩

end Machine

end EffectScript
