import EffectScript.Proofs.Provenance
import EffectScript.Proofs.Surveying
import Mathlib.Data.DFinsupp.WellFounded

/-!
# Programs without loops terminate

Without loops the offset of a frame only grows. A call leaves the caller behind
its instruction, resuming goes back into a frame that was left in this way, and
a handler that returns without resuming sends the frame that owns its attempt to
the end of that attempt, which is ahead of it.

So each step leaves less of the frames: compared from the oldest one on, the
first frame that differs has less of its function before it, or it is gone. This
order is well-founded because the machine limits how many frames there are,
however deep the program recurses.
-/

namespace EffectScript

open Activation

/-! ## Programs without loops -/

/-- All names and no repetition. -/
def Vocabulary.loopFree : Vocabulary := ⟨fun _ => true, false⟩

/-- A function without repetitions in its text has no loops in its code. -/
theorem Sketch.Describes.loopFree
    {enclosing : List Registry} {sketch : Sketch} {template : Template}
    (describes : sketch.Describes enclosing template)
    (within : ∀ event ∈ sketch.events, event.isWithin .loopFree) :
    ∀ instruction ∈ (Instruction.walk template.code).instructions,
      instruction.opcode ≠ .loop := by
  intro instruction member repeats
  have marked : instruction ∈ template.eventInstructions :=
    List.mem_filter.2 ⟨member, by rw [repeats]; rfl⟩
  obtain ⟨event, present, appears⟩ := forall₂_mem_right describes.events marked
  rw [repeats] at appears
  have allowed := within event present
  rcases appears with becomes | ⟨_, _, access⟩
  · cases event with
    | reads name level | writes name level =>
        cases level <;> simp [Event.Becomes] at becomes
    | attempts clauses => cases becomes.1
    | repeats => cases allowed
  · cases access

/-! ## The functions that a run calls -/

/-- All functions and closures in the value are known. -/
inductive Value.CallsOnly (known : Template → Prop) : Value → Prop
  | nil : CallsOnly known .nil
  | bool (truth : Bool) : CallsOnly known (.bool truth)
  | int (number : Int64) : CallsOnly known (.int number)
  | str (text : String) : CallsOnly known (.str text)
  | list {nodes : List (Node Value)}
      (nodesCall : ∀ node ∈ nodes, CallsOnly known node.value) :
      CallsOnly known (.list nodes)
  | map {identity : Nat} {entries : List (String × Value)}
      (entriesCall : ∀ entry ∈ entries, CallsOnly known entry.2) :
        CallsOnly known (.map identity entries)
  | function {identity : Nat} {template : Template} (isKnown : known template) :
      CallsOnly known (.function identity template)
  | closure {closure : Closure} (isKnown : known closure.template) :
      CallsOnly known (.closure closure)
  | box (cell : Nat) : CallsOnly known (.box cell)
  | exception (identity : Nat) (exception : Exception) :
      CallsOnly known (.exception identity exception)
  | builtin (builtin : Builtin) : CallsOnly known (.builtin builtin)

theorem Value.CallsOnly.stable (known : Template → Prop) :
    Value.Stable (Value.CallsOnly known) where
  nil := .nil
  bool := .bool
  int := .int
  str := .str
  list := by
    refine ⟨fun calls => ?_, .list⟩
    cases calls with
    | list nodesCall => exact nodesCall
  map := by
    refine ⟨fun calls => ?_, .map⟩
    cases calls with
    | map entriesCall => exact entriesCall
  exception := .exception
  builtin := .builtin

/-- The functions in constants of known functions are known. -/
theorem Value.CallsOnly.inherited {known : Template → Prop}
    (constants : ∀ template, known template → ∀ value ∈ template.constants,
      value.CallsOnly known) :
    Value.Inherited (Value.CallsOnly known) where
  toKept := (Value.CallsOnly.stable known).kept
  box := .box
  constant := by
    intro closure value calls member
    cases calls with
    | closure isKnown => exact constants _ isKnown value member
  closes := by
    intro identity closure calls
    cases calls with
    | function isKnown => exact .closure isKnown

/-! ## What is left of the frames -/

/-- How many bytes of its function the frame has before it. -/
def Frame.remaining (frame : Frame) : Nat :=
  frame.template.code.size - frame.ip

/-- What is left of the frame with an index: more than nothing as long as there
is such a frame. -/
def remainingAt (frames : List Frame) (index : Nat) : Nat :=
  match frames.reverse[index]? with
  | some frame => frame.remaining + 1
  | none => 0

/-- What is left of the frames, the oldest one first. -/
def outlook (limit : Nat) (frames : List Frame) : Lex (Fin limit → Nat) :=
  toLex fun index => remainingAt frames index

section Outlook

variable {limit : Nat} {frame landed changed : Frame}
    {newer gone opened older frames later : List Frame}

theorem remainingAt_older {index : Nat} (less : index < older.length) :
    remainingAt (newer ++ older) index = remainingAt older index := by
  have inside : index < older.reverse.length := by simpa using less
  simp [remainingAt, List.getElem?_append_left inside]

theorem remainingAt_landed :
    remainingAt (newer ++ frame :: older) older.length =
      frame.remaining + 1 := by
  simp [remainingAt]

theorem remainingAt_none {index : Nat} (beyond : frames.length ≤ index) :
    remainingAt frames index = 0 := by
  simp [remainingAt, beyond]

/-- There is less left when there is less left of one frame and as much of the
older ones. -/
theorem outlook_lt {index : Nat}
    (inside : index < limit)
    (same : ∀ other < index, remainingAt later other = remainingAt frames other)
    (less : remainingAt later index < remainingAt frames index) :
    outlook limit later < outlook limit frames :=
  ⟨⟨index, inside⟩, fun other before => same other before, less⟩

/-- Less is left of one frame, whatever is opened above it. -/
theorem outlook_lt_of_remaining
    (ahead : changed.remaining < landed.remaining)
    (room : (gone ++ landed :: older).length ≤ limit) :
    outlook limit (opened ++ changed :: older) <
      outlook limit (gone ++ landed :: older) := by
  have inside : older.length < limit := by
    simp only [List.length_append, List.length_cons] at room
    omega
  refine outlook_lt inside (fun other before => ?_) ?_
  · rw [List.append_cons opened, List.append_cons gone,
      remainingAt_older before, remainingAt_older before]
  · rw [remainingAt_landed, remainingAt_landed]
    omega

/-- Frames are gone from above one of which as much is left. -/
theorem outlook_lt_of_gone
    (same : changed.remaining = landed.remaining)
    (nonempty : gone ≠ [])
    (room : (gone ++ landed :: older).length ≤ limit) :
    outlook limit (changed :: older) <
      outlook limit (gone ++ landed :: older) := by
  have inside : older.length + 1 < limit := by
    have := List.length_pos_iff.2 nonempty
    simp only [List.length_append, List.length_cons] at room
    omega
  refine outlook_lt inside (fun other before => ?_) ?_
  · rcases Nat.lt_succ_iff_lt_or_eq.1 before with less | rfl
    · rw [List.append_cons gone, remainingAt_older less,
        ← List.singleton_append, remainingAt_older less]
    · rw [remainingAt_landed, ← List.nil_append (changed :: older),
        remainingAt_landed, same]
  · obtain ⟨above, lowest, rfl⟩ :=
      (List.eq_nil_or_concat gone).resolve_left nonempty
    have none : remainingAt (changed :: older) (older.length + 1) = 0 :=
      remainingAt_none (Nat.le_refl _)
    have some_ : remainingAt (above ++ lowest :: landed :: older)
        (older.length + 1) =
        lowest.remaining + 1 := remainingAt_landed
    rw [none, List.concat_eq_append, List.append_assoc,
      List.singleton_append, some_]
    exact Nat.succ_pos _

end Outlook

/-! ## Steps -/

theorem Instruction.next_le_of_decode {code : Array UInt8}
    {offset : Nat} {instruction : Instruction}
    (decodes : Instruction.decode code offset = .ok instruction) :
    offset < instruction.next ∧ instruction.next ≤ code.size := by
  unfold Instruction.decode at decodes
  split at decodes
  · cases decodes
  · split at decodes
    · cases decodes
    next opcode _ =>
      split at decodes
      next enough =>
        cases decodes
        exact ⟨Nat.lt_add_of_pos_right opcode.size_pos, enough⟩
      · cases decodes

namespace Activation

variable {activation : Activation Handler} {older : List (Activation Handler)}
    {index awaiting : Nat} {frame : Frame}

/-- The activation is before an instruction of its function. -/
theorem Fits.exists_instruction (fits : activation.Fits index awaiting) :
    ∃ instruction ∈
      (Instruction.walk activation.frame.template.code).instructions,
      Instruction.decode activation.frame.template.code activation.frame.ip =
        .ok instruction := by
  obtain ⟨emission, here⟩ := fits.known
  exact ⟨_, fits.laidOut.mem_walk here, fits.laidOut.decode here⟩

/-- Less is left of an activation that has gone ahead. -/
theorem Fits.remaining_lt
    (fits : activation.Fits index awaiting)
    (same : frame.closure = activation.frame.closure)
    (ahead : activation.frame.ip < frame.ip) :
    frame.remaining < activation.frame.remaining := by
  obtain ⟨instruction, _, decodes⟩ := fits.exists_instruction
  obtain ⟨_, inside⟩ := Instruction.next_le_of_decode decodes
  simp only [Frame.remaining, Frame.template, same] at inside ⊢
  omega

/-- Less is left when the newest activation has gone ahead. -/
theorem Fits.outlook_lt {frames : List Frame} {limit : Nat}
    (fits : activation.Fits index awaiting)
    (same : frame.closure = activation.frame.closure)
    (ahead : activation.frame.ip < frame.ip)
    (room : (activation.frame :: frames).length ≤ limit) :
    outlook limit (frame :: frames) <
      outlook limit (activation.frame :: frames) :=
  @outlook_lt_of_remaining limit activation.frame frame [] [] frames
    (fits.remaining_lt same ahead) room

end Activation

/-- A step leaves less of the frames than there was, if the newest one goes
ahead whenever it stays the newest one. -/
theorem Change.outlook_lt {instruction : Instruction}
    {activations later : List (Activation Handler)} {limit : Nat}
    (change : Change instruction activations later)
    (stacked : Stacked 0 activations)
    (room : activations.length ≤ limit)
    (next : ∀ newest others, activations = newest :: others →
      newest.frame.ip < instruction.next)
    (forward : ∀ newest others changed rest, activations = newest :: others →
      later = changed :: rest → rest.length = others.length →
      newest.frame.ip < changed.frame.ip) :
    outlook limit (later.map (·.frame)) <
      outlook limit (activations.map (·.frame)) := by
  have framesRoom : (activations.map (·.frame)).length ≤ limit := by
    rwa [List.length_map]
  cases change with
  | works continues =>
      exact stacked.1.outlook_lt continues.closure
        (forward _ _ _ _ rfl rfl rfl) framesRoom
  | registers _ continues =>
      exact stacked.1.outlook_lt continues.closure
        (forward _ _ _ _ rfl rfl rfl) framesRoom
  | completes _ continues =>
      exact stacked.1.outlook_lt continues.closure
        (forward _ _ _ _ rfl rfl rfl) framesRoom
  | @opens activation callee older shape =>
      exact @outlook_lt_of_remaining limit activation.frame
        (activation.frame.suspended instruction) []
        [callee.frame] _ (stacked.1.remaining_lt rfl (next _ _ rfl)) framesRoom
  | @returns callee activation older value =>
      exact @outlook_lt_of_gone limit activation.frame
        (activation.frame.given value) [callee.frame] _ rfl (by simp) framesRoom
  | @abandons callee activation above older link handler staying cut kept shape
        value _ _ _ owns _ _ _ =>
      obtain ⟨_, _, aboveStacked⟩ := stacked
      obtain ⟨fits, _, _⟩ := aboveStacked.drop
      have ahead :=
        (fits.owned (owns.own ▸ List.mem_append_left _ owns.member)).2.2
      simp only [List.map_cons, List.map_append] at framesRoom ⊢
      rw [← List.cons_append] at framesRoom ⊢
      exact @outlook_lt_of_remaining limit _ _ _ [] _
        (fits.remaining_lt
            (show (activation.completed handler value shape
              kept).frame.closure =
          activation.frame.closure from rfl) ahead) framesRoom
  | @resumes callee activation above older link value =>
      simp only [List.map_cons, List.map_append] at framesRoom ⊢
      rw [List.append_cons] at framesRoom ⊢
      exact outlook_lt_of_gone rfl (by simp) framesRoom

/-! ## Runs -/

/-- The functions have no loops, and the functions in their constants are among
them. -/
structure LoopFree (known : Template → Prop) : Prop where
  constants : ∀ template, known template →
    ∀ value ∈ template.constants, value.CallsOnly known
  loops : ∀ template, known template →
    ∀ instruction ∈ (Instruction.walk template.code).instructions,
      instruction.opcode ≠ .loop

namespace Machine

/-- A machine in the middle of a run that calls only known functions. -/
structure Calling (known : Template → Prop) (machine : Machine) : Prop where
  sound : ∃ activation older, machine.Sound (activation :: older)
  calls : machine.Everywhere (Value.CallsOnly known)
  room : machine.frames.length ≤ machine.limits.maxFrames

variable {known : Template → Prop} {machine after : Machine}

/-- Each step of loop-free functions leaves less of the frames. -/
theorem Calling.step
    (calling : machine.Calling known)
    (loopFree : LoopFree known)
    (steps : machine.step = .running after) :
    after.Calling known ∧ after.limits = machine.limits ∧
      outlook machine.limits.maxFrames after.frames <
        outlook machine.limits.maxFrames machine.frames := by
  obtain ⟨activation, older, sound⟩ := calling.sound
  obtain ⟨instruction, later, executes, laterSound, change⟩ :=
    sound.running steps
  have frames := sound.frames
  have decodes := (instruction?_eq_some frames).1 executes.1
  obtain ⟨decoded, member, again⟩ := sound.stacked.1.exists_instruction
  cases decodes.symm.trans again
  have isKnown : known activation.frame.template := by
    cases (calling.calls.newest frames).closure with
    | closure isKnown => exact isKnown
  have proceeds := calling.calls.step
    (Value.CallsOnly.inherited loopFree.constants) frames decodes
    (loopFree.loops _ isKnown _ member) steps
  obtain ⟨ahead, _⟩ := Instruction.next_le_of_decode decodes
  have count : older.length + 1 = machine.frames.length := by simp [frames]
  have room : after.frames.length ≤ machine.limits.maxFrames := by
    have machineRoom := calling.room
    rcases proceeds.few with few | few
    · rw [List.length_map] at few
      omega
    · exact few
  refine ⟨⟨?_, proceeds.everywhere, proceeds.limits ▸ room⟩,
    proceeds.limits, ?_⟩
  · obtain ⟨newest, others, rfl⟩ := List.exists_cons_of_ne_nil change.ne_nil
    exact ⟨newest, others, laterSound⟩
  · rw [laterSound.frames, frames]
    refine change.outlook_lt sound.stacked
      (by rw [List.length_cons, count]; exact calling.room) ?_ ?_
    · rintro _ _ ⟨⟩
      exact ahead
    · rintro _ _ changed rest ⟨⟩ rfl same
      refine Nat.lt_of_lt_of_le ahead
        (proceeds.forward changed.frame _ laterSound.frames ?_)
      simpa using same

/-- A run of loop-free functions ends. -/
theorem Calling.run_ends
    (calling : machine.Calling known)
    (loopFree : LoopFree known) :
    ∃ bound ending, machine.run bound = some ending := by
  -- By induction on what is left of the frames; the limit on frames stays the
  -- same.
  obtain ⟨limit, limitEq⟩ :
    ∃ limit, machine.limits.maxFrames = limit := ⟨_, rfl⟩
  generalize leftEq : outlook limit machine.frames = left
  induction left using WellFoundedLT.induction generalizing machine with
  | ind left inner =>
      cases steps : machine.step with
      | running after =>
          obtain ⟨afterCalling, sameLimits, less⟩ := calling.step loopFree steps
          rw [limitEq, leftEq] at less
          obtain ⟨bound, ending, ended⟩ :=
            inner _ less afterCalling (by rw [sameLimits, limitEq]) rfl
          exact ⟨bound + 1, ending, by rw [run_of_step steps, ended]⟩
      | finished value final =>
          exact ⟨1, ⟨.ok value, final⟩, by simp only [Machine.run, steps]⟩
      | failed failure final =>
          exact ⟨1, ⟨.error failure, final⟩, by simp only [Machine.run, steps]⟩

/-- All values of a fresh machine are native functions. -/
theorem everywhere_fresh {property : Value → Prop}
    (natives : ∀ builtin, property (.builtin builtin))
    (limits : Limits) (outlet : Outlet) :
    (fresh limits outlet).Everywhere property := by
  obtain ⟨globals, methods⟩ := fresh_native natives limits outlet
  exact ⟨by simp [fresh], by simp [fresh], globals, methods, by simp [fresh]⟩

end Machine

/-- The functions of a program without repetitions are loop-free. -/
theorem Block.loopFree_of_compileWith {nils : StatementNils}
    {program : Block} {script : Template}
    (compiled : program.compileWith nils = .ok script)
    (onceOnly : program.isWithin .loopFree) :
    LoopFree script.Contains := by
  have described := (Block.compileWith_described compiled).within
    (Block.sketch_within onceOnly)
  have each {template : Template} (contains : script.Contains template) :
      ∃ enclosing sketch, Sketch.Describes enclosing sketch template ∧
        ∀ event ∈ sketch.events, event.isWithin .loopFree := by
    obtain ⟨enclosing, sketch, matches_⟩ := described.of_contains contains
    exact ⟨enclosing, sketch, matches_.here⟩
  constructor
  · intro template contains value member
    obtain ⟨_, _, describes, _⟩ := each contains
    have pooled := describes.constants value member
    cases value with
    | int number => exact .int number
    | str text => exact .str text
    | function identity inner => exact .function (.constant contains member)
    | _ => cases pooled
  · intro template contains
    obtain ⟨_, _, describes, within⟩ := each contains
    exact describes.loopFree within

namespace Machine

/-- Programs without loops terminate. A source text that compiles and has no
repetition in it ends after a count of steps on a fresh machine with any limits:
with a value, an exception, an effect that nobody handles, or an overflow of the
frames or of an operand stack. -/
theorem loop_free_programs_terminate {source : String}
    {program : Block} {script : Template}
    (parsed : parseSource source = .ok program)
    (onceOnly : program.isWithin .loopFree)
    (compiled : program.compile = .ok script)
    (limits : Limits) (outlet : Outlet) :
    ∃ bound ending, (fresh limits outlet).interpret bound script = some ending ∧
      ∀ failure, ending.result = .error failure → failure.Expected := by
  have loopFree := Block.loopFree_of_compileWith compiled onceOnly
  have compiles : compileSource source "" = .ok script := by
    simp only [compileSource, parsed, compiled]
  have surrounded := surrounded_fresh limits outlet
  suffices ends : ∃ bound ending, (fresh limits outlet).interpret bound script =
      some ending by
    obtain ⟨bound, ending, ended⟩ := ends
    exact ⟨bound, ending, ended, (surrounded.interpret compiles ended).2⟩
  unfold Machine.interpret
  rcases surrounded.load compiles
    with ⟨activation, start, loads, _, sound⟩ | ⟨failure, fails, _⟩
  · obtain ⟨everywhere, room⟩ := (everywhere_fresh .builtin limits outlet).load
      (Value.CallsOnly.inherited loopFree.constants)
      (@Value.CallsOnly.function _ 0 _ (.itself script)) loads
    rw [loads]
    exact Calling.run_ends ⟨⟨activation, [], sound⟩, everywhere, room⟩ loopFree
  · rw [fails]
    exact ⟨0, _, rfl⟩

/-- Whether a source text compiles and has no repetition in it. -/
def compilesLoopFree (source : String) : Bool :=
  match parseSource source with
  | .error _ => false
  | .ok program =>
      match program.compile with
      | .error _ => false
      | .ok _ => program.isWithin .loopFree

theorem exists_of_compilesLoopFree {source : String}
    (checked : compilesLoopFree source) :
    ∃ program script, parseSource source = .ok program ∧
      program.isWithin .loopFree ∧
      program.compile = .ok script := by
  unfold compilesLoopFree at checked
  split at checked
  · cases checked
  next program parsed =>
    split at checked
    · cases checked
    next script compiled => exact ⟨program, script, parsed, checked, compiled⟩

/-- A function that performs an effect whose handler calls the function again
before it resumes: without a limit on frames it would never end. -/
theorem endless_effects_terminate :
    ∃ program script,
      parseSource
        "fn f(n) { try { do e(n) + 1 } handle e(x) { resume(f(x + 1)) } } f(0)"
        = .ok program ∧
      program.isWithin .loopFree ∧ program.compile = .ok script ∧
      ∃ bound ending, (fresh .standard (.collecting "")).interpret bound
          script = some ending ∧
        ∀ failure, ending.result = .error failure → failure.Expected := by
  obtain ⟨program, script, parsed, onceOnly, compiled⟩ :=
    exists_of_compilesLoopFree
    (show compilesLoopFree
      "fn f(n) { try { do e(n) + 1 } handle e(x) { resume(f(x + 1)) } } f(0)" by
        decide +kernel)
  exact ⟨program, script, parsed, onceOnly, compiled,
    loop_free_programs_terminate parsed onceOnly compiled .standard
      (.collecting "")⟩

end Machine

end EffectScript
