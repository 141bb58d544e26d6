import EffectScript.Proofs.Capture
import EffectScript.Proofs.Naming
import EffectScript.Proofs.Origin
import EffectScript.Proofs.Safety
import EffectScript.Proofs.Suspension

/-!
# Traces name the call chain

The trace of an exception or of an effect that nobody handles has one entry for
each frame that is live when the failing instruction begins. The newest frame is
at that instruction; every other frame waits at the call, the operator or the
effect that opened the frame above it, however often control came back to it
before. Each entry has the name of the function and the line that is recorded
for this instruction, which is a line of the source text that the function was
compiled from.

Lines are recorded in 32 bits. Of a text with more lines than that, what is
recorded is the remainder; the last line of a text can be recorded as zero.
-/

namespace EffectScript

open Activation

/-! ## Lines of instructions -/

/-- The last byte of an instruction has the line of its first byte. -/
theorem Sketch.Describes.line_of_instruction
    {enclosing : List Registry} {sketch : Sketch} {template : Template}
    (describes : sketch.Describes enclosing template)
    {instruction : Instruction}
    (member : instruction ∈ (Instruction.walk template.code).instructions) :
    template.debug.lineAt (instruction.next - 1) =
        template.debug.lineAt instruction.offset ∧
      template.debug.lineAt instruction.offset ∈ template.debug.lines := by
  obtain ⟨line, recorded⟩ := describes.uniform instruction member
  have size := instruction.opcode.size_pos
  have first : template.debug.lines[instruction.offset]? = some line :=
    recorded 0 size
  have last : template.debug.lines[instruction.next - 1]? = some line := by
    rw [show instruction.next - 1 = instruction.offset +
        (instruction.opcode.size - 1) by
      unfold Instruction.next
      omega]
    exact recorded _ (by omega)
  refine ⟨by simp only [DebugTables.lineAt, first, last], ?_⟩
  simp only [DebugTables.lineAt, first, Option.getD_some]
  exact Array.mem_of_getElem? first

/-! ## Failing steps -/

theorem Failure.trace_withCalls {failure : Failure}
    (untraced : failure.trace = [])
    (calls : List TraceEntry)
    (noFault : ∀ fault, failure.withCalls calls ≠ .fault fault) :
    (failure.withCalls calls).trace = calls := by
  cases failure with
  | exception raised => simpa [withCalls, trace] using untraced
  | unhandled effect trace => simpa [withCalls, Failure.trace] using untraced
  | fault cause => exact absurd rfl (noFault cause)

namespace Machine

variable {start before machine after final : Machine} {frame waiting : Frame}
    {newer below : List Frame} {instruction : Instruction} {first last : Nat}
    {failure : Failure}

/-- A step that fails reports the live calls, of which the newest one has begun
the instruction. -/
theorem trace_of_failed
    (frames : machine.frames = frame :: below)
    (executes : machine.instruction? = some instruction)
    (fails : machine.step = .failed failure final)
    (noFault : ∀ fault, failure ≠ .fault fault) :
    failure.trace =
      ({ frame with ip := instruction.next } :: below).map
        Frame.traceEntry := by
  have decodes := (instruction?_eq_some frames).1 executes
  unfold Machine.step at fails
  rw [fetch_eq frames decodes] at fails
  simp only at fails
  split at fails
  next => cases fails
  next => cases fails
  next raw executed =>
    cases fails
    have untraced := execute_untraced
      { machine with frames := { frame with ip := instruction.next } :: below }
        instruction
    rw [executed] at untraced
    exact Failure.trace_withCalls untraced _ noFault

/-- An instruction that opens a frame is a call, an operator or performs an
effect. -/
theorem mayWait_of_deeper
    (executes : machine.instruction? = some instruction)
    (steps : machine.step = .running after)
    (deeper : machine.frames.length < after.frames.length) :
    instruction.opcode.mayWait := by
  cases frames : machine.frames with
  | nil =>
      unfold instruction? fetch top at executes
      simp [frames] at executes
  | cons frame below =>
      have decodes := (instruction?_eq_some frames).1 executes
      have follows := execute_untraced
        { machine with frames :=
          { frame with ip := instruction.next } :: below } instruction
      rw [execute_eq frames decodes steps] at follows
      refine follows.resolve_right fun noDeeper => ?_
      rw [frames] at deeper
      exact absurd noDeeper (Nat.not_le.2 deeper)

/-! ## Waiting frames -/

/-- A machine with many frames had fewer before; the frame that was the newest
one when it last had so few is suspended since then. -/
theorem Started.exists_suspended_at
    (started : Started start)
    (reaches : start.reached last = some machine)
    {count : Nat}
    (some : 0 < count)
    (deeper : count < machine.frames.length) :
    ∃ first before frame below instruction,
      Suspended start first last before frame below instruction ∧
      before.frames.length = count := by
  induction last generalizing machine with
  | zero =>
      cases reaches
      obtain ⟨activation, _, sound⟩ := started.sound
      rw [sound.length_frames, List.length_singleton] at deeper
      omega
  | succ last inner =>
      obtain ⟨before, reachesBefore, steps⟩ := reached_succ.1 reaches
      by_cases already : count < before.frames.length
      · obtain ⟨first, earlier, frame, below, instruction, suspended, level⟩ :=
          inner reachesBefore already
        refine ⟨first, earlier, frame, below, instruction,
          { suspended with order :=
            Nat.lt_succ_of_lt suspended.order, covered := ?_ }, level⟩
        intro moment during early late reachesDuring
        rcases Nat.le_succ_iff.1 late with within | rfl
        · exact suspended.covered moment during early within reachesDuring
        · cases reaches.symm.trans reachesDuring
          exact level ▸ deeper
      · -- The frame above is opened by this step.
        obtain ⟨activation, older, sound⟩ := started.sound_reached reachesBefore
        obtain ⟨instruction, _, executes, _⟩ := sound.running steps
        have few := sound.length_le steps
        have level : before.frames.length = count := by omega
        have frames := sound.frames.trans List.map_cons
        refine ⟨last, before, activation.frame, _, instruction,
          ⟨reachesBefore, frames, executes.1, Nat.lt_succ_self _, ?_⟩, level⟩
        intro moment during early late reachesDuring
        obtain rfl : moment = last + 1 := by omega
        cases reaches.symm.trans reachesDuring
        exact level ▸ deeper

/-- Every frame below the newest one waits at an instruction that it began and
that opened the frame above it. -/
theorem Started.exists_suspended
    (started : Started start)
    (reaches : start.reached last = some machine)
    (frames : machine.frames = newer ++ frame :: below)
    (covered : newer ≠ []) :
    ∃ first before waiting instruction,
      Suspended start first last before waiting below instruction ∧
        frame = waiting.suspended instruction := by
  have deeper : below.length + 1 < machine.frames.length := by
    have := List.length_pos_iff.2 covered
    simp only [frames, List.length_append, List.length_cons]
    omega
  obtain ⟨first, before, waiting, under, instruction, suspended, level⟩ :=
    started.exists_suspended_at reaches (Nat.succ_pos _) deeper
  obtain ⟨activation, older, above, callee, shape, sound, machineSound, _⟩ :=
    suspended.callee started reaches
  obtain ⟨rfl, rfl⟩ := List.cons.inj (suspended.frames.symm.trans sound.frames)
  -- Both lists of frames have the same count of frames below the suspended one.
  rw [List.append_cons] at machineSound
  have parts := frames.symm.trans machineSound.frames
  rw [List.map_append, List.map_cons] at parts
  have count : below.length = older.length := by
    rw [sound.length_frames, List.length_cons] at level
    omega
  obtain ⟨_, same⟩ := List.append_inj' parts (by simp [count])
  obtain ⟨rfl, rfl⟩ := List.cons.inj same
  exact ⟨first, before, activation.frame, instruction, suspended, rfl⟩

/-! ## Instructions begun last -/

/-- The instruction that a live frame began last, in a machine that a run
reaches after `last` steps: the newest frame is about to execute it, and any
other frame is suspended by it ever since. -/
inductive BeganLast (start : Machine) (last : Nat) (machine : Machine) :
    List Frame → Frame → List Frame → Instruction → Prop
  | newest {frame : Frame} {below : List Frame} {instruction : Instruction}
      (executes : machine.instruction? = some instruction) :
      BeganLast start last machine [] frame below instruction
  | waits {newer below : List Frame} {waiting : Frame}
      {instruction : Instruction} {first : Nat}
      {before : Machine} (covered : newer ≠ [])
        (operation : instruction.opcode.mayWait)
      (suspended : Suspended start first last before waiting below
        instruction) :
      BeganLast start last machine newer (waiting.suspended instruction)
        below instruction

/-- A frame is suspended by a call, an operator or an effect. -/
theorem Suspended.mayWait
    (suspended : Suspended start first last before waiting below instruction)
    (reaches : start.reached last = some machine) :
    instruction.opcode.mayWait := by
  obtain ⟨during, reachesDuring⟩ := reached_of_le reaches suspended.order
  obtain ⟨same, reachesSame, steps⟩ := reached_succ.1 reachesDuring
  cases suspended.reaches.symm.trans reachesSame
  exact mayWait_of_deeper suspended.executes steps
    (suspended.covered (first + 1) during (Nat.lt_succ_self _) suspended.order
      reachesDuring)

/-- The next instruction of the newest frame is one of its function. -/
theorem Started.mem_walk
    (started : Started start)
    (reaches : start.reached last = some machine)
    (frames : machine.frames = frame :: below)
    (executes : machine.instruction? = some instruction) :
    instruction ∈ (Instruction.walk frame.template.code).instructions := by
  obtain ⟨activation, older, sound⟩ := started.sound_reached reaches
  obtain ⟨rfl, _⟩ := List.cons.inj (frames.symm.trans sound.frames)
  obtain ⟨decoded, member, decodes⟩ := sound.stacked.1.exists_instruction
  cases decodes.symm.trans ((instruction?_eq_some frames).1 executes)
  exact member

/-- Every live frame has an instruction that it began last, and a waiting frame
is behind it. -/
theorem Started.exists_beganLast
    (started : Started start)
    (reaches : start.reached last = some machine)
    (frames : machine.frames = newer ++ frame :: below) :
    ∃ instruction, BeganLast start last machine newer frame below instruction ∧
      instruction ∈ (Instruction.walk frame.template.code).instructions ∧
      (newer ≠ [] → frame.ip = instruction.next) := by
  cases newer with
  | nil =>
      obtain ⟨activation, older, sound⟩ := started.sound_reached reaches
      obtain ⟨instruction, executes, _⟩ := sound.step
      exact ⟨instruction, .newest executes.1,
        started.mem_walk reaches frames executes.1, fun some => absurd rfl some⟩
  | cons newest others =>
      obtain ⟨first, before, waiting, instruction, suspended, rfl⟩ :=
        started.exists_suspended reaches frames (List.cons_ne_nil _ _)
      have member := started.mem_walk suspended.reaches suspended.frames
        suspended.executes
      exact ⟨instruction, .waits (List.cons_ne_nil _ _)
        (suspended.mayWait reaches) suspended, member,
        fun _ => rfl⟩

/-! ## Runs that fail -/

/-- A run that fails reaches a machine whose step fails. -/
theorem exists_failing {bound : Nat} {ending : Ending}
    (ended : start.run bound = some ending)
    (fails : ending.result = .error failure) :
    ∃ last failing, start.reached last = some failing ∧
      failing.step = .failed failure ending.machine := by
  obtain ⟨count, last, reaches, ⟨value, result, _⟩ | ⟨other, result, ends⟩⟩ :=
    exists_last ended
  · cases result.symm.trans fails
  · cases result.symm.trans fails
    exact ⟨count, last, reaches, ends⟩

/-- The frame of a script is opened, or the host faults. -/
theorem load_cases (machine : Machine) (script : Template) :
    (∃ start frame, machine.load script = .running start ∧
        start.frames = [frame] ∧
        frame.template = script) ∨
      ∃ fault final, machine.load script = .failed (.fault fault) final := by
  unfold Machine.load
  simp only
  rcases (machine.cleared.take 1).openFrame_orFaults
      ⟨machine.store.unused, script, []⟩ [] with
    ⟨start, opens, callee, store, closureEq, rfl⟩ | ⟨fault, faults⟩
  · rw [opens]
    exact .inl ⟨_, callee, rfl, rfl, congrArg Closure.template closureEq⟩
  · rw [faults]
    exact .inr ⟨fault, _, rfl⟩

/-- The oldest frame of a run stays the one that the run started with. -/
theorem Started.oldest_frame
    (started : Started start)
    (frames : start.frames = [frame])
    (reaches : start.reached last = some machine) :
    ∃ newer kept, machine.frames = newer ++ [kept] ∧
      kept.template = frame.template := by
  obtain ⟨activation, _, sound⟩ := started.sound
  obtain ⟨newer, kept, laterSound, continues⟩ :=
    @Sound.persists start start machine [] [] activation 0 last sound rfl
      (Nat.zero_le _) reaches fun count during _ _ reachesDuring => by
        obtain ⟨_, _, duringSound⟩ := started.sound_reached reachesDuring
        rw [duringSound.length_frames]
        exact Nat.succ_pos _
  obtain ⟨rfl, _⟩ := List.cons.inj (frames.symm.trans sound.frames)
  refine ⟨newer.map (·.frame), kept.frame, ?_,
    congrArg Closure.template continues.closure⟩
  rw [laterSound.frames, List.map_append]
  rfl

/-! ## Traces -/

/-- The entry tells the truth about a call: it has the name of the function and
the line that is recorded for the instruction, and this stands for a line of the
source text that the function was compiled from. It is the line itself in a text
whose lines can be told apart. -/
structure Tells
    (sources : List String) (entry : TraceEntry) (template : Template)
    (instruction : Instruction) : Prop where
  function : entry.function = template.name
  recorded : entry.line = template.debug.lineAt instruction.offset
  source : ∃ text ∈ sources, ∃ file script line, compileSource text file =
      .ok script ∧
    script.Contains template ∧ IsSourceLine text line ∧
    entry.line = UInt32.ofNat line ∧
      (lineCount text < UInt32.size → entry.line.toNat = line)

/-- The entries name the calls that are live in a machine which a run of the
script reaches after `last` steps, the innermost one first. -/
structure NamesCalls
    (sources : List String) (script : Template) (start : Machine) (last : Nat)
    (machine : Machine)
    (entries : List TraceEntry) : Prop where
  length : entries.length = machine.frames.length
  calls : ∀ newer frame below, machine.frames = newer ++ frame :: below →
    ∃ entry instruction, entries[newer.length]? = some entry ∧
      BeganLast start last machine newer frame below instruction ∧
      Tells sources entry frame.template instruction
  oldest : ∃ newer frame, machine.frames = newer ++ [frame] ∧
    frame.template = script
  ends : entries.getLast?.map TraceEntry.function = some scriptName

/-- The trace entry of a frame that is behind an instruction of it has the line
of this instruction. -/
theorem tells_of_comesFrom {sources : List String}
    (comes : ComesFrom sources frame.template)
    (member : instruction ∈ (Instruction.walk frame.template.code).instructions)
    (next : frame.ip = instruction.next) :
    Tells sources frame.traceEntry frame.template instruction := by
  obtain ⟨text, listed, file, script, compiled, contains⟩ := comes
  obtain ⟨_, _, describes⟩ := compileSource_describes compiled contains
  obtain ⟨same, recorded⟩ := describes.line_of_instruction member
  have line : frame.traceEntry.line = frame.template.debug.lineAt
      instruction.offset := by
    rw [← same, ← next]
    rfl
  obtain ⟨sourceLine, isLine, wrapped⟩ :=
    compileSource_lines compiled contains recorded
  rw [← line] at wrapped
  exact ⟨rfl, line, text, listed, file, script, sourceLine, compiled, contains,
    isLine, wrapped, fun few => wrapped ▸ isLine.toNat_ofNat few⟩

/-- In a run there is a newest frame, and its instruction is the one that
fails. -/
theorem Started.trace_of_failed
    (started : Started start)
    (reaches : start.reached last = some machine)
    (fails : machine.step = .failed failure final)
    (noFault : ∀ fault, failure ≠ .fault fault) :
    ∃ newest others instruction, machine.frames = newest :: others ∧
      machine.instruction? = some instruction ∧
      failure.trace =
        ({ newest with ip := instruction.next } :: others).map
          Frame.traceEntry := by
  obtain ⟨activation, older, sound⟩ := started.sound_reached reaches
  obtain ⟨instruction, executes, _⟩ := sound.step
  have frames := sound.frames.trans List.map_cons
  exact ⟨activation.frame, _, instruction, frames, executes.1,
    Machine.trace_of_failed frames executes.1 fails noFault⟩

/-- A step that fails tells the truth about every live call. -/
theorem Started.tells
    (started : Started start)
    (reaches : start.reached last = some machine)
    (fails : machine.step = .failed failure final)
    (noFault : ∀ fault, failure ≠ .fault fault)
    {sources : List String}
    (comes : ∀ live ∈ machine.frames, ComesFrom sources live.template)
    (frames : machine.frames = newer ++ frame :: below) :
    ∃ entry instruction, failure.trace[newer.length]? = some entry ∧
      BeganLast start last machine newer frame below instruction ∧
      Tells sources entry frame.template instruction := by
  obtain ⟨newest, others, failing, parts, executes, calls⟩ :=
    started.trace_of_failed reaches fails noFault
  obtain ⟨instruction, began, member, next⟩ :=
    started.exists_beganLast reaches frames
  have here : ComesFrom sources frame.template := comes frame (by simp [frames])
  cases newer with
  | nil =>
      cases began with
      | newest begins =>
          cases parts.symm.trans frames
          have same : failing = instruction :=
            Option.some.inj (executes.symm.trans begins)
          have fetched := @tells_of_comesFrom
            { frame with ip := instruction.next } instruction sources
            here member rfl
          exact ⟨_, instruction, by rw [calls, same]; rfl,
            .newest begins, fetched⟩
      | waits covered => exact absurd rfl covered
  | cons first between =>
      obtain ⟨_, rest⟩ := List.cons.inj (parts.symm.trans frames)
      refine ⟨frame.traceEntry, instruction, ?_, began,
        tells_of_comesFrom here member (next (List.cons_ne_nil _ _))⟩
      simp [calls, rest]

/-- The function of a source text has the name of scripts. -/
theorem compileSource_named {source file : String}
    {script : Template}
    (compiled : compileSource source file = .ok script) :
    script.name = scriptName := by
  obtain ⟨program, _, compiledProgram⟩ := compileSource_eq_ok.1 compiled
  exact Block.compileWith_named compiledProgram

/-- Traces name the true call chain. When the run of a compiled source text in
any session ends in an exception or in an effect that nobody handles, its trace
has one entry for each frame that was live when the failing instruction began,
the innermost one first and the script last. Each entry has the name of the
function and the line recorded for the instruction that the frame began last,
which is the failing one for the newest frame and a call, an operator or an
effect that it waits at for every other frame. What is recorded stands for a
line of the source text that the function was compiled from, and is this line if
the text has less than `2 ^ 32` of them. -/
theorem traces_name_the_call_chain {limits : Limits}
    {outlet : Outlet} {sources : List String} {machine : Machine}
    (session : SessionOf limits outlet sources machine)
    {source file : String} {script : Template}
    (compiled : compileSource source file = .ok script)
    {bound : Nat} {ending : Ending}
    (ended : machine.interpret bound script = some ending)
    {failure : Failure}
    (fails : ending.result = .error failure)
    (noFault : ∀ fault, failure ≠ .fault fault) :
    ∃ start last failing, machine.load script = .running start ∧
      start.reached last = some failing ∧
      failing.step = .failed failure ending.machine ∧
      NamesCalls (source :: sources) script start last failing
        failure.trace := by
  unfold Machine.interpret at ended
  rcases machine.load_cases script
    with ⟨start, frame, loads, frames, isScript⟩ | ⟨fault, final, loads⟩
  · rw [loads] at ended
    obtain ⟨last, failing, reaches, stepFails⟩ := exists_failing ended fails
    have started : Started start :=
      ⟨limits, outlet, machine, source, file, script, session.session,
        compiled, loads⟩
    have tells {newer below : List Frame} {live : Frame} :=
      @Started.tells start failing ending.machine live newer below last failure
        started reaches
        stepFails noFault (source :: sources) fun _ =>
          session.comesFrom compiled loads reaches
    obtain ⟨newest, others, _, parts, _, calls⟩ :=
      started.trace_of_failed reaches stepFails noFault
    obtain ⟨newer, kept, split, same⟩ := started.oldest_frame frames reaches
    have length : failure.trace.length = failing.frames.length := by
      simp [calls, parts]
    refine ⟨start, last, failing, loads, reaches, stepFails, length,
      fun _ _ _ => tells, ⟨newer, kept, split, same.trans isScript⟩, ?_⟩
    obtain ⟨entry, _, found, _, told⟩ := tells split
    have lastIndex : failure.trace.length - 1 = newer.length := by
      simp [length, split]
    rw [List.getLast?_eq_getElem?, lastIndex, found, Option.map_some,
      told.function, same, isScript, compileSource_named compiled]
  · rw [loads] at ended
    cases ended
    cases fails
    exact absurd rfl (noFault fault)

/-- A text that gives lists a method for subtraction, which performs an
effect. -/
def methodText : String :=
  "fn minus(left, right) \x7b\n  do missing(right)\n\x7d\n" ++
  "method(\"list\", \"sub\", minus)"

/-- A text with a function that subtracts lists over two lines. -/
def operatorText : String :=
  "fn f(n) \x7b\n  list(n) -\n    list(2)\n\x7d\nf(1)"

/-- A method of an earlier text performs an effect that nobody handles, while a
function of the later text waits at the operator. -/
theorem trace_of_method_names_the_call_chain :
    ∃ machine script ending start last failing,
      SessionOf .standard (.collecting "") [methodText] machine ∧
      compileSource operatorText "main" = .ok script ∧
      machine.interpret 100 script = some ending ∧
      ending.result =
        .error
          (.unhandled "missing" [⟨"minus", 2⟩, ⟨"f", 2⟩, ⟨"<script>", 5⟩]) ∧
      machine.load script = .running start ∧ start.reached last = some failing ∧
      NamesCalls [operatorText, methodText] script start last failing
        [⟨"minus", 2⟩, ⟨"f", 2⟩, ⟨"<script>", 5⟩] := by
  let machine :=
    ((fresh .standard (.collecting "")).runSource 100 methodText "before").2
  have session : SessionOf .standard (.collecting "") [methodText] machine :=
    .runs .fresh 100 methodText "before"
  have fails : machine.failure? 100 operatorText =
      some (.unhandled "missing"
        [⟨"minus", 2⟩, ⟨"f", 2⟩, ⟨"<script>", 5⟩]) := by
    decide +kernel
  obtain ⟨script, ending, compiled, ended, result⟩ := ending_of_failure? fails
  obtain ⟨start, last, failing, loads, reaches, _, names⟩ :=
    traces_name_the_call_chain session compiled ended result (by simp)
  exact ⟨machine, script, ending, start, last, failing, session, compiled,
    ended, result, loads, reaches, names⟩

/-! ## Lines that are not told apart -/

/-- A text that fails on its last line, behind so many lines with nothing on
them. -/
def lateText (count : Nat) : String :=
  String.ofList (List.replicate count '\n' ++ "nil + 1".toList)

/-- The function of such a text, with what is recorded of its last line. -/
def lateScript (line : UInt32) : Template where
  name := scriptName
  arity := 0
  locals := 1
  code := #[1, 0, 0, 17, 16]
  constants := [.int 1]
  names := []
  debug := { lines := Array.replicate 5 line, slotNames := [(scriptName, 0)] }
  capturesOuter := []
  capturesInner := []
  heapSlots := []

theorem toList_lateText (count : Nat) :
    (lateText count).toList = List.replicate count '\n' ++
      "nil + 1".toList := by
  simp [lateText]

open Lexer in
theorem scan_lateText (count : Nat) :
    Token.scan (lateText count) = .ok
      [⟨.keyword .nothing, ⟨1 + count, 1⟩⟩, ⟨.mark .plus, ⟨1 + count, 5⟩⟩,
        ⟨.int 1, ⟨1 + count, 7⟩⟩, ⟨.endOfInput, ⟨1 + count, 8⟩⟩] := by
  have feeds : Position.start.after (List.replicate count '\n') =
      ⟨1 + count, 1⟩ :=
    (placeAfter_append [] _).symm.trans (placeAfter_lineFeeds count)
  have skipped : skipTrivia false .start (lateText count).toList =
      (⟨1 + count, 1⟩, ['n', 'i', 'l', ' ', '+', ' ', '1']) := by
    rw [toList_lateText, (Trivia.lineFeeds count _).skip
      (by simp [Solid, isBlank]), feeds]
    rfl
  -- One step for every token.
  refine (scanFrom_lexeme skipped).2 ⟨_, _, rfl, ?_, rfl⟩
  refine (scanFrom_lexeme (by rfl)).2 ⟨_, _, rfl, ?_, rfl⟩
  refine (scanFrom_lexeme (by rfl)).2 ⟨_, _, rfl, ?_, rfl⟩
  exact scanFrom_end rfl

theorem compileSource_lateText (count : Nat) (file : String) :
    compileSource (lateText count) file =
      .ok (lateScript (UInt32.ofNat (1 + count))) := by
  let first : Position := ⟨1 + count, 1⟩
  let program : Block :=
    ⟨[.binary .add (.literal .nil first) (.literal (.int 1) ⟨1 + count, 7⟩)
      first], first⟩
  have parsed : parseSource (lateText count) = .ok program :=
    Outcome.bind_eq_ok.2 ⟨_, scan_lateText count, rfl⟩
  exact compileSource_eq_ok.2 ⟨program, parsed, rfl⟩

/-- A text that fails on line `2 ^ 32` is reported to fail on line zero, which
no text has. -/
theorem trace_of_late_text_names_no_line :
    ∃ script ending raised,
      compileSource (lateText 4294967295) "main" = .ok script ∧
      (fresh .standard (.collecting "")).interpret 100 script = some ending ∧
      ending.result = .error (.exception raised) ∧
      raised.trace = [⟨scriptName, 0⟩] ∧
      lineCount (lateText 4294967295) = 4294967296 ∧
      ¬ IsSourceLine (lateText 4294967295) 0 := by
  have count : lineCount (lateText 4294967295) = 4294967296 := by
    rw [lineCount, toList_lateText, List.count_append,
      List.count_replicate_self]
    rfl
  have recorded : UInt32.ofNat (1 + 4294967295) = 0 := by decide
  have compiled := compileSource_lateText 4294967295 "main"
  rw [recorded] at compiled
  exact ⟨_, _, _, compiled, rfl, rfl, rfl, count,
    fun isLine => Nat.not_succ_le_zero 0 isLine.positive⟩

end Machine

end EffectScript
