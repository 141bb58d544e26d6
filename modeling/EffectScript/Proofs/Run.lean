import EffectScript.Proofs.Execution
import EffectScript.Proofs.Lowering
import EffectScript.Script

/-!
# Runs of compiled scripts

A *session* is a machine that started fresh and has run any number of source
texts, whether they succeeded or failed. A run of a compiled script in a session
starts in a sound machine, every step leads to a sound machine, and however the
run ends, it leaves sound surroundings for the next one.
-/

namespace EffectScript

open Activation

namespace Machine

/-- The machine after one more step, if the run goes on. -/
def next? (machine : Machine) : Option Machine :=
  match machine.step with
  | .running after => some after
  | _ => none

/-- The machine after a count of steps, if the run goes on for so long. -/
def reached (start : Machine) : Nat → Option Machine
  | 0 => some start
  | count + 1 => (start.reached count).bind next?

/-- The instruction that the next step executes. -/
def instruction? (machine : Machine) : Option Instruction :=
  match machine.fetch with
  | .ok (instruction, _) => some instruction
  | .error _ => none

/-- The machines that source texts were run on, one after the other, from a
fresh one on. -/
inductive Session (limits : Limits) (outlet : Outlet) : Machine → Prop
  | fresh : Session limits outlet (Machine.fresh limits outlet)
  | runs {machine : Machine} (session : Session limits outlet machine)
      (bound : Nat)
      (source file : String) :
        Session limits outlet (machine.runSource bound source file).2

/-- The machine is at the start of the run of a source text in a session. -/
def Started (start : Machine) : Prop :=
  ∃ limits outlet machine source file script, Session limits outlet machine ∧
    compileSource source file = .ok script ∧
    machine.load script = .running start

/-! ## Steps -/

theorem next?_eq_some {machine after : Machine} :
    machine.next? = some after ↔ machine.step = .running after := by
  unfold next?
  split <;> simp_all

theorem reached_succ {start after : Machine} {count : Nat} :
    start.reached (count + 1) = some after ↔
      ∃ machine, start.reached count = some machine ∧
        machine.step = .running after := by
  simp only [reached, Option.bind_eq_some_iff, next?_eq_some]

/-- A run that goes on for a count of steps went on for any smaller count. -/
theorem reached_of_le {start later : Machine}
    {count more : Nat}
    (reaches : start.reached more = some later)
    (before : count ≤ more) :
    ∃ machine, start.reached count = some machine := by
  induction before generalizing later with
  | refl => exact ⟨later, reaches⟩
  | step _ inner =>
      obtain ⟨machine, reaches, _⟩ := reached_succ.1 reaches
      exact inner reaches

/-- The machines that a run reaches after its first step. -/
theorem reached_of_step {start next : Machine}
    (steps : start.step = .running next)
    (count : Nat) :
    start.reached (count + 1) = next.reached count := by
  induction count with
  | zero => exact next?_eq_some.2 steps
  | succ count inner => rw [reached, inner, reached]

theorem run_of_step {start next : Machine}
    (steps : start.step = .running next)
    (bound : Nat) :
    start.run (bound + 1) = next.run bound := by
  simp only [Machine.run, steps]

/-- The machines that a run reaches after one that it reaches. -/
theorem reached_add {start later : Machine} {count : Nat}
    (reaches : start.reached count = some later)
    (more : Nat) :
    start.reached (count + more) = later.reached more := by
  induction more with
  | zero => exact reaches
  | succ more inner => rw [← Nat.add_assoc, reached, inner, reached]

/-- A run goes on from a machine that it reaches. -/
theorem run_of_reached {start later : Machine} {count : Nat}
    (reaches : start.reached count = some later)
    (bound : Nat) :
    start.run (count + bound) = later.run bound := by
  induction count generalizing later bound with
  | zero =>
      cases reaches
      rw [Nat.zero_add]
  | succ count inner =>
      obtain ⟨before, reachesBefore, steps⟩ := reached_succ.1 reaches
      rw [Nat.add_right_comm, Nat.add_assoc, inner reachesBefore,
        run_of_step steps]

/-- A run that goes on for a count of steps has not ended by then. -/
theorem run_eq_none_of_reached {start later : Machine}
    {count : Nat}
    (reaches : start.reached count = some later) :
    start.run count = none :=
  run_of_reached reaches 0

/-- However long a run is given, it ends in one way. -/
theorem run_unique {machine : Machine} {bound more : Nat}
    {ending other : Ending}
    (ended : machine.run bound = some ending)
    (endedAgain : machine.run more = some other) :
    ending = other := by
  induction bound generalizing machine more with
  | zero => cases ended
  | succ bound inner =>
      cases more with
      | zero => cases endedAgain
      | succ more =>
          simp only [Machine.run] at ended endedAgain
          split at ended
          next next steps =>
            simp only [steps] at endedAgain
            exact inner ended endedAgain
          next value final steps =>
            simp only [steps] at endedAgain
            exact Option.some.inj (ended.symm.trans endedAgain)
          next failure final steps =>
            simp only [steps] at endedAgain
            exact Option.some.inj (ended.symm.trans endedAgain)

/-! ## Inductions over runs -/

/-- What every step of a run keeps, the run keeps. -/
theorem reached_induction
    (property : Machine → Prop)
    {start after : Machine}
    (holds : property start)
    (keeps : ∀ count machine next, start.reached count = some machine →
      property machine → machine.step = .running next → property next)
    {count : Nat}
    (reaches : start.reached count = some after) :
    property after := by
  induction count generalizing after with
  | zero =>
      cases reaches
      exact holds
  | succ count inner =>
      obtain ⟨before, reachesBefore, steps⟩ := reached_succ.1 reaches
      exact keeps count before after reachesBefore (inner reachesBefore) steps

/-- A run that ends reaches a machine whose step ends it. -/
theorem exists_last {start : Machine} {bound : Nat}
    {ending : Ending}
    (ended : start.run bound = some ending) :
    ∃ count last, start.reached count = some last ∧
      ((∃ value, ending.result = .ok value ∧
        last.step = .finished value ending.machine) ∨
        ∃ failure, ending.result = .error failure ∧
          last.step = .failed failure ending.machine) := by
  induction bound generalizing start with
  | zero => cases ended
  | succ bound inner =>
      simp only [Machine.run] at ended
      split at ended
      next next steps =>
        obtain ⟨count, last, reaches, ends⟩ := inner ended
        exact ⟨count + 1, last,
          (reached_of_step steps count).trans reaches, ends⟩
      next value final steps =>
        cases ended
        exact ⟨0, start, rfl, .inl ⟨value, rfl, steps⟩⟩
      next failure final steps =>
        cases ended
        exact ⟨0, start, rfl, .inr ⟨failure, rfl, steps⟩⟩

/-- A script is run from the frame that is opened for it, unless there is no
room for that frame. -/
theorem interpret_cases {machine : Machine}
    {script : Template} {bound : Nat} {ending : Ending}
    (ended : machine.interpret bound script = some ending) :
    (∃ start, machine.load script = .running start ∧
      start.run bound = some ending) ∨
      ∃ failure, machine.load script = .failed failure machine.cleared ∧
        ending = ⟨.error failure, machine.cleared⟩ := by
  cases opened : (machine.cleared.take 1).openFrame
    ⟨machine.store.unused, script, []⟩ [] with
  | ok start =>
      have loads : machine.load script = .running start := by
        simp only [Machine.load, opened]
      rw [Machine.interpret, loads] at ended
      exact .inl ⟨start, loads, ended⟩
  | error failure =>
      have fails : machine.load script = machine.cleared.fail failure := by
        simp only [Machine.load, opened]
      rw [Machine.interpret, fails] at ended
      cases ended
      exact .inr ⟨_, fails, rfl⟩

/-- After a source text the machine is as before, or cleared, or as a run of its
script left it. -/
theorem runSource_induction
    (property : Machine → Prop)
    {machine : Machine} {bound : Nat} {source file : String}
    (same : property machine)
    (cleared : property machine.cleared)
    (ends : ∀ script ending, compileSource source file = .ok script →
      machine.interpret bound script = some ending → property ending.machine) :
    property (machine.runSource bound source file).2 := by
  unfold Machine.runSource
  split
  · exact same
  next script compiled =>
    unfold Machine.runScript
    split
    · exact cleared
    next value final ended =>
      exact ends script ⟨.ok value, final⟩ compiled ended
    next failure final ended =>
      exact ends script ⟨.error failure, final⟩ compiled ended

theorem Expected_withCalls {failure : Failure}
    (expected : failure.Expected)
    (calls : List TraceEntry) :
    (failure.withCalls calls).Expected := by
  cases failure with
  | exception raised => trivial
  | unhandled effect trace => trivial
  | fault cause => exact expected

theorem Surrounded.cleared {machine : Machine}
    (surrounded : machine.Surrounded) :
    machine.cleared.Surrounded :=
  ⟨surrounded.globals, surrounded.methods, surrounded.cells⟩

variable {machine after : Machine} {activation : Activation Handler}
  {older activations later : List (Activation Handler)}

/-- A sound machine is about to execute the emission at the point of its newest
activation. -/
theorem Sound.poised (sound : machine.Sound (activation :: older)) :
    ∃ emission fetched,
      machine.fetch = .ok (instructionAt activation emission, fetched) ∧
      fetched.Poised activation older emission := by
  obtain ⟨emission, here⟩ := sound.stacked.1.known
  have surrounded := sound.surrounded
  have laidOut := sound.stacked.1.laidOut
  have complete := (laidOut.follow here).2.2.1
  refine ⟨emission,
    { machine with
      frames :=
        { activation.frame with ip := activation.frame.ip + emission.size } ::
        older.map (fun other => other.frame) }, ?_,
    ⟨surrounded.globals, surrounded.methods, surrounded.cells⟩, rfl,
    sound.handlers, sound.stacked, here⟩
  have next : (instructionAt activation emission).next = activation.frame.ip +
      emission.size :=
    congrArg (activation.frame.ip + ·) (complete.size_written _)
  unfold Machine.fetch
  rw [top_eq sound.frames, Outcome.ok_bind]
  simp only [laidOut.decode here, setTop_eq sound.frames]
  rw
    [show (emission.placedAt activation.frame.template.heapSlots
      activation.frame.ip).next = _
    from next]
  rfl

/-- The first activation is about to execute the instruction. -/
def Executes
    (machine : Machine)
    (activation : Activation Handler)
    (instruction : Instruction) : Prop :=
  machine.instruction? = some instruction ∧
  instruction.offset = activation.frame.ip

/-- What one step of a sound machine leads to. -/
theorem Sound.step (sound : machine.Sound (activation :: older)) :
    ∃ instruction, machine.Executes activation instruction ∧
      match machine.step with
      | .running after => Goes instruction (activation :: older) after
      | .finished _ after => after.Surrounded
      | .failed failure after => failure.Expected ∧ after.Surrounded := by
  obtain ⟨emission, fetched, fetch, poised⟩ := sound.poised
  refine ⟨instructionAt activation emission,
    ⟨by simp only [instruction?, fetch], rfl⟩, ?_⟩
  have safely := poised.execute_safely
  unfold Machine.step
  rw [fetch]
  simp only
  cases executed : fetched.execute (instructionAt activation emission) with
  | error failure =>
      rw [executed] at safely
      exact ⟨Expected_withCalls safely _, poised.surrounded.cleared⟩
  | ok flow =>
      rw [executed] at safely
      cases flow with
      | onward next => exact safely
      | finished value final => exact safely

/-- A step that goes on changes the activations. -/
theorem Sound.running
    (sound : machine.Sound (activation :: older))
    (steps : machine.step = .running after) :
    ∃ instruction later, machine.Executes activation instruction ∧
      after.Sound later ∧
      Change instruction (activation :: older) later := by
  obtain ⟨instruction, executes, outcome⟩ := sound.step
  rw [steps] at outcome
  obtain ⟨later, laterSound, change⟩ := outcome
  exact ⟨instruction, later, executes, laterSound, change⟩

end Machine

/-- After a step some activation is the newest one. -/
theorem Change.ne_nil {instruction : Instruction}
    {activations later : List (Activation Handler)}
    (change : Change instruction activations later) :
    later ≠ [] := by
  cases change <;> simp

namespace Machine

/-! ## Sessions -/

/-- Every machine that a run of a sound one reaches is sound. -/
theorem Sound.reached {start machine : Machine}
    {activations : List (Activation Handler)}
    (sound : start.Sound activations)
    (live : activations ≠ [])
    {count : Nat}
    (reaches : start.reached count = some machine) :
    ∃ activation older, machine.Sound (activation :: older) := by
  refine reached_induction
    (fun machine => ∃ activation older, machine.Sound (activation :: older))
    ?_ ?_ reaches
  · obtain ⟨activation, older, rfl⟩ := List.exists_cons_of_ne_nil live
    exact ⟨activation, older, sound⟩
  · rintro _ before after _ ⟨activation, older, sound⟩ steps
    obtain ⟨_, later, _, laterSound, change⟩ := sound.running steps
    obtain ⟨newest, others, rfl⟩ := List.exists_cons_of_ne_nil change.ne_nil
    exact ⟨newest, others, laterSound⟩

/-- However a run of a sound machine ends, it fails only as expected and leaves
sound surroundings. -/
theorem Sound.run {machine : Machine}
    {activations : List (Activation Handler)} {bound : Nat} {ending : Ending}
    (sound : machine.Sound activations)
    (live : activations ≠ [])
    (ended : machine.run bound = some ending) :
    ending.machine.Surrounded ∧
      ∀ failure, ending.result = .error failure → failure.Expected := by
  obtain ⟨count, last, reaches, ends⟩ := exists_last ended
  obtain ⟨activation, older, lastSound⟩ := sound.reached live reaches
  obtain ⟨instruction, _, outcome⟩ := lastSound.step
  rcases ends with ⟨value, result, ends⟩ | ⟨failure, result, ends⟩
  · rw [ends] at outcome
    exact ⟨outcome, fun failure fails => nomatch result.symm.trans fails⟩
  · rw [ends] at outcome
    refine ⟨outcome.2, fun other fails => ?_⟩
    cases result.symm.trans fails
    exact outcome.1

theorem compileSource_sound {source file : String}
    {script : Template}
    (compiled : compileSource source file = .ok script) :
    script.Sound ∧ script.capturesInner = [] ∧ script.arity = 0 := by
  obtain ⟨_, _, compiledProgram⟩ := compileSource_eq_ok.1 compiled
  exact Block.compileWith_sound compiledProgram

/-- Loading a sound script opens its frame, unless the machine allows none. -/
theorem Surrounded.load_sound {machine : Machine}
    (surrounded : machine.Surrounded)
    {script : Template}
    (scriptSound : script.Sound)
    (captures : script.capturesInner = [])
    (arity : script.arity = 0) :
    (∃ activation start, machine.load script = .running start ∧
        activation.own = [] ∧
        start.Sound [activation]) ∨
      ∃ failure, machine.load script = .failed failure machine.cleared ∧
        failure.Expected := by
  have cleared : (machine.cleared.take 1).Surrounded :=
    (surrounded.cleared.take 1).surrounded
  have opens :
      Safely (fun opened => ∃ activation, activation.own = [] ∧
        opened.Sound [activation])
      ((machine.cleared.take 1).openFrame
        ⟨machine.store.unused, script, []⟩ []) := by
    refine openFrame_safely cleared ⟨scriptSound, by simp [captures]⟩ (by simp)
      (by simp [arity]) ?_
    intro callee store isOpened openedSurrounded
    refine ⟨callee, isOpened.own,
      ⟨openedSurrounded.globals, openedSurrounded.methods,
        openedSurrounded.cells⟩, rfl, ?_, isOpened.fits 0, ?_, trivial⟩
    · simp [inForce, isOpened.own, Machine.cleared, Machine.take]
    · intro link linked
      rw [isOpened.link] at linked
      cases linked
  unfold Machine.load
  simp only
  cases opened : (machine.cleared.take 1).openFrame
    ⟨machine.store.unused, script, []⟩ [] with
  | ok start =>
      rw [opened] at opens
      obtain ⟨activation, own, sound⟩ := opens
      exact .inl ⟨activation, start, rfl, own, sound⟩
  | error failure =>
      rw [opened] at opens
      exact .inr ⟨_, rfl, Expected_withCalls opens _⟩

/-- Loading a compiled script opens its frame, unless the machine allows
none. -/
theorem Surrounded.load {machine : Machine}
    (surrounded : machine.Surrounded)
    {source file : String} {script : Template}
    (compiled : compileSource source file = .ok script) :
    (∃ activation start, machine.load script = .running start ∧
        activation.own = [] ∧
        start.Sound [activation]) ∨
      ∃ failure, machine.load script = .failed failure machine.cleared ∧
        failure.Expected := by
  obtain ⟨scriptSound, captures, arity⟩ := compileSource_sound compiled
  exact surrounded.load_sound scriptSound captures arity

/-- However a compiled script ends, it fails only as expected and leaves sound
surroundings. -/
theorem Surrounded.interpret {machine : Machine}
    (surrounded : machine.Surrounded)
    {source file : String} {script : Template}
    (compiled : compileSource source file = .ok script)
    {bound : Nat} {ending : Ending}
    (ended : machine.interpret bound script = some ending) :
    ending.machine.Surrounded ∧
      ∀ failure, ending.result = .error failure → failure.Expected := by
  unfold Machine.interpret at ended
  rcases surrounded.load compiled with ⟨activation, start, loads, _, sound⟩ |
    ⟨failure, fails, expected⟩
  · rw [loads] at ended
    exact sound.run (by simp) ended
  · rw [fails] at ended
    cases ended
    refine ⟨surrounded.cleared, ?_⟩
    rintro _ ⟨⟩
    exact expected

/-- All globals and methods of a fresh machine are native functions. -/
theorem fresh_native {property : Value → Prop}
    (natives : ∀ builtin, property (.builtin builtin))
    (limits : Limits) (outlet : Outlet) :
    (∀ entry ∈ (Machine.fresh limits outlet).globals, property entry.2) ∧
      ∀ entry ∈ (Machine.fresh limits outlet).methods, property entry.2 := by
  constructor
  · intro entry member
    obtain ⟨builtin, _, rfl⟩ := List.mem_map.1 (Dictionary.mem_ofEntries member)
    exact natives builtin
  · intro entry member
    simp only [Machine.fresh, List.mem_cons, List.not_mem_nil, or_false]
      at member
    rcases member with rfl | rfl
    · exact natives _
    · exact natives _

/-- A fresh machine has sound surroundings. -/
theorem surrounded_fresh (limits : Limits) (outlet : Outlet) :
    (Machine.fresh limits outlet).Surrounded := by
  obtain ⟨globals, methods⟩ := fresh_native Value.Sound.builtin limits outlet
  exact ⟨globals, methods, by simp [Machine.fresh]⟩

theorem Session.surrounded {limits : Limits}
    {outlet : Outlet} {machine : Machine}
    (session : Session limits outlet machine) :
    machine.Surrounded := by
  induction session with
  | fresh => exact surrounded_fresh limits outlet
  | runs session bound source file inner =>
      exact runSource_induction Surrounded inner inner.cleared
          fun script ending compiled ended =>
        (inner.interpret compiled ended).1

/-- A started run is sound and has one activation. -/
theorem Started.sound {start : Machine} (started : Started start) :
    ∃ activation, activation.own = [] ∧ start.Sound [activation] := by
  obtain ⟨limits, outlet, machine, source, file, script, session, compiled,
    loads⟩ := started
  rcases session.surrounded.load compiled
    with ⟨activation, loaded, loadsAs, own, sound⟩ | ⟨failure, fails, _⟩
  · rw [loads] at loadsAs
    cases loadsAs
    exact ⟨activation, own, sound⟩
  · rw [loads] at fails
    cases fails

/-- Whether the run of a source text on a fresh machine starts and passes a
check. -/
def startsWith (limits : Limits) (source : String) (check : Machine → Bool) :
    Bool :=
  match compileSource source "main" with
  | .ok script =>
      match (fresh limits (.collecting "")).load script with
      | .running start => check start
      | _ => false
  | .error _ => false

theorem exists_started {limits : Limits} {source : String}
    {check : Machine → Bool}
    (starts : startsWith limits source check) :
    ∃ start, Started start ∧ check start := by
  unfold startsWith at starts
  split at starts
  next script compiled =>
    split at starts
    next start loads =>
      exact ⟨start, ⟨limits, .collecting "", _, source, "main", script, .fresh,
        compiled, loads⟩, starts⟩
    next => cases starts
  next => cases starts

/-- Every machine that a run reaches is sound. -/
theorem Started.sound_reached {start machine : Machine}
    (started : Started start)
    {count : Nat}
    (reaches : start.reached count = some machine) :
    ∃ activation older, machine.Sound (activation :: older) := by
  obtain ⟨activation, _, sound⟩ := started.sound
  exact sound.reached (List.cons_ne_nil _ _) reaches

end Machine

end EffectScript
