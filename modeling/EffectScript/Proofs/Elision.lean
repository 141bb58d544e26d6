import EffectScript.Proofs.Pairing
import EffectScript.Proofs.Unison

/-!
# Eliding results of statements

The compiler removes the push of a statement's result that nobody uses, where a
simpler compiler would pop it. On machines whose functions are written as the
compiler writes them this cannot be noticed: when a run of the simpler code ends
and its operand stacks were never full, the run of the real code ends with the
same result, output, globals and boxes, apart from the code of functions.

It can be noticed by a function that is not written so. Such a function may
leave a handler behind when it is abandoned, and the handler may land in the
midst of other code.
-/

namespace EffectScript

open Outcome

namespace Machine

variable {machine : Machine} {plain script : Template}

/-- What outlives calls is the same as itself. -/
theorem SameWorld.refl (machine : Machine) : machine.SameWorld machine where
  limits := rfl
  globals := List.forall₂_same.2 fun entry _ => ⟨rfl, .refl entry.2⟩
  methods := List.forall₂_same.2 fun entry _ => ⟨rfl, .refl entry.2⟩
  store := ⟨List.forall₂_same.2 fun value _ => .refl value, rfl⟩
  outlet := rfl

/-- A machine without calls and handlers is its own twin. -/
theorem cleared_twin (machine : Machine) :
    Twin true [] machine.cleared machine.cleared :=
  { SameWorld.refl machine.cleared with
    frames := .nil
    handlers := .nil
    live := by
      intro _ handler member
      cases member }

/-- Loading twin scripts gives twin machines or fails. -/
theorem load_twin (machine : Machine) (twins : plain.Twin script) :
    (∃ first second, machine.load plain = .running first ∧
        machine.load script = .running second ∧
        first.Onward second) ∨
      ∃ failure, machine.load plain = .failed failure machine.cleared ∧
        (failure.Excused ∨
          machine.load script = .failed failure machine.cleared) := by
  have closures : Closure.Twin ⟨machine.store.unused, plain, []⟩
      ⟨machine.store.unused, script, []⟩ := ⟨rfl, rfl, twins⟩
  have opens := ((cleared_twin machine).take 1).openFrame closures .nil
  simp only [Machine.load]
  cases opened : (machine.cleared.take 1).openFrame
    ⟨machine.store.unused, plain, []⟩ [] with
  | ok first =>
      rw [opened] at opens
      obtain ⟨second, openedToo, alignment, twin⟩ := opens
      rw [openedToo]
      exact .inl ⟨first, second, rfl, rfl, twin.onward⟩
  | error failure =>
      rw [opened] at opens
      refine .inr ⟨_, rfl, ?_⟩
      rcases opens with excused | fails
      · exact .inl ((failure.excused_withCalls _).2 excused)
      · rw [fails]
        exact .inr rfl

/-- When the run of a sound script ends and no operand stack was full, the run
of its twin on the same machine ends alike. -/
theorem Surrounded.interpret_twin
    (surrounded : machine.Surrounded)
    (twins : plain.Twin script)
    (sound : plain.Sound)
    (captures : plain.capturesInner = [])
    (arity : plain.arity = 0)
    {bound : Nat} {ending : Ending}
    (ended : machine.interpret bound plain = some ending)
    (room : ¬ ending.StackOverflowed) :
    ∃ more other, machine.interpret more script = some other ∧
      ending.Twin other := by
  unfold Machine.interpret at ended ⊢
  rcases machine.load_twin twins
    with ⟨first, second, loads, loadsToo, alignments, twin⟩ |
    ⟨failure, fails, follows⟩
  · rcases surrounded.load_sound sound captures arity
      with ⟨activation, start, starts, _, startSound⟩ | ⟨failure, impossible, _⟩
    · cases loads.symm.trans starts
      rw [loads] at ended
      rw [loadsToo]
      exact twin.run startSound (by simp) ended room
    · cases loads.symm.trans impossible
  · rcases surrounded.load_sound sound captures arity
      with ⟨_, _, impossible, _⟩ | ⟨cause, causes, expected⟩
    · cases fails.symm.trans impossible
    · cases fails.symm.trans causes
      rw [fails] at ended
      cases ended
      rcases follows with excused | failsToo
      · have unexcused := expected.not_excused fun limit same =>
          room ⟨limit, congrArg Except.error same⟩
        exact (unexcused excused).elim
      · rw [failsToo]
        exact ⟨0, _, rfl, .error failure, .refl _⟩

/-- However long a script is given, it ends in one way. -/
theorem interpret_unique {bound more : Nat}
    {ending other : Ending}
    (ended : machine.interpret bound script = some ending)
    (endedAgain : machine.interpret more script = some other) :
    ending = other := by
  unfold Machine.interpret at ended endedAgain
  cases loads : machine.load script with
  | running start =>
      rw [loads] at ended endedAgain
      exact run_unique ended endedAgain
  | finished value final =>
      rw [loads] at ended endedAgain
      exact Option.some.inj (ended.symm.trans endedAgain)
  | failed failure final =>
      rw [loads] at ended endedAgain
      exact Option.some.inj (ended.symm.trans endedAgain)

/-! ## Bare endings -/

/-- Twin results have one bare form. -/
theorem bare_result_eq {result other : Except Failure Value}
    (agree : Agree Value.Twin result other) :
    other.map Value.bare = result.map Value.bare := by
  cases result with
  | ok value =>
      obtain ⟨partner, rfl, twins⟩ := agree
      exact congrArg Except.ok twins.bare_eq
  | error failure =>
      rcases agree with impossible | rfl
      · exact impossible.elim
      · rfl

theorem bareEntries_eq
    {entries others : List (String × Value)}
    (twins : List.Forall₂ EntryTwin entries others) :
    bareEntries others = bareEntries entries := by
  simp only [bareEntries, entriesRevised_eq_map]
  refine map_eq_map_of_forall₂ twins fun entry other twin => ?_
  rw [twin.1]
  exact congrArg (Prod.mk entry.1) twin.2.bare_eq

theorem bare_cells_eq {store other : Store} (twins : store.Twin other) :
    other.cells.toList.map Value.bare = store.cells.toList.map Value.bare :=
  map_eq_map_of_forall₂ twins.cells fun _ _ twin => twin.bare_eq

/-- Eliding the results of statements preserves behaviour. Take a program that
compiles with and without it, and a machine on which all functions are written
as the compiler writes them. When the run of the code that keeps the results
ends in anything but a full operand stack, the run of the real code ends as
well, with the same value or failure, the same output and the same globals and
boxes, apart from the code of functions. -/
theorem eliding_results_preserves_behaviour
    {program : Block}
    (kept : program.compileWith .kept = .ok plain)
    (compiled : program.compile = .ok script)
    (surrounded : machine.Surrounded)
    {bound : Nat} {ending : Ending}
    (ended : machine.interpret bound plain = some ending)
    (room : ¬ ending.StackOverflowed) :
    ∃ more other, machine.interpret more script = some other ∧
      other.result.map Value.bare = ending.result.map Value.bare ∧
      other.machine.outlet = ending.machine.outlet ∧
      bareEntries other.machine.globals = bareEntries ending.machine.globals ∧
      other.machine.store.cells.toList.map Value.bare =
        ending.machine.store.cells.toList.map Value.bare := by
  obtain ⟨sound, captures, arity⟩ := Block.compileWith_sound kept
  obtain ⟨more, other, endedToo, twin⟩ := surrounded.interpret_twin
    (Block.compileWith_twin kept compiled) sound captures arity ended room
  exact ⟨more, other, endedToo, bare_result_eq twin.result, twin.world.outlet,
    bareEntries_eq twin.world.globals, bare_cells_eq twin.world.store⟩

/-- The result of a run where it is an integer or a failure. -/
def Ending.brief? : Ending → Option (Int64 ⊕ Failure)
  | ⟨.ok (.int number), _⟩ => some (.inl number)
  | ⟨.error failure, _⟩ => some (.inr failure)
  | _ => none

theorem Ending.result_of_brief? {ending : Ending}
    {brief : Int64 ⊕ Failure}
    (briefly : ending.brief? = some brief) :
    ending.result = brief.elim (fun number => .ok (.int number)) .error := by
  unfold Ending.brief? at briefly
  split at briefly <;> cases briefly <;> rfl

/-- Whether a source text compiles in both ways, its real code is shorter, and
the runs of both on a machine end in ways that pass a check. -/
def endsBothWays
    (machine : Machine) (bound : Nat) (source : String)
    (check : Ending → Ending → Bool) : Bool :=
  match parseSource source with
  | .error _ => false
  | .ok program =>
      match program.compileWith .kept, program.compile with
      | .ok plain, .ok script =>
          match machine.interpret bound plain,
          machine.interpret bound script with
          | some ending, some other => script.code.size < plain.code.size &&
              check ending other
          | _, _ => false
      | _, _ => false

theorem exists_endings {machine : Machine} {bound : Nat}
    {source : String} {check : Ending → Ending → Bool}
    (ends : endsBothWays machine bound source check) :
    ∃ (program : Block) (plain script : Template) (ending other : Ending),
      parseSource source = .ok program ∧ program.compileWith .kept = .ok plain ∧
      program.compile = .ok script ∧ script.code.size < plain.code.size ∧
      machine.interpret bound plain = some ending ∧
      machine.interpret bound script = some other ∧
      check ending other := by
  unfold endsBothWays at ends
  split at ends
  · cases ends
  next program parsed =>
    split at ends
    next plain script kept compiled =>
      split at ends
      next ending other ended otherEnded =>
        simp only [Bool.and_eq_true, decide_eq_true_eq] at ends
        exact ⟨program, plain, script, ending, other, parsed, kept, compiled,
          ends.1, ended, otherEnded, ends.2⟩
      next => cases ends
    next => cases ends

/-- A program with a function, a repetition and an effect whose handler resumes:
its real code is shorter, and its run prints and gives what the longer code
prints and gives. -/
theorem eliding_results_under_handlers :
    ∃ (program : Block) (plain script : Template) (ending other : Ending)
      (more : Nat),
      program.compileWith .kept = .ok plain ∧ program.compile = .ok script ∧
      script.code.size < plain.code.size ∧
      (fresh .standard (.collecting "")).interpret 200 plain = some ending ∧
      (fresh .standard (.collecting "")).interpret more script = some other ∧
      other.result.map Value.bare = .ok (.int 3) ∧
      other.machine.outlet = .collecting "7\n" := by
  obtain ⟨program, plain, script, ending, _, _, kept, compiled, shorter, ended,
      _, checked⟩ :=
    exists_endings (show endsBothWays (fresh .standard (.collecting "")) 200
      "fn f(n) { t = 0; while n > 0 { t = t + n; n = n - 1 }; t };
       try { do log(7); x = f(2); x } handle log(v) { print(v); resume(nil) }"
      (fun ending _ => decide (ending.brief? = some (.inl 3) ∧
        ending.machine.outlet = .collecting "7\n")) by decide +kernel)
  rw [decide_eq_true_eq] at checked
  have result : ending.result = .ok (.int 3) :=
    Ending.result_of_brief? checked.1
  have room : ¬ ending.StackOverflowed := by
    rintro ⟨limit, overflowed⟩
    cases result.symm.trans overflowed
  obtain ⟨more, other, otherEnded, sameResult, sameOutlet, _⟩ :=
    eliding_results_preserves_behaviour kept compiled
      (surrounded_fresh _ _) ended room
  refine ⟨program, plain, script, ending, other, more, kept, compiled, shorter,
    ended, otherEnded, ?_, sameOutlet.trans checked.2⟩
  rw [sameResult, result]
  rfl

/-! ## A function that no compiler writes -/

/-- A method that removes the handler around its caller, registers one of its
own and resumes. The handler stays behind when the frame of the method is
abandoned. -/
def strayMethod : Template where
  name := "m"
  arity := 1
  locals := 2
  code := #[29, 1, 8, 0, 27, 1, 0, 3, 8, 2, 1, 15, 1, 16]
  constants := []
  names := ["h", "n", "resume"]
  debug := { lines := Array.replicate 14 1 }
  capturesOuter := []
  capturesInner := []
  heapSlots := []

/-- A machine that has run nothing, with the stray method for the negation of
nil. -/
def strayMachine : Machine :=
  let machine := (fresh .standard (.collecting "")).take 1
  { machine with methods :=
    machine.methods.define "nil" .neg (.closure ⟨0, strayMethod, []⟩) }

/-- A program on which the method leaves a handler that lands in the midst of
its second function. -/
def strayProgram : String :=
  "fn h(v) { v }; fn g2() { y = 0; do n(0); y = 1; y = 2; y }; fn g1() { g2() };
   try { try { do x(0); g1() } handle x(v) { -nil } } handle d(v) { 0 }"

/-- With the stray method the two codes behave differently: the run of the
longer one gives a value, and the run of the real one ends in a fault. -/
theorem eliding_results_shows_with_stray_method :
    ∃ (program : Block) (plain script : Template) (ending other : Ending),
      parseSource strayProgram = .ok program ∧
      program.compileWith .kept = .ok plain ∧
      program.compile = .ok script ∧
      strayMachine.interpret 100 plain = some ending ∧
      ending.result = .ok (.int 2) ∧
      strayMachine.interpret 100 script = some other ∧
      other.result = .error (.fault (.unbalancedStack "g2" 1)) ∧
      ∀ more another, strayMachine.interpret more script = some another →
        another.result.map Value.bare ≠ ending.result.map Value.bare := by
  obtain ⟨program, plain, script, ending, other, parsed, kept, compiled, _,
      ended, otherEnded, checked⟩ :=
    exists_endings
        (show endsBothWays strayMachine 100 strayProgram (fun ending other =>
      decide (ending.brief? = some (.inl 2) ∧
        other.brief? = some (.inr (.fault (.unbalancedStack "g2" 1))))) by
          decide +kernel)
  rw [decide_eq_true_eq] at checked
  have result : ending.result = .ok (.int 2) :=
    Ending.result_of_brief? checked.1
  have otherResult : other.result = .error (.fault (.unbalancedStack "g2" 1)) :=
    Ending.result_of_brief? checked.2
  refine ⟨program, plain, script, ending, other, parsed, kept, compiled, ended,
    result, otherEnded, otherResult, ?_⟩
  intro more another anotherEnded
  rw [interpret_unique anotherEnded otherEnded, result, otherResult]
  intro same
  cases same

end Machine

end EffectScript
