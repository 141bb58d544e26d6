import EffectScript.Proofs.Run

/-!
# Compiled scripts do not fault the host

The code that the compiler makes is never malformed, whatever the program does
and whatever was run on the machine before it. All that can stop the host are
the limits on frames and operand stacks.
-/

namespace EffectScript.Machine

/-- A run of a compiled source text in any session ends in no fault but an
overflow: its operand stacks are balanced and never empty when a value is
needed, and none of its code is unknown or corrupt. -/
theorem fault_of_compiled_is_overflow {limits : Limits}
    {outlet : Outlet} {machine : Machine}
    (session : Session limits outlet machine)
    {source file : String} {script : Template}
    (compiled : compileSource source file = .ok script)
    {bound : Nat} {ending : Ending}
    (ended : machine.interpret bound script = some ending)
    {fault : Fault}
    (faults : ending.result = .error (.fault fault)) :
    (∃ limit, fault = .frameOverflow limit) ∨
      ∃ limit, fault = .stackOverflow limit := by
  obtain ⟨_, expected⟩ := session.surrounded.interpret compiled ended
  exact (expected (.fault fault) faults).overflow

/-- How the run of a source text on the machine fails within a count of
steps. -/
def failure? (machine : Machine) (bound : Nat) (source : String) :
    Option Failure :=
  match compileSource source "main" with
  | .error _ => none
  | .ok script =>
      match machine.interpret bound script with
      | some ⟨.error failure, _⟩ => some failure
      | _ => none

theorem ending_of_failure? {machine : Machine} {bound : Nat} {source : String}
    {failure : Failure}
    (fails : machine.failure? bound source = some failure) :
    ∃ script ending, compileSource source "main" = .ok script ∧
      machine.interpret bound script = some ending ∧
      ending.result = .error failure := by
  unfold failure? at fails
  split at fails
  · cases fails
  next script compiled =>
    split at fails
    next other final ended =>
      cases fails
      exact ⟨script, _, compiled, ended, rfl⟩
    next => cases fails

/-- A function that calls itself without end overflows the frames, also after an
earlier run. -/
theorem fault_of_endless_recursion :
    ∃ machine script ending,
      Session ⟨3, 256⟩ (.collecting "") machine ∧
      compileSource "fn f() { f() } f()" "main" = .ok script ∧
      machine.interpret 100 script = some ending ∧
      ending.result = .error (.fault (.frameOverflow 3)) ∧
      ((∃ limit, Fault.frameOverflow 3 = .frameOverflow limit) ∨
        ∃ limit, Fault.frameOverflow 3 = .stackOverflow limit) := by
  let machine :=
    ((fresh ⟨3, 256⟩ (.collecting "")).runSource 100 "g = 1" "before").2
  have session : Session ⟨3, 256⟩ (.collecting "") machine :=
    .runs .fresh 100 "g = 1" "before"
  have fails : machine.failure? 100 "fn f() { f() } f()" =
      some (.fault (.frameOverflow 3)) := by
    decide +kernel
  obtain ⟨script, ending, compiled, ended, faults⟩ := ending_of_failure? fails
  exact ⟨machine, script, ending, session, compiled, ended, faults,
    fault_of_compiled_is_overflow session compiled ended faults⟩

end EffectScript.Machine
