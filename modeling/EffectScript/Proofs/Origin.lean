import EffectScript.Proofs.Lines
import EffectScript.Proofs.Termination
import EffectScript.Proofs.Untraced

/-!
# Where functions come from

A machine calls no functions but those of the source texts that were run on it,
one after the other, and native ones. The functions of earlier texts are reached
through globals, methods and boxes, which outlive their runs.
-/

namespace EffectScript

/-- The function is one of those that a source text of the list was compiled
to. -/
def ComesFrom (sources : List String) (template : Template) : Prop :=
  ∃ source ∈ sources, ∃ file script,
    compileSource source file = .ok script ∧ script.Contains template

theorem ComesFrom.mono {sources more : List String}
    {template : Template}
    (comes : ComesFrom sources template)
    (fewer : sources ⊆ more) :
    ComesFrom more template := by
  obtain ⟨source, member, file, script, compiled, contains⟩ := comes
  exact ⟨source, fewer member, file, script, compiled, contains⟩

theorem comesFrom_script {sources : List String}
    {source file : String} {script : Template}
    (compiled : compileSource source file = .ok script) :
    ComesFrom (source :: sources) script :=
  ⟨source, List.mem_cons_self, file, script, compiled, .itself script⟩

/-- The functions in a function come from the same texts. -/
theorem ComesFrom.constants {sources : List String}
    {template : Template}
    (comes : ComesFrom sources template)
    {value : Value}
    (member : value ∈ template.constants) :
    value.CallsOnly (ComesFrom sources) := by
  obtain ⟨source, listed, file, script, compiled, contains⟩ := comes
  obtain ⟨_, _, describes⟩ := compileSource_describes compiled contains
  have pooled := describes.constants value member
  cases value with
  | int number => exact .int number
  | str text => exact .str text
  | function identity inner =>
      exact .function ⟨source, listed, file, script, compiled,
        .constant contains member⟩
  | _ => cases pooled

theorem inherited_comesFrom (sources : List String) :
    Value.Inherited (Value.CallsOnly (ComesFrom sources)) :=
  Value.CallsOnly.inherited fun _ comes _ member => comes.constants member

theorem Value.CallsOnly.mono {known more : Template → Prop}
    {value : Value}
    (calls : value.CallsOnly known)
    (implies : ∀ template, known template → more template) :
    value.CallsOnly more := by
  induction calls with
  | nil => exact .nil
  | bool truth => exact .bool truth
  | int number => exact .int number
  | str text => exact .str text
  | list _ inner => exact .list inner
  | map _ inner => exact .map inner
  | function isKnown => exact .function (implies _ isKnown)
  | closure isKnown => exact .closure (implies _ isKnown)
  | box cell => exact .box cell
  | exception identity exception => exact .exception identity exception
  | builtin builtin => exact .builtin builtin

/-- What comes from some texts comes from these and one more. -/
theorem Value.CallsOnly.comesFrom_cons
    (sources : List String) (source : String) (value : Value)
    (calls : value.CallsOnly (ComesFrom sources)) :
    value.CallsOnly (ComesFrom (source :: sources)) :=
  calls.mono fun _ comes => comes.mono (List.subset_cons_self source sources)

namespace Machine

/-! ## Steps -/

variable {property : Value → Prop} {machine after : Machine}
    {instruction : Instruction}

theorem fetch_inversion (fetches : machine.fetch = .ok (instruction, after)) :
    ∃ frame below, machine.frames = frame :: below ∧
      Instruction.decode frame.template.code frame.ip = .ok instruction ∧
      after = { machine with frames :=
        { frame with ip := instruction.next } :: below } := by
  obtain ⟨frame, isTop, rest⟩ := Outcome.bind_eq_ok.1 fetches
  obtain ⟨below, frames⟩ := top_inversion isTop
  split at rest
  next decoded decodes =>
    cases rest
    exact ⟨frame, below, frames, decodes, setTop_eq frames _⟩
  next => cases rest

/-- All values of the machine that a step leads to have the property. -/
def EverywhereAfter (property : Value → Prop) : Step → Prop
  | .running after | .finished _ after | .failed _ after =>
      after.Everywhere property

namespace Everywhere

variable {more : Value → Prop}

theorem mono
    (everywhere : machine.Everywhere property)
    (implies : ∀ value, property value → more value) :
    machine.Everywhere more where
  frames := fun frame member =>
    have has := everywhere.frames frame member
    { closure := implies _ has.closure
      stack := fun value held => implies value (has.stack value held)
      slots := fun value held => implies value (has.slots value held)
      stash := fun link linked handler stashed =>
        implies _ (has.stash link linked handler stashed) }
  handlers := fun handler member =>
    implies _ (everywhere.handlers handler member)
  globals := fun entry member => implies _ (everywhere.globals entry member)
  methods := fun entry member => implies _ (everywhere.methods entry member)
  cells := fun value member => implies value (everywhere.cells value member)

theorem comesFrom_cons {sources : List String}
    (everywhere : machine.Everywhere (Value.CallsOnly (ComesFrom sources)))
    (source : String) :
    machine.Everywhere (Value.CallsOnly (ComesFrom (source :: sources))) :=
  everywhere.mono (Value.CallsOnly.comesFrom_cons sources source)

theorem cleared (everywhere : machine.Everywhere property) :
    machine.cleared.Everywhere property :=
  everywhere.unwind (by simp) (by simp)

theorem fetched
    (everywhere : machine.Everywhere property)
    (fetches : machine.fetch = .ok (instruction, after)) :
    after.Everywhere property := by
  obtain ⟨frame, below, frames, _, rfl⟩ := fetch_inversion fetches
  have newest := everywhere.newest frames
  exact everywhere.replace frames (newest.proceed newest.stack)

/-- Values that are there after an instruction, whether it repeats something or
not. -/
theorem onward
    (everywhere : machine.Everywhere property)
    (inherited : Value.Inherited property)
    {frame : Frame} {below : List Frame}
    (frames : machine.frames = frame :: below)
    (executed : machine.execute instruction = .ok (.onward after)) :
    after.Everywhere property := by
  by_cases repeats : instruction.opcode = .loop
  · unfold Machine.execute at executed
    rw [top_eq frames, Outcome.ok_bind] at executed
    simp only [repeats] at executed
    split at executed
    · cases executed
      have newest := everywhere.newest frames
      rw [setTop_eq frames]
      exact everywhere.replace frames (newest.proceed newest.stack)
    · cases executed
  · exact (everywhere.execute inherited frames repeats executed).everywhere

/-- A step makes values only of those that there are. -/
theorem afterStep
    (everywhere : machine.Everywhere property)
    (inherited : Value.Inherited property) :
    EverywhereAfter property machine.step := by
  unfold Machine.step
  split
  next => exact everywhere.cleared
  next instruction fetched fetches =>
    have fetchedEverywhere := everywhere.fetched fetches
    have follows := fetched.execute_untraced instruction
    split
    next next executed =>
      obtain ⟨frame, below, _, _, rfl⟩ := fetch_inversion fetches
      exact fetchedEverywhere.onward inherited rfl executed
    next value final executed =>
      rw [executed] at follows
      obtain ⟨handlers, fewer, rfl⟩ := follows
      exact fetchedEverywhere.unwind (fun _ => List.mem_of_mem_tail)
        fun handler member => fetchedEverywhere.handlers handler (fewer member)
    next => exact fetchedEverywhere.cleared

/-! ## Runs -/

theorem reached
    (everywhere : machine.Everywhere property)
    (inherited : Value.Inherited property)
    {count : Nat}
    (reaches : machine.reached count = some after) :
    after.Everywhere property := by
  refine reached_induction _ everywhere
    (fun _ before next _ beforeEverywhere steps => ?_) reaches
  have afterStep := beforeEverywhere.afterStep inherited
  rw [steps] at afterStep
  exact afterStep

theorem run
    (everywhere : machine.Everywhere property)
    (inherited : Value.Inherited property)
    {bound : Nat} {ending : Ending}
    (ended : machine.run bound = some ending) :
    ending.machine.Everywhere property := by
  obtain ⟨count, last, reaches, ends⟩ := exists_last ended
  have afterStep := (everywhere.reached inherited reaches).afterStep inherited
  rcases ends with ⟨_, _, ends⟩ | ⟨_, _, ends⟩ <;>
  · rw [ends] at afterStep
    exact afterStep

theorem interpret
    (everywhere : machine.Everywhere property)
    (inherited : Value.Inherited property)
    {script : Template} {identity : Nat}
    (has : property (.function identity script))
    {bound : Nat} {ending : Ending}
    (ended : machine.interpret bound script = some ending) :
    ending.machine.Everywhere property := by
  rcases interpret_cases ended with ⟨start, loads, ended⟩ | ⟨failure, _, rfl⟩
  · exact (everywhere.load inherited has loads).1.run inherited ended
  · exact everywhere.cleared

end Everywhere

/-! ## Sessions -/

/-- The machines on which source texts were run, the latest one first, from a
fresh one on. -/
inductive SessionOf (limits : Limits) (outlet : Outlet) :
    List String → Machine → Prop
  | fresh : SessionOf limits outlet [] (Machine.fresh limits outlet)
  | runs {sources : List String} {machine : Machine}
      (session : SessionOf limits outlet sources machine)
      (bound : Nat) (source file : String) :
      SessionOf limits outlet (source :: sources)
        (machine.runSource bound source file).2

namespace SessionOf

variable {limits : Limits} {outlet : Outlet} {sources : List String}

theorem session (session : SessionOf limits outlet sources machine) :
    Session limits outlet machine := by
  induction session with
  | fresh => exact .fresh
  | runs _ bound source file inner => exact .runs inner bound source file

variable {property : List String → Value → Prop} {source file : String}
    {script : Template} {start later : Machine} {count : Nat}

/-- Whatever is inherited from the functions of the texts that were run on a
machine holds of all its values. -/
theorem everywhere_of
    (session : SessionOf limits outlet sources machine)
    (inherited : ∀ sources, Value.Inherited (property sources))
    (known : ∀ sources identity template, ComesFrom sources template →
      property sources (.function identity template))
    (grows : ∀ sources source value, property sources value →
      property (source :: sources) value) :
    machine.Everywhere (property sources) := by
  induction session with
  | fresh => exact everywhere_fresh (inherited []).builtin limits outlet
  | @runs sources machine _ bound source file inner =>
      have before := inner.mono (grows sources source)
      exact runSource_induction _ before before.cleared
          fun script ending compiled ended =>
        before.interpret (inherited _)
          (known _ 0 script (comesFrom_script compiled)) ended

/-- It holds of all values on the way through a run as well. -/
theorem everywhere_of_reached
    (session : SessionOf limits outlet sources machine)
    (inherited : ∀ sources, Value.Inherited (property sources))
    (known : ∀ sources identity template, ComesFrom sources template →
      property sources (.function identity template))
    (grows : ∀ sources source value, property sources value →
      property (source :: sources) value)
    (compiled : compileSource source file = .ok script)
    (loads : machine.load script = .running start)
    (reaches : start.reached count = some later) :
    later.Everywhere (property (source :: sources)) := by
  have before := (session.everywhere_of inherited known grows).mono
    (grows sources source)
  have started :=
    (before.load (inherited _)
      (known _ 0 script (comesFrom_script compiled)) loads).1
  exact started.reached (inherited _) reaches

/-- All functions on a machine come from the texts that were run on it. -/
theorem everywhere (session : SessionOf limits outlet sources machine) :
    machine.Everywhere (Value.CallsOnly (ComesFrom sources)) :=
  session.everywhere_of inherited_comesFrom (fun _ _ _ => .function)
    Value.CallsOnly.comesFrom_cons

/-- The function of every frame comes from the text that is being run or from
one that was run before. -/
theorem comesFrom
    (session : SessionOf limits outlet sources machine)
    (compiled : compileSource source file = .ok script)
    (loads : machine.load script = .running start)
    (reaches : start.reached count = some later)
    {frame : Frame}
    (live : frame ∈ later.frames) :
    ComesFrom (source :: sources) frame.template := by
  have everywhere :=
    session.everywhere_of_reached inherited_comesFrom (fun _ _ _ => .function)
    Value.CallsOnly.comesFrom_cons compiled loads reaches
  cases (everywhere.frames frame live).closure with
  | closure isKnown => exact isKnown

end SessionOf

end Machine

end EffectScript
