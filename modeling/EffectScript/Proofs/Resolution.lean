import EffectScript.Proofs.Identifiers
import EffectScript.Proofs.Surveying

/-!
# Names resolve lexically

A name means the variable of the innermost function around it that has declared
the name by then, and what is left are globals. The sketch of a program says so
for every place that reads or writes a name, and the compiled functions have
exactly one instruction for each such place, which accesses that variable:
directly, through as many captures as there are functions in between, or by the
name of the global.

The clauses of an attempt are an exception to the order of the text. They do not
know the names that the body of the attempt declares.
-/

namespace EffectScript

/-- The compiled function accesses the variables that its text names. Its slots
have the numbers from zero on and begin with its own name and its parameters. -/
structure Sketch.Resolves
    (enclosing : List Registry)
    (sketch : Sketch) (template : Template) : Prop where
  numbered : template.debug.slotNames.map (·.2.toNat) =
    List.range template.locals
  beginning : sketch.name :: sketch.parameters <+:
    template.debug.slotNames.map (·.1)
  events : List.Forall₂
    (fun event instruction => event.Becomes (template.registry :: enclosing)
      template.names
      instruction.opcode instruction.byte) sketch.events
        template.eventInstructions

/-- Where the name of the script is not mentioned, a described function accesses
the variables that its text names. -/
theorem Sketch.Describes.resolves
    {enclosing : List Registry} {sketch : Sketch} {template : Template}
    (describes : sketch.Describes enclosing template)
    (proper : ∀ event ∈ sketch.events, enclosing = [] →
      event.name? ≠ some scriptName) :
    sketch.Resolves enclosing template := by
  refine ⟨describes.numbered, describes.beginning, ?_⟩
  refine ((List.forall₂_and_left _ _).2 ⟨proper, describes.events⟩).imp ?_
  rintro event instruction ⟨properEvent, becomes | ⟨outermost, named, _⟩⟩
  · exact becomes
  · have alone : enclosing = [] := by simpa using outermost
    exact absurd named (properEvent alone)

/-- Names resolve lexically. In a source text that compiles, every read of a
name and every target of an assignment or a definition becomes one instruction,
in the order of the text. If a function other than the script has declared the
name by then, counted from the innermost one outward, the instruction accesses a
slot, and that slot, followed through one capture for each function in between,
is the slot of the name in the declaring function. Otherwise the instruction
accesses the global of that name. What is declared by then is what stands before
in the text, but the clauses of an attempt count as standing before its body. -/
theorem names_resolve_lexically {source : String}
    {program : Block} {script : Template}
    (parsed : parseSource source = .ok program)
    (compiled : program.compile = .ok script) :
    program.sketch.Matches Sketch.Resolves [] script := by
  have within := Block.sketch_within (parseSource_isWithin parsed)
  have described := Block.compileWith_described compiled
  cases described with
  | intro describes count inside =>
      refine .intro (describes.resolves ?_) count
        fun inner function paired => ?_
      · intro event member _ named
        cases within with
        | intro events _ =>
            have allowed := events event member
            cases event with
            | reads name level =>
                exact ne_scriptName_of_isIdentifier allowed
                  (Option.some.inj named)
            | writes name level =>
                exact ne_scriptName_of_isIdentifier allowed
                  (Option.some.inj named)
            | attempts clauses => cases named
            | repeats => cases named
      · refine (inside inner function paired).imp_inside ?_
          (List.cons_ne_nil _ _)
        intro enclosing sketch template nested innerDescribes
        exact innerDescribes.resolves fun _ _ outermost =>
          absurd outermost nested

/-- Whether a source text compiles and it passes a check together with its
code. -/
def compilesAs (source : String) (check : Block → Template → Bool) : Bool :=
  match parseSource source with
  | .error _ => false
  | .ok program =>
      match program.compile with
      | .error _ => false
      | .ok script => check program script

theorem exists_of_compilesAs {source : String}
    {check : Block → Template → Bool}
    (checked : compilesAs source check) :
    ∃ program script, parseSource source = .ok program ∧
      program.compile = .ok script ∧
      check program script := by
  unfold compilesAs at checked
  split at checked
  · cases checked
  next program parsed =>
    split at checked
    · cases checked
    next script compiled => exact ⟨program, script, parsed, compiled, checked⟩

/-- Three functions inside each other: a parameter shadows one further out,
variables are reached across one and two functions, and a name that nobody
declares is a global. -/
theorem names_in_nested_functions_resolve :
    ∃ program script,
      parseSource
        "fn f(a) { x = a; fn g(a) { x = x + a; y = 1; fn h() { y = x; z } } }" =
          .ok program ∧
      program.compile = .ok script ∧
      program.sketch.events = [.writes "f" none] ∧
      program.sketch.functions.map (·.events) =
        [[.reads "a" (some 0), .writes "x" (some 0), .writes "g" (some 0)]] ∧
      (program.sketch.functions.flatMap (·.functions)).map (·.events) =
        [[.reads "x" (some 1), .reads "a" (some 0), .writes "x" (some 1),
          .writes "y" (some 0), .writes "h" (some 0)]] ∧
      ((program.sketch.functions.flatMap (·.functions)).flatMap
          (·.functions)).map (·.events) =
        [[.reads "x" (some 2), .writes "y" (some 1), .reads "z" none]] ∧
      program.sketch.Matches Sketch.Resolves [] script := by
  obtain ⟨program, script, parsed, compiled, checked⟩ := exists_of_compilesAs
    (show compilesAs
      "fn f(a) { x = a; fn g(a) { x = x + a; y = 1; fn h() { y = x; z } } }"
      (fun program _ => decide (program.sketch.events = [.writes "f" none] ∧
        program.sketch.functions.map (·.events) =
          [[.reads "a" (some 0), .writes "x" (some 0), .writes "g" (some 0)]] ∧
        (program.sketch.functions.flatMap (·.functions)).map (·.events) =
          [[.reads "x" (some 1), .reads "a" (some 0), .writes "x" (some 1),
            .writes "y" (some 0), .writes "h" (some 0)]] ∧
        ((program.sketch.functions.flatMap (·.functions)).flatMap
            (·.functions)).map (·.events) =
          [[.reads "x" (some 2), .writes "y" (some 1), .reads "z" none]])) by
            decide +kernel)
  rw [decide_eq_true_eq] at checked
  exact ⟨program, script, parsed, compiled, checked.1, checked.2.1,
    checked.2.2.1, checked.2.2.2, names_resolve_lexically parsed compiled⟩

/-! ## Clauses and the body of their attempt -/

/-- Whether the only function inside the only function of the sketch has the
events, and the one of the template does the operations. -/
def innermostHas
    (events : List Event) (operations : List Opcode) (sketch : Sketch)
    (template : Template) : Bool :=
  match sketch.functions, template.functions with
  | [outer], [function] =>
      match outer.functions, function.functions with
      | [inner], [innermost] =>
          inner.events = events ∧
          innermost.eventInstructions.map (·.opcode) = operations
      | _, _ => false
  | _, _ => false

/-- What the innermost function reads as a variable is not read as a global. -/
theorem Sketch.Matches.reads_variable {sketch : Sketch}
    {template : Template} {name : String} {level : Nat}
    (resolves : sketch.Matches Sketch.Resolves [] template) :
    ¬ innermostHas [.reads name (some level)] [.loadGlobal] sketch
      template := by
  intro has
  unfold innermostHas at has
  split at has
  next outer function outside compiledOutside =>
    split at has
    next inner innermost inside compiledInside =>
      obtain ⟨eventsEq, operationsEq⟩ := of_decide_eq_true has
      obtain ⟨instruction, instructions, opcode⟩ :=
        List.map_eq_singleton_iff.1 operationsEq
      have innerResolves :=
        (resolves.only outside compiledOutside).only inside compiledInside
      have events := innerResolves.here.events
      rw [eventsEq, instructions] at events
      cases events with
      | cons becomes _ => simp [Event.Becomes, opcode] at becomes
    next => cases has
  next => cases has

/-- The body of an attempt declares a variable, but the clause behind it reads
the global of that name. So names do not resolve in the order in which attempts
are written. -/
theorem clauses_do_not_know_names_of_the_body :
    ∃ program script,
      parseSource
      "x = \"global\"; fn f() { try { x = 1; do e(0) } handle e(v) { x } } f()"
        = .ok program ∧
      program.compile = .ok script ∧
      ¬ (program.sketchIn .bodyFirst).Matches Sketch.Resolves [] script := by
  obtain ⟨program, script, parsed, compiled, checked⟩ := exists_of_compilesAs
    (show compilesAs
      "x = \"global\"; fn f() { try { x = 1; do e(0) } handle e(v) { x } } f()"
      (fun program script => innermostHas [.reads "x" (some 1)] [.loadGlobal]
        (program.sketchIn .bodyFirst) script) by decide +kernel)
  exact ⟨program, script, parsed, compiled, fun resolves =>
    resolves.reads_variable checked⟩

end EffectScript
