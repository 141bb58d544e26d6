import EffectScript.Proofs.Room
import EffectScript.Script

/-!
# When programs compile

Three things in a program have no code, wherever they stand: floating-point
literals, assignments to what is no name, and reads of the placeholder name.
These are the flaws of the program. A program with a flaw does not compile, also
where the flaw stands in a function that is never called or in a branch that is
never taken, and the error of a program without flaws is that there is too much
of something. Of small programs there is never too much.
-/

namespace EffectScript

open Outcome (Ends)
open Room

/-! ## Flaws -/

/-- What is wrong with a literal. -/
def Literal.flaws (line : UInt32) : Literal → List CompileError
  | .float _ => [.floatLiteral line]
  | _ => []

mutual

/-- What is wrong with an expression and the expressions inside it, in the order
in which their code is written. -/
def Expr.flaws : Expr → List CompileError
  | .ident name position => if name = wildcard then
      [.unresolved name position.debugLine] else []
  | .literal value position => value.flaws position.debugLine
  | .binary _ left right _ => left.flaws ++ right.flaws
  | .unary _ operand _ => operand.flaws
  | .call callee arguments _ => callee.flaws ++ flawsAmong arguments
  | .assign (.ident ..) value _ => value.flaws
  | .assign target value position =>
      .assignmentTo target.kindName position.debugLine ::
        (target.flaws ++ value.flaws)
  | .define _ _ body _ => body.flaws
  | .block body => body.flaws
  | .branch condition consequence alternative _ =>
      condition.flaws ++ (consequence.flaws ++ flawsIn alternative)
  | .loop condition body _ => condition.flaws ++ body.flaws
  | .attempt body clauses _ => flawsOfClauses clauses ++ body.flaws
  | .perform _ payload _ => flawsIn payload

/-- What is wrong with an expression that may be missing. -/
def flawsIn : Option Expr → List CompileError
  | none => []
  | some expression => expression.flaws

/-- What is wrong with expressions. -/
def flawsAmong : List Expr → List CompileError
  | [] => []
  | first :: others => first.flaws ++ flawsAmong others

/-- What is wrong with a block. -/
def Block.flaws : Block → List CompileError
  | ⟨expressions, _⟩ => flawsAmong expressions

/-- What is wrong with clauses. -/
def flawsOfClauses : List Clause → List CompileError
  | [] => []
  | ⟨_, _, body, _⟩ :: clauses => body.flaws ++ flawsOfClauses clauses

end

/-! ## Sizes -/

mutual

/-- How large an expression is: every expression in it counts, and so do the
parameters of its functions and the clauses of its attempts. -/
def Expr.size : Expr → Nat
  | .ident .. | .literal .. => 1
  | .binary _ left right _ => 1 + left.size + right.size
  | .unary _ operand _ => 1 + operand.size
  | .call callee arguments _ => 1 + callee.size + sizeAmong arguments
  | .assign target value _ => 1 + target.size + value.size
  | .define _ parameters body _ => 1 + parameters.length + body.size
  | .block body => 1 + body.size
  | .branch condition consequence alternative _ =>
      1 + condition.size + consequence.size + sizeIn alternative
  | .loop condition body _ => 1 + condition.size + body.size
  | .attempt body clauses _ => 1 + body.size + sizeOfClauses clauses
  | .perform _ payload _ => 1 + sizeIn payload

/-- How large an expression is that may be missing. -/
def sizeIn : Option Expr → Nat
  | none => 0
  | some expression => expression.size

/-- How large expressions are together. -/
def sizeAmong : List Expr → Nat
  | [] => 0
  | first :: others => first.size + sizeAmong others

/-- How large a block is. -/
def Block.size : Block → Nat
  | ⟨expressions, _⟩ => sizeAmong expressions

/-- How large clauses are together. -/
def sizeOfClauses : List Clause → Nat
  | [] => 0
  | ⟨_, _, body, _⟩ :: clauses => 1 + body.size + sizeOfClauses clauses

end

theorem Expr.size_pos (expression : Expr) : 0 < expression.size := by
  cases expression <;> rw [Expr.size] <;> omega

theorem length_le_sizeAmong (expressions : List Expr) :
    expressions.length ≤ sizeAmong expressions := by
  induction expressions with
  | nil => exact Nat.le_refl 0
  | cons first others inner =>
      have positive := first.size_pos
      rw [List.length_cons, sizeAmong]
      omega

theorem length_le_sizeOfClauses (clauses : List Clause) :
    clauses.length ≤ sizeOfClauses clauses := by
  induction clauses with
  | nil => exact Nat.le_refl 0
  | cons first others inner =>
      cases first
      rw [List.length_cons, sizeOfClauses]
      omega

/-! ## Lowering -/

variable {units : Nat}

/-- A name takes a slot or a place among the names, and its read two bytes. -/
theorem Nest.Spares.loadVariable {nest : Nest} {room : Room}
    (name : String) (position : Position)
    (spares : nest.Spares units
      (forSlots 1 + (forName + (forBytes 2 + room)))) :
    Judges units (Expr.ident name position).flaws (Nest.Spares units room)
      (nest.loadVariable name position.debugLine) := by
  unfold Nest.loadVariable Expr.flaws
  split
  · exact .flaw List.mem_cons_self
  · refine (spares.resolve name position.debugLine).next fun ⟨found, resolved⟩
      ⟨_, kept⟩ => ?_
    cases found with
    | some slot => exact .ok (kept.drop.emit _ [_] _)
    | none => exact kept.emitNamed _ name _

theorem Nest.Spares.literal {nest : Nest} {room : Room}
    (value : Literal) (line : UInt32)
    (spares : nest.Spares units (forConstant + (forBytes 2 + room))) :
    Judges units (value.flaws line) (Nest.Spares units room)
      (nest.literal value line) := by
  have short : nest.Spares units (forBytes 1 + room) := spares.less (by simp)
  cases value with
  | nil => exact .ok (short.emit _ [] _)
  | bool truth => cases truth <;> exact .ok (short.emit _ [] _)
  | int number => exact spares.emitConstant _ line
  | str text => exact spares.emitConstant _ line
  | float number => exact .flaw List.mem_cons_self

mutual

/-- Lowering an expression finds its flaws and takes no more room than its size;
a byte is left for throwing its value away. -/
theorem lowerExpr_judges (nils : StatementNils) :
    (expression : Expr) → {nest : Nest} → {room : Room} →
      nest.Spares units (forUnits expression.size + room) →
        Judges units expression.flaws (Nest.Spares units (forBytes 1 + room))
          (lowerExpr nils expression nest)
  | .ident name position, nest, room, spares => by
      have paid : nest.Spares units
          (forSlots 1 + (forName + (forBytes 2 + (forBytes 1 + room)))) :=
        spares.less (by simp [Expr.size]; omega)
      rw [lowerExpr]
      exact paid.loadVariable name position
  | .literal value position, nest, room, spares => by
      have paid : nest.Spares units
          (forConstant + (forBytes 2 + (forBytes 1 + room))) :=
        spares.less (by simp [Expr.size]; omega)
      rw [lowerExpr, Expr.flaws]
      exact paid.literal value _
  | .binary op left right position, nest, room, spares => by
      have paid : nest.Spares units (forUnits left.size + (forUnits right.size +
          (forBytes 1 + (forBytes 1 + (forBytes 1 + room))))) :=
        spares.less (by simp [Expr.size]; omega)
      rw [lowerExpr, Expr.flaws]
      refine (lowerExpr_judges nils left paid).bind fun afterLeft paid => ?_
      refine (lowerExpr_judges nils right paid.drop).last
        fun afterRight paid => .ok ?_
      have applied := paid.drop.emit op.opcode [] position.debugLine
      split
      · exact applied.emit _ [] _
      · exact applied.drop
  | .unary op operand position, nest, room, spares => by
      have paid : nest.Spares units
          (forUnits operand.size + (forBytes 1 + (forBytes 1 + room))) :=
        spares.less (by simp [Expr.size]; omega)
      rw [lowerExpr, Expr.flaws]
      exact (lowerExpr_judges nils operand paid).last fun _ paid =>
        .ok (paid.drop.emit _ [] _)
  | .call callee arguments position, nest, room, spares => by
      have paid : nest.Spares units
          (forUnits callee.size + (forUnits (sizeAmong arguments) +
          (forBytes 2 + (forBytes 1 + room)))) :=
        spares.less (by simp [Expr.size]; omega)
      have counted : arguments.length ≤ units := by
        have least := length_le_sizeAmong arguments
        have constants := paid.current.constants
        simp only [constants_add, forUnits, forBytes] at constants
        omega
      rw [lowerExpr, Expr.flaws]
      refine (lowerExpr_judges nils callee paid).bind fun afterCallee paid => ?_
      refine (lowerArguments_judges nils arguments paid.drop).last
        fun afterArguments paid => ?_
      split
      · exact .ok (paid.emit _ [_] _)
      next many => exact .tooMany (by simp only [Resource.limit] at many; omega)
  | .assign target value position, nest, room, spares => by
      cases target with
      | ident name place =>
          have paid : nest.Spares units
              (forUnits value.size + (forSlots 1 + (forName +
              (forBytes 2 + (forBytes 1 + (forBytes 1 + room)))))) :=
            spares.less (by simp [Expr.size]; omega)
          rw [lowerExpr, Expr.flaws]
          refine (lowerExpr_judges nils value paid).last
            fun afterValue paid => ?_
          refine (paid.drop.storeTarget name _).next
            fun ⟨target, targeted⟩ paid => .ok ?_
          exact (paid.emitStore target _).emitStatementNil _
      | _ => exact .flaw (by simp [Expr.flaws])
  | .define name parameters body position, nest, room, spares => by
      -- The target comes first, then what the function inside takes up, then
      -- the closure.
      have paid : nest.Spares units
          (forSlots 1 + (forName + (forSlots parameters.length + (forBytes 1 +
          (forUnits body.size +
            (forBytes 1 + (forConstant + (forBytes 2 + (forBytes 2 +
            (forBytes 1 + (forBytes 1 + room))))))))))) :=
        spares.less (by simp [Expr.size]; omega)
      rw [lowerExpr, Expr.flaws]
      refine (paid.storeTarget name _).next fun ⟨target, targeted⟩ paid => ?_
      refine (paid.current.start name parameters _).next fun draft begun => ?_
      refine (lowerBlock_judges nils body (paid.drop.drop.enter _ begun)).last
        fun afterBody inside => ?_
      have closed := inside.leave position.debugLine paid.drop.drop.drop.drop
      refine (closed.emitClosure _ _).next fun pushed paid => .ok ?_
      exact (paid.emitStore target _).emitStatementNil _
  | .block body, nest, room, spares => by
      have paid : nest.Spares units
          (forUnits body.size + (forBytes 1 + (forBytes 1 + room))) :=
        spares.less (by simp [Expr.size]; omega)
      rw [lowerExpr, Expr.flaws]
      exact lowerBlock_judges nils body paid
  | .branch condition consequence alternative position, nest, room, spares => by
      have paid : nest.Spares units
          (forUnits condition.size + (forBytes 3 + (forUnits consequence.size +
          (forBytes 1 +
            (forBytes 3 + (forUnits (sizeIn alternative) + (forBytes 1 +
            (forBytes 1 + room)))))))) :=
        spares.less (by simp [Expr.size]; omega)
      rw [lowerExpr, Expr.flaws]
      refine (lowerExpr_judges nils condition paid).bind
        fun afterCondition paid => ?_
      refine (lowerBlock_judges nils consequence
        (paid.drop.emit _ [_, _] _)).bind fun _ paid => ?_
      refine ((paid.emit _ [_, _] _).patchJump _ _).next
        fun elsePatched paid => ?_
      exact (lowerOptional_judges nils alternative paid).last fun _ paid =>
        paid.patchJump _ _
  | .loop condition body position, nest, room, spares => by
      have paid : nest.Spares units
          (forUnits condition.size + (forBytes 3 + (forUnits body.size +
          (forBytes 1 + (forBytes 1 +
            (forBytes 3 + (forBytes 1 + (forBytes 1 + room)))))))) :=
        spares.less (by simp [Expr.size]; omega)
      have labelled := paid.write
        { paid.current with : nest.current.label.Spares units _ }
      rw [lowerExpr, Expr.flaws]
      refine (lowerExpr_judges nils condition labelled).bind
        fun afterCondition paid => ?_
      refine (lowerBlock_judges nils body (paid.drop.emit _ [_, _] _)).last
        fun afterBody paid => ?_
      have discarded := paid.discard nils position.debugLine
      refine (discarded.current.emitLoop _ _).next fun looped looping => ?_
      refine ((discarded.drop.write looping).patchJump _ _).next
        fun _ paid => .ok ?_
      exact paid.emitStatementNil _
  | .attempt body clauses position, nest, room, spares => by
      have paid : nest.Spares units
          (forUnits (sizeOfClauses clauses) + (forUnits body.size +
          (forBytes 1 + (forBytes 2 + (forBytes 1 + room))))) :=
        spares.less (by simp [Expr.size]; omega)
      have counted : clauses.length ≤ units := by
        have least := length_le_sizeOfClauses clauses
        have constants := paid.current.constants
        simp only [constants_add, forUnits, forBytes] at constants
        omega
      rw [lowerExpr, Expr.flaws]
      split
      · refine (lowerClauses_judges nils clauses paid).bind
          fun ⟨sites, registered⟩ paid => ?_
        refine (lowerBlock_judges nils body paid).last fun afterBody paid => ?_
        exact (paid.emit _ [_] _).patchHandlers _ sites
      next many => exact .tooMany (by simp only [Resource.limit] at many; omega)
  | .perform effect payload position, nest, room, spares => by
      have paid : nest.Spares units
          (forUnits (sizeIn payload) + (forBytes 1 + (forName +
          (forBytes 2 + (forBytes 1 + room))))) :=
        spares.less (by simp [Expr.size]; omega)
      rw [lowerExpr, Expr.flaws]
      exact (lowerOptional_judges nils payload paid).last fun _ paid =>
        paid.emitNamed _ effect _

theorem lowerOptional_judges (nils : StatementNils) :
    (expression : Option Expr) → {line : UInt32} →
      {nest : Nest} → {room : Room} →
      nest.Spares units (forUnits (sizeIn expression) + (forBytes 1 + room)) →
        Judges units (flawsIn expression) (Nest.Spares units room)
          (lowerOptional nils expression line nest)
  | none, _, nest, room, spares => by
      rw [lowerOptional]
      exact .ok (spares.drop.emit _ [] _)
  | some expression, _, nest, room, spares => by
      rw [lowerOptional, flawsIn]
      exact (lowerExpr_judges nils expression spares).imp fun _ paid =>
        paid.drop.drop

theorem lowerArguments_judges (nils : StatementNils) :
    (arguments : List Expr) → {nest : Nest} →
      {room : Room} → nest.Spares units
          (forUnits (sizeAmong arguments) + room) →
        Judges units (flawsAmong arguments) (Nest.Spares units room)
          (lowerArguments nils arguments nest)
  | [], nest, room, spares => by
      rw [lowerArguments]
      exact .ok spares.drop
  | first :: others, nest, room, spares => by
      have paid : nest.Spares units
          (forUnits first.size + (forUnits (sizeAmong others) + room)) :=
        spares.less (by simp [sizeAmong]; omega)
      rw [lowerArguments, flawsAmong]
      exact (lowerExpr_judges nils first paid).bind fun _ paid =>
        lowerArguments_judges nils others paid.drop

/-- A block takes a byte more than its expressions, for the value of an empty
one. -/
theorem lowerBlock_judges (nils : StatementNils) :
    (block : Block) → {nest : Nest} → {room : Room} →
      nest.Spares units (forUnits block.size + (forBytes 1 + room)) →
        Judges units block.flaws (Nest.Spares units room)
          (lowerBlock nils block nest)
  | ⟨[], position⟩, nest, room, spares => by
      rw [lowerBlock]
      exact .ok (spares.drop.emitStatementNil _)
  | ⟨first :: others, position⟩, nest, room, spares => by
      rw [lowerBlock, Block.flaws]
      exact (lowerSequence_judges nils (first :: others) spares).imp
        fun _ paid => paid.drop

theorem lowerSequence_judges (nils : StatementNils) :
    (expressions : List Expr) → {nest : Nest} →
      {room : Room} → nest.Spares units
          (forUnits (sizeAmong expressions) + room) →
        Judges units (flawsAmong expressions) (Nest.Spares units room)
          (lowerSequence nils expressions nest)
  | [], nest, room, spares => by
      rw [lowerSequence]
      exact .ok spares.drop
  | first :: others, nest, room, spares => by
      have paid : nest.Spares units
          (forUnits first.size + (forUnits (sizeAmong others) + room)) :=
        spares.less (by simp [sizeAmong]; omega)
      rw [lowerSequence, flawsAmong]
      refine (lowerExpr_judges nils first paid).bind fun afterFirst paid => ?_
      split
      next single =>
        rw [List.isEmpty_iff.1 single]
        exact .ok paid.drop.drop
      · exact lowerSequence_judges nils others (paid.discard nils _)

theorem lowerClauses_judges (nils : StatementNils) :
    (clauses : List Clause) → {nest : Nest} →
      {room : Room} → nest.Spares units
          (forUnits (sizeOfClauses clauses) + room) →
        Judges units (flawsOfClauses clauses)
          (fun registered => registered.2.Spares units room)
          (lowerClauses nils clauses nest)
  | [], nest, room, spares => by
      rw [lowerClauses]
      exact .ok spares.drop
  | ⟨effect, parameter, body, position⟩ :: clauses, nest, room, spares => by
      have paid : nest.Spares units
          (forSlots 1 + (forBytes 1 + (forUnits body.size + (forBytes 1 +
          (forConstant + (forBytes 2 + (forName + (forBytes 4 +
            (forUnits (sizeOfClauses clauses) + room))))))))) :=
        spares.less (by simp [sizeOfClauses]; omega)
      rw [lowerClauses, flawsOfClauses]
      refine (paid.current.start (handlerName effect) [parameter] _).next
        fun draft begun => ?_
      refine (lowerBlock_judges nils body (paid.drop.drop.enter _ begun)).bind
        fun afterBody inside => ?_
      have closed := inside.leave position.debugLine paid.drop.drop.drop.drop
      refine (closed.emitClosure _ _).next fun pushed paid => ?_
      refine (paid.nameIndex effect _).next fun ⟨index, named⟩ paid => ?_
      refine (lowerClauses_judges nils clauses (paid.emit _ [_, _, _] _)).last
        fun _ paid => .ok paid

end

/-! ## Programs -/

/-- What the compiler says about a program: it accepts only programs without
flaws, and what it says about another one is a flaw, or that there is too much
of something in a large program. -/
theorem Block.compileWith_judges (nils : StatementNils) (program : Block) :
    Judges program.size program.flaws (fun _ => True)
      (program.compileWith nils) := by
  have begun :
      (⟨({ name := scriptName } : Draft).addSlot scriptName 0, [], 0⟩ :
        Nest).Spares
      program.size (forUnits program.size + (forBytes 1 + forBytes 0)) :=
    ⟨⟨by rw [Draft.length_slots_addSlot]; simp [Draft.slots], by
      simp [Draft.addSlot],
      by simp [Draft.addSlot],
      by simp only [bytes_add, forUnits, forBytes, Draft.code_addSlot,
        Array.size_empty]; omega⟩, by simp⟩
  exact (lowerBlock_judges nils program begun).last fun _ _ => .ok trivial

/-- Programs are refused exactly where they have to be. A program that compiles
has no flaw. If it does not compile, the error is one of its flaws or says that
there is too much of something. A program without flaws compiles if it is not
larger than 255. -/
theorem refusals_are_warranted (program : Block) :
    (∀ template, program.compile = .ok template → program.flaws = []) ∧
      (∀ error, program.compile = .error error → error ∈ program.flaws ∨
        error.IsTooMany) ∧
      (program.flaws = [] → program.size ≤ 255 → ∃ template,
        program.compile = .ok template) := by
  have judged : Judges program.size program.flaws
      (fun _ => True) program.compile :=
    program.compileWith_judges .elided
  match compiled : program.compile with
  | .ok template =>
      rw [compiled] at judged
      exact ⟨fun _ _ => judged.1, nofun, fun _ _ => ⟨template, rfl⟩⟩
  | .error error =>
      rw [compiled] at judged
      refine ⟨nofun, ?_, fun flawless small => ?_⟩
      · rintro _ ⟨⟩
        exact judged.imp_right And.left
      · rcases judged with isFlaw | ⟨_, large⟩
        · rw [flawless] at isFlaw
          cases isFlaw
        · omega

/-- A function that is never called, first without flaws and then with two of
them: one in a branch that is never taken and one in a clause. -/
theorem refusal_of_function_never_called :
    (∃ program template,
      parseSource "fn f(n) { try { n = 1 } handle e(v) { n == 2 } }" =
        .ok program ∧
      program.flaws = [] ∧ program.size = 10 ∧ program.compile = .ok template) ∧
    ∃ program error,
      parseSource
        "fn f(n) { try { if false { n = _ } } handle e(v) { n == 0.5 } }" =
          .ok program ∧
      program.flaws = [.floatLiteral 1, .unresolved wildcard 1] ∧
      program.compile = .error error ∧
      (error ∈ program.flaws ∨ error.IsTooMany) := by
  have sound :
      (parseSource
        "fn f(n) { try { n = 1 } handle e(v) { n == 2 } }").toOption.any
          fun program => program.flaws = [] ∧ program.size = 10 := by
    decide +kernel
  have flawed :
      (parseSource
        "fn f(n) { try { if false { n = _ } } handle e(v) { n == 0.5 } }"
        ).toOption.any fun program =>
          program.flaws = [.floatLiteral 1, .unresolved wildcard 1] := by
    decide +kernel
  constructor
  · obtain ⟨program, parsed, checked⟩ := (Option.any_eq_true _ _).1 sound
    obtain ⟨flawless, size⟩ := of_decide_eq_true checked
    obtain ⟨template, compiled⟩ :=
      (refusals_are_warranted program).2.2 flawless (by omega)
    exact ⟨program, template, Outcome.eq_ok_of_toOption parsed, flawless,
      size, compiled⟩
  · obtain ⟨program, parsed, checked⟩ := (Option.any_eq_true _ _).1 flawed
    have flaws := of_decide_eq_true checked
    match compiled : program.compile with
    | .ok template =>
        have flawless := (refusals_are_warranted program).1 template compiled
        rw [flaws] at flawless
        cases flawless
    | .error error =>
        exact ⟨program, error, Outcome.eq_ok_of_toOption parsed,
          flaws, compiled, (refusals_are_warranted program).2.1 error compiled⟩

end EffectScript
