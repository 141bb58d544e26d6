import EffectScript.Lowering
import EffectScript.Proofs.Outcome

/-!
# What a lowered construct consists of

A construct can be lowered only if its parts can, one behind the other, and if
each operation between them succeeds. There is one statement for each construct.
It names the nests in between, so that a fact about lowering follows from facts
about the parts and the operations without another look at the compiler.
-/

namespace EffectScript

namespace Lowered

variable {nils : StatementNils} {nest later : Nest} {position : Position}

/-! ## Expressions -/

theorem binary {op : BinaryOp} {left right : Expr}
    (lowered : lowerExpr nils (.binary op left right position) nest =
      .ok later) :
    ∃ afterLeft afterRight, lowerExpr nils left nest = .ok afterLeft ∧
      lowerExpr nils right afterLeft = .ok afterRight ∧
      later = if op.negated
        then (afterRight.emit op.opcode [] position.debugLine).emit .not
          [] position.debugLine
        else afterRight.emit op.opcode [] position.debugLine := by
  obtain ⟨afterLeft, leftLowered, rest⟩ := Outcome.bind_eq_ok.1 lowered
  obtain ⟨afterRight, rightLowered, result⟩ := Outcome.bind_eq_ok.1 rest
  cases result
  exact ⟨afterLeft, afterRight, leftLowered, rightLowered, rfl⟩

theorem unary {op : UnaryOp} {operand : Expr}
    (lowered : lowerExpr nils (.unary op operand position) nest = .ok later) :
    ∃ afterOperand, lowerExpr nils operand nest = .ok afterOperand ∧
      later = afterOperand.emit op.opcode [] position.debugLine := by
  obtain ⟨afterOperand, operandLowered, result⟩ := Outcome.bind_eq_ok.1 lowered
  cases result
  exact ⟨afterOperand, operandLowered, rfl⟩

theorem call {callee : Expr} {arguments : List Expr}
    (lowered : lowerExpr nils (.call callee arguments position) nest =
      .ok later) :
    ∃ afterCallee afterArguments, lowerExpr nils callee nest = .ok afterCallee ∧
      lowerArguments nils arguments afterCallee = .ok afterArguments ∧
      arguments.length ≤ Resource.arguments.limit ∧
      later = afterArguments.emit .call [UInt8.ofNat arguments.length]
        position.debugLine := by
  obtain ⟨afterCallee, calleeLowered, rest⟩ := Outcome.bind_eq_ok.1 lowered
  obtain ⟨afterArguments, argumentsLowered, result⟩ := Outcome.bind_eq_ok.1 rest
  split at result
  next few =>
    cases result
    exact ⟨afterCallee, afterArguments, calleeLowered,
      argumentsLowered, few, rfl⟩
  next => cases result

/-- Only names are assigned to. -/
theorem assign {target value : Expr}
    (lowered : lowerExpr nils (.assign target value position) nest =
      .ok later) :
    ∃ name place afterValue slot targeted, target = .ident name place ∧
      lowerExpr nils value nest = .ok afterValue ∧
      afterValue.storeTarget name position.debugLine = .ok (slot, targeted) ∧
      later = (targeted.emitStore slot position.debugLine).emitStatementNil
        position.debugLine := by
  cases target with
  | ident name place =>
      obtain ⟨afterValue, valueLowered, rest⟩ := Outcome.bind_eq_ok.1 lowered
      obtain ⟨⟨slot, targeted⟩, found, result⟩ := Outcome.bind_eq_ok.1 rest
      cases result
      exact ⟨name, place, afterValue, slot, targeted, rfl,
        valueLowered, found, rfl⟩
  | _ => cases lowered

theorem define {name : String} {parameters : List String}
    {body : Block}
    (lowered : lowerExpr nils (.define name parameters body position) nest =
      .ok later) :
    ∃ slot targeted draft afterBody pushed,
      nest.storeTarget name position.debugLine = .ok (slot, targeted) ∧
      Draft.start name parameters position.debugLine = .ok draft ∧
      lowerBlock nils body (targeted.enter draft position.debugLine) =
        .ok afterBody ∧
      (afterBody.leave targeted position.debugLine).2.emitClosure
        (afterBody.leave targeted position.debugLine).1 position.debugLine =
          .ok pushed ∧
      later = (pushed.emitStore slot position.debugLine).emitStatementNil
        position.debugLine := by
  obtain ⟨⟨slot, targeted⟩, found, rest⟩ := Outcome.bind_eq_ok.1 lowered
  obtain ⟨draft, started, rest⟩ := Outcome.bind_eq_ok.1 rest
  obtain ⟨afterBody, bodyLowered, rest⟩ := Outcome.bind_eq_ok.1 rest
  obtain ⟨pushed, emitted, result⟩ := Outcome.bind_eq_ok.1 rest
  cases result
  exact ⟨slot, targeted, draft, afterBody, pushed, found, started, bodyLowered,
    emitted, rfl⟩

theorem branch {condition : Expr} {consequence : Block}
    {alternative : Option Expr}
    (lowered : lowerExpr nils
      (.branch condition consequence alternative position) nest = .ok later) :
    ∃ afterCondition afterConsequence elsePatched afterAlternative,
      lowerExpr nils condition nest = .ok afterCondition ∧
      lowerBlock nils consequence
          (afterCondition.emit .jumpIfFalse [255, 255] position.debugLine) =
        .ok afterConsequence ∧
      (afterConsequence.emit .jump [255, 255] position.debugLine).patchJump
        afterCondition.offset position.debugLine = .ok elsePatched ∧
      lowerOptional nils alternative position.debugLine elsePatched =
        .ok afterAlternative ∧
      afterAlternative.patchJump afterConsequence.offset position.debugLine =
        .ok later := by
  obtain ⟨afterCondition, conditionLowered, rest⟩ :=
    Outcome.bind_eq_ok.1 lowered
  obtain ⟨afterConsequence, consequenceLowered, rest⟩ :=
    Outcome.bind_eq_ok.1 rest
  obtain ⟨elsePatched, elseLands, rest⟩ := Outcome.bind_eq_ok.1 rest
  obtain ⟨afterAlternative, alternativeLowered, endLands⟩ :=
    Outcome.bind_eq_ok.1 rest
  exact ⟨afterCondition, afterConsequence, elsePatched, afterAlternative,
    conditionLowered, consequenceLowered, elseLands,
    alternativeLowered, endLands⟩

theorem loop {condition : Expr} {body : Block}
    (lowered : lowerExpr nils (.loop condition body position) nest =
      .ok later) :
    ∃ afterCondition afterBody looped exitPatched,
      lowerExpr nils condition { nest with current := nest.current.label } =
        .ok afterCondition ∧
      lowerBlock nils body
        (afterCondition.emit .jumpIfFalse [255, 255] position.debugLine) =
          .ok afterBody ∧
      (afterBody.discard nils position.debugLine).current.emitLoop nest.offset
        position.debugLine = .ok looped ∧
      ({ afterBody.discard nils position.debugLine with current := looped } :
        Nest).patchJump
        afterCondition.offset position.debugLine = .ok exitPatched ∧
      later = exitPatched.emitStatementNil position.debugLine := by
  obtain ⟨afterCondition, conditionLowered, rest⟩ :=
    Outcome.bind_eq_ok.1 lowered
  obtain ⟨afterBody, bodyLowered, rest⟩ := Outcome.bind_eq_ok.1 rest
  obtain ⟨looped, returns, rest⟩ := Outcome.bind_eq_ok.1 rest
  obtain ⟨exitPatched, exitLands, result⟩ := Outcome.bind_eq_ok.1 rest
  cases result
  exact ⟨afterCondition, afterBody, looped, exitPatched, conditionLowered,
    bodyLowered, returns, exitLands, rfl⟩

theorem attempt {body : Block} {clauses : List Clause}
    (lowered : lowerExpr nils (.attempt body clauses position) nest =
      .ok later) :
    clauses.length ≤ Resource.handlers.limit ∧ ∃ places registered afterBody,
      lowerClauses nils clauses nest = .ok (places, registered) ∧
      lowerBlock nils body registered = .ok afterBody ∧
      (afterBody.emit .popHandlers [UInt8.ofNat clauses.length]
        position.debugLine).patchHandlers
        position.debugLine places = .ok later := by
  simp only [lowerExpr] at lowered
  split at lowered
  next few =>
    obtain ⟨⟨places, registered⟩, clausesLowered, rest⟩ :=
      Outcome.bind_eq_ok.1 lowered
    obtain ⟨afterBody, bodyLowered, lands⟩ := Outcome.bind_eq_ok.1 rest
    exact ⟨few, places, registered, afterBody, clausesLowered,
      bodyLowered, lands⟩
  next => cases lowered

theorem perform {effect : String} {payload : Option Expr}
    (lowered : lowerExpr nils (.perform effect payload position) nest =
      .ok later) :
    ∃ afterPayload, lowerOptional nils payload position.debugLine nest =
        .ok afterPayload ∧
      afterPayload.emitNamed .perform effect position.debugLine =
        .ok later := by
  exact Outcome.bind_eq_ok.1 lowered

/-! ## Sequences -/

/-- An empty block has the result of a statement. -/
theorem block {block : Block}
    (lowered : lowerBlock nils block nest = .ok later) :
    block.expressions = [] ∧
    later = nest.emitStatementNil block.position.debugLine ∨
      block.expressions ≠ [] ∧
      lowerSequence nils block.expressions nest = .ok later := by
  obtain ⟨expressions, position⟩ := block
  simp only [lowerBlock] at lowered
  split at lowered
  next empty =>
    cases lowered
    exact .inl ⟨List.isEmpty_iff.1 empty, rfl⟩
  next some => exact .inr ⟨by simpa using some, lowered⟩

/-- Only the last expression of a sequence keeps its value. -/
theorem sequence {first : Expr} {others : List Expr}
    (lowered : lowerSequence nils (first :: others) nest = .ok later) :
    ∃ afterFirst, lowerExpr nils first nest = .ok afterFirst ∧
      (others = [] ∧ later = afterFirst ∨
        others ≠ [] ∧
          lowerSequence nils others
            (afterFirst.discard nils first.position.debugLine) =
              .ok later) := by
  obtain ⟨afterFirst, firstLowered, rest⟩ := Outcome.bind_eq_ok.1 lowered
  refine ⟨afterFirst, firstLowered, ?_⟩
  split at rest
  next single =>
    cases rest
    exact .inl ⟨List.isEmpty_iff.1 single, rfl⟩
  next more => exact .inr ⟨by simpa using more, rest⟩

theorem arguments {first : Expr} {others : List Expr}
    (lowered : lowerArguments nils (first :: others) nest = .ok later) :
    ∃ afterFirst, lowerExpr nils first nest = .ok afterFirst ∧
      lowerArguments nils others afterFirst = .ok later := by
  exact Outcome.bind_eq_ok.1 lowered

theorem clauses {clause : Clause} {others : List Clause}
    {places : List Nat}
    (lowered : lowerClauses nils (clause :: others) nest = .ok
      (places, later)) :
    ∃ draft afterBody pushed index named otherPlaces,
      Draft.start (handlerName clause.effect)
        [clause.parameter] clause.position.debugLine = .ok draft ∧
      lowerBlock nils clause.body (nest.enter draft clause.position.debugLine) =
        .ok afterBody ∧
      (afterBody.leave nest clause.position.debugLine).2.emitClosure
        (afterBody.leave nest clause.position.debugLine).1
          clause.position.debugLine = .ok pushed ∧
      pushed.nameIndex clause.effect clause.position.debugLine =
        .ok (index, named) ∧
      lowerClauses nils others
          (named.emit .setHandler [index, 255, 255] clause.position.debugLine) =
        .ok (otherPlaces, later) ∧
      places = named.offset :: otherPlaces := by
  obtain ⟨effect, parameter, body, position⟩ := clause
  obtain ⟨draft, started, rest⟩ := Outcome.bind_eq_ok.1 lowered
  obtain ⟨afterBody, bodyLowered, rest⟩ := Outcome.bind_eq_ok.1 rest
  obtain ⟨pushed, emitted, rest⟩ := Outcome.bind_eq_ok.1 rest
  obtain ⟨⟨index, named⟩, indexed, rest⟩ := Outcome.bind_eq_ok.1 rest
  obtain ⟨⟨otherPlaces, afterClauses⟩, othersLowered, result⟩ :=
    Outcome.bind_eq_ok.1 rest
  cases result
  exact ⟨draft, afterBody, pushed, index, named, otherPlaces, started,
    bodyLowered, emitted, indexed, othersLowered, rfl⟩

/-! ## Programs -/

theorem program {program : Block} {template : Template}
    (compiled : program.compileWith nils = .ok template) :
    ∃ draft afterBody,
      Draft.start scriptName [] program.position.debugLine = .ok draft ∧
      lowerBlock nils program ⟨draft, [], 0⟩ = .ok afterBody ∧
      template =
        (afterBody.emitReturn program.position.debugLine).current.finish := by
  obtain ⟨draft, started, rest⟩ := Outcome.bind_eq_ok.1 compiled
  obtain ⟨afterBody, bodyLowered, result⟩ := Outcome.bind_eq_ok.1 rest
  cases result
  exact ⟨draft, afterBody, started, bodyLowered, rfl⟩

end Lowered

end EffectScript
