import EffectScript.Proofs.Lowering

/-!
# What lowering does to drafts

Lowering touches the drafts of a nest in six ways only. It writes code, looks
names up, declares names, indexes names and constants, and finishes functions
whose bodies are lowered in the same ways. `Edits` lists them, so a property of
drafts holds wherever lowering leads as soon as each of the six keeps it.
-/

namespace EffectScript

namespace Nest

/-- The nest was changed in the ways in which lowering changes it. -/
inductive Edits : Nest → Nest → Prop
  | refl (nest : Nest) : Edits nest nest
  /-- Code is written, removed or patched. -/
  | write {nest later : Nest} {draft : Draft} (earlier : Edits nest later)
      (alike : later.current.Alike draft) :
        Edits nest { later with current := draft }
  /-- A name is looked up, and captured where that is needed. -/
  | resolve {nest later last : Nest} {name : String} {line : UInt32}
      {found : Option UInt8}
      (earlier : Edits nest later)
        (resolved : later.resolve name line = .ok (found, last)) :
      Edits nest last
  /-- A name is declared in a function other than the script. -/
  | declare {nest later : Nest} {name : String} {line : UInt32} {slot : UInt8}
      {draft : Draft}
      (earlier : Edits nest later) (inside : later.enclosing ≠ [])
      (declared : later.current.declare name line = .ok (slot, draft)) :
      Edits nest { later with current := draft }
  | nameIndex {nest later : Nest} {name : String} {line : UInt32}
      {index : UInt8} {draft : Draft}
      (earlier : Edits nest later)
      (named : later.current.nameIndex name line = .ok (index, draft)) :
      Edits nest { later with current := draft }
  | constant {nest later : Nest} {value : Value} {line : UInt32} {index : UInt8}
      {draft : Draft}
      (earlier : Edits nest later) (scalar : value.isScalar)
      (pooled : later.current.addConstant value line = .ok (index, draft)) :
      Edits nest { later with current := draft }
  /-- A function is written from its start to its end and becomes a constant. -/
  | function {nest outer body : Nest} {name : String} {parameters : List String}
      {line : UInt32}
      {started pool : Draft} {index : UInt8} {identity finished : Nat}
        (earlier : Edits nest outer)
      (starts : Draft.start name parameters line = .ok started)
      (inner : Edits (outer.enter started line) body)
      (pooled : (body.leave outer line).2.current.addConstant
        (.function identity (body.leave outer line).1) line =
          .ok (index, pool)) :
      Edits nest ⟨pool, (body.leave outer line).2.enclosing, finished⟩

namespace Edits

variable {nest later last : Nest} {line : UInt32}

theorem emit
    (edits : Edits nest later) (opcode : Opcode) (operands : List UInt8)
    (line : UInt32) :
    Edits nest (later.emit opcode operands line) :=
  edits.write (Draft.alike_emit _ _ _ _)

theorem emitStatementNil (edits : Edits nest later) (line : UInt32) :
    Edits nest (later.emitStatementNil line) :=
  edits.write ⟨rfl, rfl, rfl, rfl, rfl, rfl, rfl, rfl⟩

theorem discard
    (edits : Edits nest later) (nils : StatementNils) (line : UInt32) :
    Edits nest (later.discard nils line) := by
  have alike : later.current.Alike (later.current.discard nils line) := by
    unfold Draft.discard
    split
    · split <;> exact ⟨rfl, rfl, rfl, rfl, rfl, rfl, rfl, rfl⟩
    · exact Draft.alike_emit _ _ _ _
  exact edits.write alike

theorem label (edits : Edits nest later) :
    Edits nest { later with current := later.current.label } :=
  edits.write ⟨rfl, rfl, rfl, rfl, rfl, rfl, rfl, rfl⟩

theorem emitLoop
    (edits : Edits nest later)
    {destination : Nat} {looped : Draft}
    (returns : later.current.emitLoop destination line = .ok looped) :
    Edits nest { later with current := looped } := by
  rw [Draft.emitLoop_eq returns]
  exact edits.emit _ _ _

theorem patchJump
    (edits : Edits nest later)
    {site : Nat}
    (patched : later.patchJump site line = .ok last) :
    Edits nest last := by
  obtain ⟨draft, patch, result⟩ := Outcome.bind_eq_ok.1 patched
  cases result
  exact edits.write (Draft.alike_patchTo patch)

theorem patchHandlers
    (edits : Edits nest later)
    {sites : List Nat}
    (patched : later.patchHandlers line sites = .ok last) :
    Edits nest last := by
  induction sites generalizing later with
  | nil =>
      cases patched
      exact edits
  | cons site sites inner =>
      obtain ⟨draft, first, rest⟩ := Outcome.bind_eq_ok.1 patched
      exact inner (edits.write (Draft.alike_patchTo first)) rest

theorem named
    (edits : Edits nest later)
    {name : String} {index : UInt8}
    (indexed : later.nameIndex name line = .ok (index, last)) :
    Edits nest last := by
  obtain ⟨⟨_, draft⟩, found, result⟩ := Outcome.bind_eq_ok.1 indexed
  cases result
  exact edits.nameIndex found

theorem emitNamed
    (edits : Edits nest later)
    {opcode : Opcode} {name : String}
    (emitted : later.emitNamed opcode name line = .ok last) :
    Edits nest last := by
  obtain ⟨⟨index, indexed⟩, found, result⟩ := Outcome.bind_eq_ok.1 emitted
  cases result
  exact (edits.named found).emit _ _ _

theorem loadVariable
    (edits : Edits nest later)
    {name : String}
    (loaded : later.loadVariable name line = .ok last) :
    Edits nest last := by
  unfold Nest.loadVariable at loaded
  split at loaded
  · cases loaded
  · obtain ⟨⟨found, resolved⟩, resolves, emitted⟩ := Outcome.bind_eq_ok.1 loaded
    cases found with
    | none => exact (edits.resolve resolves).emitNamed emitted
    | some slot =>
        cases emitted
        exact (edits.resolve resolves).emit _ _ _

theorem storeTarget
    (edits : Edits nest later)
    {name : String} {target : StoreTarget}
    (targeted : later.storeTarget name line = .ok (target, last)) :
    Edits nest last := by
  obtain ⟨⟨found, resolved⟩, resolves, rest⟩ := Outcome.bind_eq_ok.1 targeted
  have looked := edits.resolve resolves
  cases found with
  | some slot =>
      cases rest
      exact looked
  | none =>
      simp only at rest
      split at rest
      · obtain ⟨⟨index, named⟩, indexed, result⟩ := Outcome.bind_eq_ok.1 rest
        cases result
        exact looked.named indexed
      next inside =>
        obtain ⟨⟨slot, draft⟩, declared, result⟩ := Outcome.bind_eq_ok.1 rest
        cases result
        exact looked.declare (by simpa using inside) declared

theorem emitStore
    (edits : Edits nest later) (target : StoreTarget) (line : UInt32) :
    Edits nest (later.emitStore target line) := by
  cases target with
  | slot slot => exact edits.emit _ _ _
  | global index => exact edits.emit _ _ _

theorem literal
    (edits : Edits nest later)
    {value : Literal}
    (pushed : later.literal value line = .ok last) :
    Edits nest last := by
  have scalar {constant : Value} (isScalar : constant.isScalar)
      (emitted : later.emitConstant constant line = .ok last) :
        Edits nest last := by
    obtain ⟨⟨index, draft⟩, pooled, result⟩ := Outcome.bind_eq_ok.1 emitted
    cases result
    exact (edits.constant isScalar pooled).emit _ _ _
  cases value with
  | nil =>
      cases pushed
      exact edits.emit _ _ _
  | bool truth =>
      cases truth <;> cases pushed
      · exact edits.emit _ _ _
      · exact edits.emit _ _ _
  | int number => exact scalar rfl pushed
  | str text => exact scalar rfl pushed
  | float number => cases pushed

theorem closure
    (edits : Edits nest later)
    {name : String} {parameters : List String} {started : Draft} {body : Nest}
    (starts : Draft.start name parameters line = .ok started)
    (inner : Edits (later.enter started line) body)
    (emitted : (body.leave later line).2.emitClosure (body.leave later line).1
      line = .ok last) :
    Edits nest last := by
  obtain ⟨⟨index, pool⟩, pooled, result⟩ := Outcome.bind_eq_ok.1 emitted
  cases result
  exact (edits.function starts inner pooled).emit _ _ _

end Edits

end Nest

open Nest

mutual

/-- Lowering an expression edits the nest. -/
theorem lowerExpr_edits {nils : StatementNils}
    (expression : Expr)
    {start nest later : Nest}
    (edits : Edits start nest)
    (lowered : lowerExpr nils expression nest = .ok later) :
    Edits start later := by
  cases expression with
  | ident name position =>
      simp only [lowerExpr] at lowered
      exact edits.loadVariable lowered
  | literal value position =>
      simp only [lowerExpr] at lowered
      exact edits.literal lowered
  | binary op left right position =>
      obtain ⟨afterLeft, afterRight, leftLowered, rightLowered, rfl⟩ :=
        Lowered.binary lowered
      have operands := lowerExpr_edits
        right (lowerExpr_edits left edits leftLowered) rightLowered
      split
      · exact (operands.emit _ _ _).emit _ _ _
      · exact operands.emit _ _ _
  | unary op operand position =>
      obtain ⟨afterOperand, operandLowered, rfl⟩ := Lowered.unary lowered
      exact (lowerExpr_edits operand edits operandLowered).emit _ _ _
  | call callee arguments position =>
      obtain ⟨afterCallee, afterArguments, calleeLowered, argumentsLowered,
          few, rfl⟩ := Lowered.call lowered
      exact (lowerArguments_edits arguments
        (lowerExpr_edits callee edits calleeLowered)
        argumentsLowered).emit _ _ _
  | assign target value position =>
      obtain ⟨name, place, afterValue, slot, targeted, rfl, valueLowered,
          found, rfl⟩ := Lowered.assign lowered
      exact
        (((lowerExpr_edits value edits valueLowered).storeTarget
          found).emitStore
        _ _).emitStatementNil _
  | define name parameters body position =>
      obtain ⟨slot, targeted, draft, afterBody, pushed, found, started,
          bodyLowered, emitted, rfl⟩ := Lowered.define lowered
      exact (((edits.storeTarget found).closure started
        (lowerBlock_edits body (.refl _) bodyLowered) emitted).emitStore
          _ _).emitStatementNil _
  | block body =>
      simp only [lowerExpr] at lowered
      exact lowerBlock_edits body edits lowered
  | branch condition consequence alternative position =>
      obtain ⟨_, _, _, _, conditionLowered, consequenceLowered, elseLands,
        alternativeLowered, endLands⟩ := Lowered.branch lowered
      have chosen := lowerBlock_edits consequence
        ((lowerExpr_edits condition edits conditionLowered).emit _ _ _)
          consequenceLowered
      exact (lowerOptional_edits alternative
        ((chosen.emit _ _ _).patchJump elseLands)
        alternativeLowered).patchJump endLands
  | loop condition body position =>
      obtain ⟨_, _, _, _, conditionLowered, bodyLowered, returns, exitLands,
        rfl⟩ := Lowered.loop lowered
      have repeated := lowerBlock_edits body
        ((lowerExpr_edits condition edits.label conditionLowered).emit _ _ _)
          bodyLowered
      exact (((repeated.discard nils _).emitLoop returns).patchJump
        exitLands).emitStatementNil _
  | attempt body clauses position =>
      obtain ⟨_, _, _, _, clausesLowered, bodyLowered, lands⟩ :=
        Lowered.attempt lowered
      exact
        ((lowerBlock_edits body
          (lowerClauses_edits clauses edits clausesLowered)
        bodyLowered).emit _ _ _).patchHandlers lands
  | perform effect payload position =>
      obtain ⟨afterPayload, payloadLowered, emitted⟩ := Lowered.perform lowered
      exact (lowerOptional_edits payload edits payloadLowered).emitNamed emitted

theorem lowerOptional_edits {nils : StatementNils}
    (expression : Option Expr)
    {line : UInt32} {start nest later : Nest}
    (edits : Edits start nest)
    (lowered : lowerOptional nils expression line nest = .ok later) :
    Edits start later := by
  cases expression with
  | some expression =>
      simp only [lowerOptional] at lowered
      exact lowerExpr_edits expression edits lowered
  | none =>
      simp only [lowerOptional] at lowered
      cases lowered
      exact edits.emit _ _ _

theorem lowerBlock_edits {nils : StatementNils}
    (block : Block)
    {start nest later : Nest}
    (edits : Edits start nest)
    (lowered : lowerBlock nils block nest = .ok later) :
    Edits start later := by
  obtain ⟨expressions, position⟩ := block
  rcases Lowered.block lowered with ⟨_, rfl⟩ | ⟨_, rest⟩
  · exact edits.emitStatementNil _
  · exact lowerSequence_edits expressions edits rest

theorem lowerSequence_edits {nils : StatementNils}
    (expressions : List Expr)
    {start nest later : Nest}
    (edits : Edits start nest)
    (lowered : lowerSequence nils expressions nest = .ok later) :
    Edits start later := by
  cases expressions with
  | nil =>
      cases lowered
      exact edits
  | cons first others =>
      obtain ⟨afterFirst, firstLowered, rest⟩ := Lowered.sequence lowered
      have firstEdits := lowerExpr_edits first edits firstLowered
      rcases rest with ⟨_, rfl⟩ | ⟨_, rest⟩
      · exact firstEdits
      · exact lowerSequence_edits others (firstEdits.discard nils _) rest

theorem lowerArguments_edits {nils : StatementNils}
    (arguments : List Expr)
    {start nest later : Nest}
    (edits : Edits start nest)
    (lowered : lowerArguments nils arguments nest = .ok later) :
    Edits start later := by
  cases arguments with
  | nil =>
      cases lowered
      exact edits
  | cons first others =>
      obtain ⟨afterFirst, firstLowered, rest⟩ := Lowered.arguments lowered
      exact lowerArguments_edits others
        (lowerExpr_edits first edits firstLowered) rest

theorem lowerClauses_edits {nils : StatementNils}
    (clauses : List Clause)
    {start nest later : Nest} {places : List Nat}
    (edits : Edits start nest)
    (lowered : lowerClauses nils clauses nest = .ok (places, later)) :
    Edits start later := by
  cases clauses with
  | nil =>
      cases lowered
      exact edits
  | cons clause others =>
      obtain ⟨effect, parameter, body, position⟩ := clause
      obtain ⟨draft, afterBody, pushed, index, named, otherPlaces, started,
        bodyLowered, emitted, indexed, othersLowered, rfl⟩ :=
          Lowered.clauses lowered
      have pushedEdits :=
        edits.closure started
          (lowerBlock_edits body (.refl _) bodyLowered) emitted
      exact lowerClauses_edits others ((pushedEdits.named indexed).emit _ _ _)
        othersLowered

end

end EffectScript
