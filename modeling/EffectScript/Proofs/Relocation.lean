import EffectScript.Proofs.Arrangement
import EffectScript.Script

/-!
# Programs at other places

The places in a program go nowhere but into line tables and into errors. When
all places are moved, the compiler does the same with the same program: the
function it makes, and all functions inside, differ only in their line tables,
where every line is changed in the same way; and what is refused is refused for
the same cause.

Each operation on drafts and nests commutes with changing the lines. The
statement for expressions follows by induction over the syntax. Together with
what the parser does with rearranged tokens, it says that the layout of a source
text matters through calls and nothing else.
-/

namespace EffectScript

/-! ## Moving places -/

mutual

/-- The expression with all places in it moved. -/
def Expr.moved (move : Position → Position) : Expr → Expr
  | .ident name position => .ident name (move position)
  | .literal value position => .literal value (move position)
  | .binary op left right position =>
      .binary op (left.moved move) (right.moved move) (move position)
  | .unary op operand position => .unary op (operand.moved move) (move position)
  | .call callee arguments position =>
      .call (callee.moved move) (movedAll move arguments) (move position)
  | .assign target value position =>
      .assign (target.moved move) (value.moved move) (move position)
  | .define name parameters body position =>
      .define name parameters (body.moved move) (move position)
  | .block body => .block (body.moved move)
  | .branch condition consequence alternative position =>
      .branch (condition.moved move) (consequence.moved move)
        (movedOptional move alternative) (move position)
  | .loop condition body position =>
      .loop (condition.moved move) (body.moved move) (move position)
  | .attempt body clauses position =>
      .attempt (body.moved move) (movedClauses move clauses) (move position)
  | .perform effect payload position =>
      .perform effect (movedOptional move payload) (move position)

/-- The block with all places in it moved. -/
def Block.moved (move : Position → Position) : Block → Block
  | ⟨expressions, position⟩ => ⟨movedAll move expressions, move position⟩

/-- The expressions with all places in them moved. -/
def movedAll (move : Position → Position) : List Expr → List Expr
  | [] => []
  | first :: others => first.moved move :: movedAll move others

/-- The expression, if there is one, with all places in it moved. -/
def movedOptional (move : Position → Position) : Option Expr → Option Expr
  | none => none
  | some expression => some (expression.moved move)

/-- The clauses with all places in them moved. -/
def movedClauses (move : Position → Position) : List Clause → List Clause
  | [] => []
  | ⟨effect, parameter, body, position⟩ :: others =>
      ⟨effect, parameter, body.moved move, move position⟩ ::
        movedClauses move others

end

section Moved

variable (move : Position → Position)

theorem Expr.position_moved (expression : Expr) :
    (expression.moved move).position = move expression.position := by
  cases expression with
  | block body =>
      cases body
      rfl
  | _ => rfl

theorem length_movedAll (expressions : List Expr) :
    (movedAll move expressions).length = expressions.length := by
  induction expressions with
  | nil => rfl
  | cons first others inner => exact congrArg (· + 1) inner

theorem isEmpty_movedAll (expressions : List Expr) :
    (movedAll move expressions).isEmpty = expressions.isEmpty := by
  cases expressions <;> rfl

theorem length_movedClauses (clauses : List Clause) :
    (movedClauses move clauses).length = clauses.length := by
  induction clauses with
  | nil => rfl
  | cons first others inner =>
      cases first
      exact congrArg (· + 1) inner

end Moved

mutual

/-- Forgetting all places is moving them to the start. -/
theorem Expr.moved_start : (expression : Expr) →
    expression.moved (fun _ => .start) = expression.unplaced
  | .ident _ _ => rfl
  | .literal _ _ => rfl
  | .binary _ left right _ => by
      simp only [Expr.moved, Expr.unplaced, left.moved_start, right.moved_start]
  | .unary _ operand _ => by
    simp only [Expr.moved, Expr.unplaced, operand.moved_start]
  | .call callee arguments _ => by
      simp only [Expr.moved, Expr.unplaced, callee.moved_start,
        movedAll_start arguments]
  | .assign target value _ => by
      simp only [Expr.moved, Expr.unplaced, target.moved_start,
        value.moved_start]
  | .define _ _ body _ => by
    simp only [Expr.moved, Expr.unplaced, body.moved_start]
  | .block body => by simp only [Expr.moved, Expr.unplaced, body.moved_start]
  | .branch condition consequence alternative _ => by
      simp only [Expr.moved, Expr.unplaced, condition.moved_start,
        consequence.moved_start, movedOptional_start alternative]
  | .loop condition body _ => by
      simp only [Expr.moved, Expr.unplaced, condition.moved_start,
        body.moved_start]
  | .attempt body clauses _ => by
      simp only [Expr.moved, Expr.unplaced, body.moved_start,
        movedClauses_start clauses]
  | .perform _ payload _ => by
    simp only [Expr.moved, Expr.unplaced, movedOptional_start payload]

theorem Block.moved_start :
    (block : Block) → block.moved (fun _ => .start) = block.unplaced
  | ⟨expressions, _⟩ => by
    simp only [Block.moved, Block.unplaced, movedAll_start expressions]

theorem movedAll_start : (expressions : List Expr) →
    movedAll (fun _ => .start) expressions = unplacedAll expressions
  | [] => rfl
  | first :: others => by
    simp only [movedAll, unplacedAll, first.moved_start, movedAll_start others]

theorem movedOptional_start : (expression : Option Expr) →
    movedOptional (fun _ => .start) expression = unplacedOptional expression
  | none => rfl
  | some expression => by
    simp only [movedOptional, unplacedOptional, expression.moved_start]

theorem movedClauses_start : (clauses : List Clause) →
    movedClauses (fun _ => .start) clauses = unplacedClauses clauses
  | [] => rfl
  | ⟨_, _, body, _⟩ :: others => by
      simp only [movedClauses, unplacedClauses, body.moved_start,
        movedClauses_start others]

end

/-! ## Changing lines -/

mutual

/-- The constant with all lines in the line tables of its functions changed. -/
def Value.relined (change : UInt32 → UInt32) : Value → Value
  | .function identity template => .function identity (template.relined change)
  | other => other
termination_by structural value => value

/-- The function with all lines in its line table changed, and so the functions
in its constant pool. -/
def Template.relined (change : UInt32 → UInt32) : Template → Template
  | ⟨name, arity, locals, code, constants, names, debug, capturesOuter,
        capturesInner, heapSlots⟩ =>
      ⟨name, arity, locals, code, valuesRelined change constants, names,
        { debug with lines := debug.lines.map change }, capturesOuter,
        capturesInner, heapSlots⟩
termination_by structural template => template

def valuesRelined (change : UInt32 → UInt32) : List Value → List Value
  | [] => []
  | value :: values => value.relined change :: valuesRelined change values
termination_by structural values => values

end

/-- The error with its line changed. -/
def CompileError.relined (change : UInt32 → UInt32) :
    CompileError → CompileError
  | .floatLiteral line => .floatLiteral (change line)
  | .assignmentTo kindName line => .assignmentTo kindName (change line)
  | .tooMany resource line => .tooMany resource (change line)
  | .unresolved name line => .unresolved name (change line)

/-- The draft with all lines in its line table and in its constants changed. -/
def Draft.relined (change : UInt32 → UInt32) (draft : Draft) : Draft :=
  { draft with
    debug := { draft.debug with lines := draft.debug.lines.map change }
    constants := draft.constants.map (Value.relined change) }

/-- The nest with the lines in all of its drafts changed. -/
def Nest.relined (change : UInt32 → UInt32) (nest : Nest) : Nest :=
  { nest with
    current := nest.current.relined change
    enclosing := nest.enclosing.map (Draft.relined change) }

theorem valuesRelined_eq_map (change : UInt32 → UInt32) (values : List Value) :
    valuesRelined change values = values.map (Value.relined change) := by
  induction values with
  | nil => rfl
  | cons value values inner => rw [valuesRelined, inner, List.map_cons]

namespace Outcome

variable {α β γ δ : Type} {change : UInt32 → UInt32} {early : α → β}
    {late : γ → δ}

/-- What the compiler gives when all lines are changed. -/
def restated (change : UInt32 → UInt32) (result : α → β) :
    Except CompileError α → Except CompileError β
  | .ok value => .ok (result value)
  | .error error => .error (error.relined change)

/-- A sequence commutes with changing the lines when both of its parts do. -/
theorem restated_bind {first : Except CompileError α}
    {changed : Except CompileError β} {second : α → Except CompileError γ}
    {other : β → Except CompileError δ}
    (firstChanges : changed = restated change early first)
    (secondChanges : ∀ value, other (early value) = restated change late
      (second value)) :
    changed >>= other = restated change late (first >>= second) := by
  rw [firstChanges]
  cases first with
  | ok value => exact secondChanges value
  | error error => rfl

theorem restated_ite {condition : Prop}
    [Decidable condition]
    {first second : Except CompileError α}
    {other another : Except CompileError β}
    (firstChanges : other = restated change early first)
    (secondChanges : another = restated change early second) :
    (if condition then other else another) =
      restated change early (if condition then first else second) := by
  split
  · exact firstChanges
  · exact secondChanges

end Outcome

open Outcome (restated restated_bind restated_ite)

/-- A result of the compiler together with a nest or a draft, of which only the
latter has lines. -/
def beside {α β : Type} (change : α → α) (pair : β × α) : β × α :=
  (pair.1, change pair.2)

/-! ## Drafts -/

namespace Draft

variable (change : UInt32 → UInt32) (draft : Draft)

theorem declare_relined (name : String) (line : UInt32) :
    (draft.relined change).declare name (change line) =
      restated change (beside (Draft.relined change))
        (draft.declare name line) := restated_ite rfl rfl

theorem declareAll_relined (line : UInt32) (names : List String) :
    (draft.relined change).declareAll (change line) names =
      restated change (Draft.relined change) (draft.declareAll line names) := by
  induction names generalizing draft with
  | nil => rfl
  | cons name names inner =>
      exact restated_bind (draft.declare_relined change name line)
        fun declared => inner declared.2

theorem start_relined
    (name : String) (parameters : List String) (line : UInt32) :
    Draft.start name parameters (change line) =
      restated change (Draft.relined change)
        (Draft.start name parameters line) := by
  have declared := declareAll_relined
    change { name := name, arity := parameters.length } line
    (name :: parameters)
  rwa [show Draft.relined change { name := name, arity := parameters.length } =
    { name := name, arity := parameters.length } by simp [Draft.relined]]
      at declared

theorem declareCapture_relined
    (name : String) (outerSlot : UInt8) (line : UInt32) :
    (draft.relined change).declareCapture name outerSlot (change line) =
      restated change (beside (Draft.relined change))
        (draft.declareCapture name outerSlot line) :=
  restated_bind (draft.declare_relined change name line) fun _ => rfl

theorem promote_relined (slot : UInt8) :
    (draft.relined change).promote slot =
      (draft.promote slot).relined change := by
  have sameBoxes : (draft.relined change).isHeap slot = draft.isHeap slot := rfl
  by_cases held : draft.isHeap slot = true
  · rw [promote, promote, sameBoxes, if_pos held, if_pos held]
  · rw [promote, promote, sameBoxes, if_neg held, if_neg held]
    rfl

theorem emit_relined (opcode : Opcode) (operands : List UInt8) (line : UInt32) :
    (draft.relined change).emit opcode operands (change line) =
      (draft.emit opcode operands line).relined change := by
  simp [emit, Draft.relined, DebugTables.addLine]

theorem emitStatementNil_relined (line : UInt32) :
    (draft.relined change).emitStatementNil (change line) =
      (draft.emitStatementNil line).relined change := by
  unfold emitStatementNil
  rw [emit_relined]
  rfl

theorem discard_relined (nils : StatementNils) (line : UInt32) :
    (draft.relined change).discard nils (change line) =
      (draft.discard nils line).relined change := by
  unfold discard
  rw [emit_relined, show (draft.relined change).removable =
    draft.removable from rfl,
    show (draft.relined change).code = draft.code from rfl]
  split
  next offset _ =>
    by_cases last : offset + 1 = draft.code.size
    · simp [Draft.relined, last]
    · rw [if_neg last, if_neg last]
  next => rfl

theorem patchTo_relined (origin : Nat) (line : UInt32) :
    (draft.relined change).patchTo origin (change line) =
      restated change (Draft.relined change) (draft.patchTo origin line) :=
  restated_ite rfl rfl

theorem emitLoop_relined (destination : Nat) (line : UInt32) :
    (draft.relined change).emitLoop destination (change line) =
      restated change (Draft.relined change)
        (draft.emitLoop destination line) :=
  restated_ite (congrArg Except.ok (draft.emit_relined change .loop _ line)) rfl

theorem addComment_relined (text : String) (line : UInt32) :
    (draft.relined change).addComment text (change line) =
      (draft.addComment text line).relined change := by
  unfold addComment
  rw [emit_relined]
  rfl

theorem lastLine_relined (line : UInt32) :
    (draft.relined change).lastLine (change line) =
      change (draft.lastLine line) := by
  unfold lastLine
  simp only [Draft.relined, Array.back?_map]
  cases draft.debug.lines.back? <;> rfl

/-- Scalars have no lines. -/
theorem scalars_relined (value other : Value) :
    ((value.relined change).isScalar && (other.relined change).isScalar &&
      (other.relined change).eq (value.relined change)) =
    (value.isScalar && other.isScalar && other.eq value) := by
  cases value <;> cases other <;> rfl

theorem addConstant_relined (value : Value) (line : UInt32) :
    (draft.relined change).addConstant (value.relined change) (change line) =
      restated change (beside (Draft.relined change))
        (draft.addConstant value line) := by
  have found : (draft.relined change).constants.findIdx? (fun other =>
      (value.relined change).isScalar && other.isScalar &&
        other.eq (value.relined change)) =
      draft.constants.findIdx? fun other => value.isScalar && other.isScalar &&
        other.eq value := by
    simp only [Draft.relined, List.findIdx?_map]
    exact congrArg (List.findIdx? · draft.constants)
      (funext (scalars_relined change value))
  have sized : (draft.relined change).constants.length =
      draft.constants.length := by
    simp [Draft.relined]
  unfold addConstant
  rw [found, sized]
  split
  · rfl
  · refine restated_ite ?_ rfl
    simp [restated, beside, Draft.relined]

theorem nameIndex_relined (name : String) (line : UInt32) :
    (draft.relined change).nameIndex name (change line) =
      restated change (beside (Draft.relined change))
        (draft.nameIndex name line) := by
  have sameNames : (draft.relined change).names = draft.names := rfl
  have sameIndices : (draft.relined change).nameIndices =
      draft.nameIndices := rfl
  unfold nameIndex
  rw [sameNames, sameIndices]
  split
  · rfl
  · exact restated_ite rfl rfl

theorem finish_relined :
    (draft.relined change).finish = draft.finish.relined change := by
  simp [finish, Draft.relined, Template.relined, valuesRelined_eq_map, slots]

end Draft

/-! ## Nests -/

namespace Nest

variable (change : UInt32 → UInt32) (nest : Nest)

/-- A slot that may have been found, with the drafts of a nest. -/
def resolvedRelined (resolved : Option UInt8 × Draft × List Draft) :
    Option UInt8 × Draft × List Draft :=
  (resolved.1, resolved.2.1.relined change,
    resolved.2.2.map (Draft.relined change))

theorem resolveFrom_relined
    (name : String) (line : UInt32) (current : Draft) (enclosing : List Draft) :
    resolveFrom name (change line) (current.relined change)
        (enclosing.map (Draft.relined change)) =
      restated change (resolvedRelined change)
        (resolveFrom name line current enclosing) := by
  induction enclosing generalizing current with
  | nil => rfl
  | cons outer beyond inner =>
      have sameSlot : (current.relined change).slot? name =
          current.slot? name := rfl
      simp only [resolveFrom, List.map_cons, sameSlot, List.isEmpty_map]
      split
      · rfl
      · split
        · rfl
        · refine restated_bind (inner outer)
            fun ⟨found, outerAfter, beyondAfter⟩ => ?_
          cases found with
          | none => rfl
          | some outerSlot =>
              refine restated_bind
                (current.declareCapture_relined change name outerSlot line)
                fun captured => ?_
              simp only [resolvedRelined, beside, Draft.promote_relined]
              rfl

theorem resolve_relined (name : String) (line : UInt32) :
    (nest.relined change).resolve name (change line) =
      restated change (beside (Nest.relined change)) (nest.resolve name line) :=
  restated_bind
    (resolveFrom_relined change name line nest.current nest.enclosing)
      fun _ => rfl

theorem emit_relined (opcode : Opcode) (operands : List UInt8) (line : UInt32) :
    (nest.relined change).emit opcode operands (change line) =
      (nest.emit opcode operands line).relined change := by
  simp only [emit, Nest.relined, Draft.emit_relined]

theorem emitStatementNil_relined (line : UInt32) :
    (nest.relined change).emitStatementNil (change line) =
      (nest.emitStatementNil line).relined change := by
  simp only [emitStatementNil, Nest.relined, Draft.emitStatementNil_relined]

theorem discard_relined (nils : StatementNils) (line : UInt32) :
    (nest.relined change).discard nils (change line) =
      (nest.discard nils line).relined change := by
  simp only [discard, Nest.relined, Draft.discard_relined]

theorem offset_relined : (nest.relined change).offset = nest.offset := rfl

theorem emitJump_relined (opcode : Opcode) (line : UInt32) :
    ({ nest.relined change with
      current := (nest.relined change).current.emitJump opcode (change line) } :
        Nest) =
      ({ nest with current := nest.current.emitJump opcode line } :
        Nest).relined change :=
  nest.emit_relined change opcode [255, 255] line

theorem emitSetHandler_relined (effect : UInt8) (line : UInt32) :
    ({ nest.relined change with
      current := (nest.relined change).current.emitSetHandler effect
        (change line) } : Nest) =
      ({ nest with current := nest.current.emitSetHandler effect line } :
        Nest).relined change :=
  nest.emit_relined change .setHandler [effect, 255, 255] line

theorem patchJump_relined (site : Nat) (line : UInt32) :
    (nest.relined change).patchJump site (change line) =
      restated change (Nest.relined change) (nest.patchJump site line) :=
  restated_bind (nest.current.patchTo_relined change (site + 3) line)
    fun _ => rfl

theorem patchHandlers_relined (line : UInt32) (sites : List Nat) :
    (nest.relined change).patchHandlers (change line) sites =
      restated change (Nest.relined change)
        (nest.patchHandlers line sites) := by
  induction sites generalizing nest with
  | nil => rfl
  | cons site sites inner =>
      exact restated_bind (nest.current.patchTo_relined change (site + 4) line)
        fun patched => inner { nest with current := patched }

theorem nameIndex_relined (name : String) (line : UInt32) :
    (nest.relined change).nameIndex name (change line) =
      restated change (beside (Nest.relined change))
        (nest.nameIndex name line) :=
  restated_bind (nest.current.nameIndex_relined change name line) fun _ => rfl

theorem emitNamed_relined (opcode : Opcode) (name : String) (line : UInt32) :
    (nest.relined change).emitNamed opcode name (change line) =
      restated change (Nest.relined change) (nest.emitNamed opcode name line) :=
  restated_bind (nest.nameIndex_relined change name line) fun named =>
    congrArg Except.ok (named.2.emit_relined change opcode [named.1] line)

theorem emitConstant_relined (value : Value) (line : UInt32) :
    (nest.relined change).emitConstant (value.relined change) (change line) =
      restated change (Nest.relined change) (nest.emitConstant value line) :=
  restated_bind (nest.current.addConstant_relined change value line)
      fun pooled =>
    congrArg Except.ok
      (({ nest with current := pooled.2 } : Nest).emit_relined change .loadConst
      [pooled.1] line)

theorem emitClosure_relined (template : Template) (line : UInt32) :
    (nest.relined change).emitClosure (template.relined change) (change line) =
      restated change (Nest.relined change) (nest.emitClosure template line) :=
  restated_bind
    (nest.current.addConstant_relined
      change (.function nest.finished template) line)
    fun pooled => congrArg Except.ok
      (({ nest with current := pooled.2, finished := nest.finished + 1 } :
        Nest).emit_relined change
        .makeClosure [pooled.1] line)

theorem loadVariable_relined (name : String) (line : UInt32) :
    (nest.relined change).loadVariable name (change line) =
      restated change (Nest.relined change) (nest.loadVariable name line) := by
  unfold loadVariable
  split
  · rfl
  · refine restated_bind (nest.resolve_relined change name line)
      fun ⟨found, resolved⟩ => ?_
    cases found with
    | none => exact resolved.emitNamed_relined change .loadGlobal name line
    | some slot =>
        exact congrArg Except.ok (resolved.emit_relined change _ [slot] line)

theorem storeTarget_relined (name : String) (line : UInt32) :
    (nest.relined change).storeTarget name (change line) =
      restated change (beside (Nest.relined change))
        (nest.storeTarget name line) := by
  refine restated_bind (nest.resolve_relined change name line)
    fun ⟨found, resolved⟩ => ?_
  cases found with
  | some slot => rfl
  | none =>
      have sameDepth : (resolved.relined change).enclosing.isEmpty =
          resolved.enclosing.isEmpty := List.isEmpty_map
      simp only [beside, sameDepth]
      split
      · exact restated_bind (resolved.nameIndex_relined change name line)
          fun _ => rfl
      · exact restated_bind (resolved.current.declare_relined change name line)
          fun _ => rfl

theorem emitStore_relined (target : StoreTarget) (line : UInt32) :
    (nest.relined change).emitStore target (change line) =
      (nest.emitStore target line).relined change := by
  cases target with
  | slot slot => exact nest.emit_relined change _ [slot] line
  | global index => exact nest.emit_relined change .storeGlobal [index] line

theorem enter_relined (draft : Draft) (line : UInt32) :
    (nest.relined change).enter (draft.relined change) (change line) =
      (nest.enter draft line).relined change := by
  have sameName : (draft.relined change).name = draft.name := rfl
  simp only [enter, Nest.relined, sameName, Draft.addComment_relined,
    List.map_cons]

theorem emitReturn_relined (line : UInt32) :
    (nest.relined change).emitReturn (change line) =
      (nest.emitReturn line).relined change := by
  unfold emitReturn
  rw [show (nest.relined change).current = nest.current.relined change from rfl,
    Draft.lastLine_relined, emit_relined]

theorem leave_relined (inner outer : Nest) (line : UInt32) :
    (inner.relined change).leave (outer.relined change) (change line) =
      ((inner.leave outer line).1.relined change,
        (inner.leave outer line).2.relined change) := by
  unfold leave
  simp only [emitReturn_relined]
  simp only [Nest.relined, Draft.finish_relined, List.map_tail,
    List.headD_eq_head?_getD, List.head?_map]
  cases (inner.emitReturn line).enclosing.head? <;> rfl

theorem literal_relined (value : Literal) (line : UInt32) :
    (nest.relined change).literal value (change line) =
      restated change (Nest.relined change) (nest.literal value line) := by
  have constant (value : Value) (scalar : value.relined change = value) :
      (nest.relined change).emitConstant value (change line) =
        restated change (Nest.relined change)
          (nest.emitConstant value line) := by
    have emitted := nest.emitConstant_relined change value line
    rwa [scalar] at emitted
  cases value with
  | nil => exact congrArg Except.ok (nest.emit_relined change .pushNil [] line)
  | bool truth =>
      cases truth with
      | true =>
          exact congrArg Except.ok (nest.emit_relined change .pushTrue [] line)
      | false =>
          exact congrArg Except.ok (nest.emit_relined change .pushFalse [] line)
  | int number => exact constant (.int number) rfl
  | str text => exact constant (.str text) rfl
  | float number => rfl

end Nest

/-! ## Programs -/

section Lowering

variable {move : Position → Position} {change : UInt32 → UInt32}

mutual

/-- An expression at other places becomes the same code with other lines. -/
theorem lowerExpr_moved
    (together : ∀ position, (move position).debugLine =
      change position.debugLine)
    (nils : StatementNils) (expression : Expr) (nest : Nest) :
    lowerExpr nils (expression.moved move) (nest.relined change) =
      restated change (Nest.relined change)
        (lowerExpr nils expression nest) := by
  cases expression with
  | ident name position =>
      simp only [Expr.moved, lowerExpr, together]
      exact nest.loadVariable_relined change name position.debugLine
  | literal value position =>
      simp only [Expr.moved, lowerExpr, together]
      exact nest.literal_relined change value position.debugLine
  | binary op left right position =>
      simp only [Expr.moved, lowerExpr, together]
      refine restated_bind (lowerExpr_moved together nils left nest)
        fun afterLeft => ?_
      refine restated_bind (lowerExpr_moved together nils right afterLeft)
        fun afterRight => ?_
      refine congrArg Except.ok ?_
      rw [Nest.emit_relined, Nest.emit_relined]
      split <;> rfl
  | unary op operand position =>
      simp only [Expr.moved, lowerExpr, together]
      refine restated_bind (lowerExpr_moved together nils operand nest)
        fun afterOperand => ?_
      exact congrArg Except.ok
        (afterOperand.emit_relined change op.opcode [] position.debugLine)
  | call callee arguments position =>
      simp only [Expr.moved, lowerExpr, together, length_movedAll]
      refine restated_bind (lowerExpr_moved together nils callee nest)
        fun afterCallee => ?_
      refine restated_bind
        (lowerArguments_moved together nils arguments afterCallee)
        fun afterArguments => ?_
      exact restated_ite
        (congrArg Except.ok
          (afterArguments.emit_relined change .call _ position.debugLine))
        rfl
  | assign target value position =>
      cases target with
      | ident name place =>
          simp only [Expr.moved, lowerExpr, together]
          refine restated_bind (lowerExpr_moved together nils value nest)
            fun afterValue => ?_
          refine restated_bind
            (afterValue.storeTarget_relined change name position.debugLine)
            fun ⟨target, targeted⟩ => ?_
          refine congrArg Except.ok ?_
          simp only [beside, Nest.emitStore_relined,
            Nest.emitStatementNil_relined]
      | _ =>
          -- Only a name can be assigned to, wherever the target stands.
          simp only [Expr.moved, lowerExpr, together]
          rfl
  | define name parameters body position =>
      simp only [Expr.moved, lowerExpr, together]
      refine restated_bind
        (nest.storeTarget_relined change name position.debugLine)
        fun ⟨target, targeted⟩ => ?_
      refine restated_bind
        (Draft.start_relined change name parameters position.debugLine)
          fun draft => ?_
      simp only [beside, Nest.enter_relined]
      refine restated_bind
        (lowerBlock_moved together nils body
          (targeted.enter draft position.debugLine))
        fun afterBody => ?_
      rw [Nest.leave_relined]
      refine restated_bind
        (Nest.emitClosure_relined
          change (afterBody.leave targeted position.debugLine).2
        (afterBody.leave targeted position.debugLine).1 position.debugLine)
          fun pushed => ?_
      refine congrArg Except.ok ?_
      simp only [Nest.emitStore_relined, Nest.emitStatementNil_relined]
  | block body =>
      simp only [Expr.moved, lowerExpr]
      exact lowerBlock_moved together nils body nest
  | branch condition consequence alternative position =>
      simp only [Expr.moved, lowerExpr, together]
      refine restated_bind (lowerExpr_moved together nils condition nest)
        fun afterCondition => ?_
      rw [Nest.offset_relined, Nest.emitJump_relined]
      refine restated_bind (lowerBlock_moved together nils consequence _)
        fun afterConsequence => ?_
      rw [Nest.offset_relined, Nest.emitJump_relined]
      refine restated_bind
        (Nest.patchJump_relined change _ afterCondition.offset
          position.debugLine)
        fun elsePatched => ?_
      refine restated_bind
        (lowerOptional_moved together nils alternative position.debugLine
          elsePatched)
        fun afterAlternative => ?_
      exact afterAlternative.patchJump_relined change afterConsequence.offset
        position.debugLine
  | loop condition body position =>
      simp only [Expr.moved, lowerExpr, together]
      refine restated_bind
        (lowerExpr_moved together nils condition
          { nest with current := nest.current.label })
        fun afterCondition => ?_
      rw [Nest.offset_relined, Nest.emitJump_relined]
      refine restated_bind (lowerBlock_moved together nils body _)
        fun afterBody => ?_
      rw [Nest.discard_relined]
      refine restated_bind
        ((afterBody.discard nils position.debugLine).current.emitLoop_relined
          change
        nest.offset position.debugLine) fun looped => ?_
      refine restated_bind (Nest.patchJump_relined change
        { afterBody.discard nils position.debugLine with current := looped }
        afterCondition.offset position.debugLine) fun exitPatched => ?_
      exact congrArg Except.ok
        (exitPatched.emitStatementNil_relined change position.debugLine)
  | attempt body clauses position =>
      simp only [Expr.moved, lowerExpr, together, length_movedClauses]
      refine restated_ite ?_ rfl
      refine restated_bind (lowerClauses_moved together nils clauses nest)
        fun ⟨sites, registered⟩ => ?_
      refine restated_bind (lowerBlock_moved together nils body registered)
        fun afterBody => ?_
      rw [Nest.emit_relined]
      exact Nest.patchHandlers_relined change _ position.debugLine sites
  | perform effect payload position =>
      simp only [Expr.moved, lowerExpr, together]
      refine restated_bind
        (lowerOptional_moved together nils payload position.debugLine nest)
        fun afterPayload => ?_
      exact afterPayload.emitNamed_relined change .perform effect
        position.debugLine

theorem lowerOptional_moved
    (together : ∀ position, (move position).debugLine =
      change position.debugLine)
    (nils : StatementNils) (expression : Option Expr) (line : UInt32)
    (nest : Nest) :
    lowerOptional nils (movedOptional move expression) (change line)
        (nest.relined change) =
      restated change (Nest.relined change)
        (lowerOptional nils expression line nest) := by
  cases expression with
  | none => exact congrArg Except.ok (nest.emit_relined change .pushNil [] line)
  | some expression =>
      simp only [movedOptional, lowerOptional]
      exact lowerExpr_moved together nils expression nest

theorem lowerArguments_moved
    (together : ∀ position, (move position).debugLine =
      change position.debugLine)
    (nils : StatementNils) (arguments : List Expr) (nest : Nest) :
    lowerArguments nils (movedAll move arguments) (nest.relined change) =
      restated change (Nest.relined change)
        (lowerArguments nils arguments nest) := by
  cases arguments with
  | nil => rfl
  | cons first others =>
      simp only [movedAll, lowerArguments]
      exact restated_bind (lowerExpr_moved together nils first nest)
        (lowerArguments_moved together nils others)

theorem lowerBlock_moved
    (together : ∀ position, (move position).debugLine =
      change position.debugLine)
    (nils : StatementNils) (block : Block) (nest : Nest) :
    lowerBlock nils (block.moved move) (nest.relined change) =
      restated change (Nest.relined change) (lowerBlock nils block nest) := by
  obtain ⟨expressions, position⟩ := block
  simp only [Block.moved, lowerBlock, together, isEmpty_movedAll]
  refine restated_ite ?_ (lowerSequence_moved together nils expressions nest)
  exact congrArg Except.ok
    (nest.emitStatementNil_relined change position.debugLine)

theorem lowerSequence_moved
    (together : ∀ position, (move position).debugLine =
      change position.debugLine)
    (nils : StatementNils) (expressions : List Expr) (nest : Nest) :
    lowerSequence nils (movedAll move expressions) (nest.relined change) =
      restated change (Nest.relined change)
        (lowerSequence nils expressions nest) := by
  cases expressions with
  | nil => rfl
  | cons first others =>
      simp only [movedAll, lowerSequence, isEmpty_movedAll,
        Expr.position_moved, together]
      refine restated_bind (lowerExpr_moved together nils first nest)
        fun afterFirst => ?_
      refine restated_ite rfl ?_
      rw [Nest.discard_relined]
      exact lowerSequence_moved together nils others
        (afterFirst.discard nils first.position.debugLine)

theorem lowerClauses_moved
    (together : ∀ position, (move position).debugLine =
      change position.debugLine)
    (nils : StatementNils) (clauses : List Clause) (nest : Nest) :
    lowerClauses nils (movedClauses move clauses) (nest.relined change) =
      restated change (beside (Nest.relined change))
        (lowerClauses nils clauses nest) := by
  cases clauses with
  | nil => rfl
  | cons clause others =>
      obtain ⟨effect, parameter, body, position⟩ := clause
      simp only [movedClauses, lowerClauses, together]
      refine restated_bind
        (Draft.start_relined change (handlerName effect)
          [parameter] position.debugLine)
        fun draft => ?_
      rw [Nest.enter_relined]
      refine restated_bind
        (lowerBlock_moved together nils body
          (nest.enter draft position.debugLine))
        fun afterBody => ?_
      rw [Nest.leave_relined]
      refine restated_bind
        (Nest.emitClosure_relined
          change (afterBody.leave nest position.debugLine).2
        (afterBody.leave nest position.debugLine).1 position.debugLine)
          fun pushed => ?_
      refine restated_bind
        (pushed.nameIndex_relined change effect position.debugLine)
        fun ⟨index, named⟩ => ?_
      simp only [beside, Nest.emitSetHandler_relined, Nest.offset_relined]
      refine restated_bind (lowerClauses_moved together nils others _)
        fun ⟨sites, afterClauses⟩ => ?_
      rfl

end

/-- A program at other places becomes the same function with other lines, or is
refused for the same cause. -/
theorem Block.compileWith_moved
    (together : ∀ position, (move position).debugLine =
      change position.debugLine)
    (nils : StatementNils) (program : Block) :
    (program.moved move).compileWith nils =
      restated change (Template.relined change) (program.compileWith nils) := by
  have samePlace : (program.moved move).position = move program.position := by
    cases program
    rfl
  unfold Block.compileWith
  simp only [samePlace, together]
  refine restated_bind
    (Draft.start_relined change scriptName [] program.position.debugLine)
    fun draft => ?_
  refine restated_bind (lowerBlock_moved together nils program ⟨draft, [], 0⟩)
    fun lowered => ?_
  rw [Nest.emitReturn_relined]
  exact congrArg Except.ok (Draft.finish_relined change _)

end Lowering

/-! ## Source texts -/

/-- The functions are identical except for the lines in their line tables, and
so are the functions in their constant pools. -/
def Template.SameButLines (first second : Template) : Prop :=
  first.relined (fun _ => 1) = second.relined fun _ => 1

/-- The errors have the same cause, perhaps at different lines. -/
def CompileError.SameButLine (first second : CompileError) : Prop :=
  first.relined (fun _ => 1) = second.relined fun _ => 1

/-- Programs that differ in places only are compiled alike. -/
theorem Block.compile_of_unplaced {program other : Block}
    (same : program.unplaced = other.unplaced) :
    restated (fun _ => 1) (Template.relined fun _ => 1) program.compile =
      restated (fun _ => 1) (Template.relined fun _ => 1) other.compile := by
  have compiled (block : Block) : block.unplaced.compile =
      restated (fun _ => 1) (Template.relined fun _ => 1) block.compile := by
    rw [← block.moved_start]
    exact Block.compileWith_moved (fun _ => rfl) .elided block
  rw [← compiled, ← compiled, same]

/-- Layout matters only through calls. Two source texts with the same tokens, in
which the same parentheses stand on the line of the token before them, are
compiled to functions that are identical except for the line tables, or are
refused for the same problem, perhaps at different places. -/
theorem compileSource_of_rearranged
    {first second file : String} {tokens others : List Token}
    (scanned : Token.scan first = .ok tokens)
    (otherScanned : Token.scan second = .ok others)
    (kinds : tokens.map Token.kind = others.map Token.kind)
    (calls : ∀ index, (tokens[index + 1]?).map Token.kind =
      some (.mark .leftParen) →
      (StaysOnLine tokens index ↔ StaysOnLine others index)) :
    (∃ script other, compileSource first file = .ok script ∧
        compileSource second file = .ok other ∧
        script.SameButLines other) ∨
      (∃ problem place otherPlace,
        compileSource first file = .error (.source ⟨problem, place⟩ file) ∧
        compileSource second file = .error
          (.source ⟨problem, otherPlace⟩ file)) ∨
      ∃ error otherError, compileSource first file = .error (.compile error) ∧
        compileSource second file = .error (.compile otherError) ∧
        error.SameButLine otherError := by
  have parsed : parseSource first = Block.parse tokens := by
    rw [parseSource, scanned]; rfl
  have otherParsed : parseSource second = Block.parse others := by
    rw [parseSource, otherScanned]
    rfl
  unfold compileSource
  rw [parsed, otherParsed]
  rcases (Rearranged.of_indices kinds calls).parse with
    ⟨program, other, isProgram, isOther, same⟩ | ⟨error, other, fails,
      otherFails, same⟩
  · rw [isProgram, isOther]
    have alike := Block.compile_of_unplaced same
    match compiled : program.compile, otherCompiled : other.compile with
    | .ok script, .ok otherScript =>
        rw [compiled, otherCompiled] at alike
        exact .inl ⟨script, otherScript, by simp only [compiled], by
          simp only [otherCompiled],
          Except.ok.inj alike⟩
    | .error error, .error otherError =>
        rw [compiled, otherCompiled] at alike
        exact .inr
          (.inr ⟨error, otherError, by simp only [compiled], by
            simp only [otherCompiled],
          Except.error.inj alike⟩)
    | .ok _, .error _ =>
        rw [compiled, otherCompiled] at alike
        cases alike
    | .error _, .ok _ =>
        rw [compiled, otherCompiled] at alike
        cases alike
  · rw [fails, otherFails]
    obtain ⟨problem, place⟩ := error
    obtain ⟨_, otherPlace⟩ := other
    obtain rfl : problem = _ := same
    exact .inr (.inl ⟨problem, place, otherPlace, rfl, rfl⟩)

/-- The places of the tokens of `fn f(n) { n } f(1)`, and of `(2)` on the next
line. -/
def denseTokens : List Token :=
  [⟨.keyword .define, ⟨1, 1⟩⟩, ⟨.ident "f", ⟨1, 4⟩⟩, ⟨.mark .leftParen, ⟨1, 5⟩⟩,
    ⟨.ident "n", ⟨1, 6⟩⟩, ⟨.mark .rightParen, ⟨1, 7⟩⟩,
    ⟨.mark .leftBrace, ⟨1, 9⟩⟩, ⟨.ident "n", ⟨1, 11⟩⟩,
    ⟨.mark .rightBrace, ⟨1, 13⟩⟩, ⟨.ident "f", ⟨1, 15⟩⟩,
    ⟨.mark .leftParen, ⟨1, 16⟩⟩, ⟨.int 1, ⟨1, 17⟩⟩,
    ⟨.mark .rightParen, ⟨1, 18⟩⟩, ⟨.mark .leftParen, ⟨2, 1⟩⟩, ⟨.int 2, ⟨2, 2⟩⟩,
    ⟨.mark .rightParen, ⟨2, 3⟩⟩, ⟨.endOfInput, ⟨2, 4⟩⟩]

/-- The same tokens spread over nine lines, with the same parentheses behind a
token on its line. -/
def spreadTokens : List Token :=
  [⟨.keyword .define, ⟨1, 1⟩⟩, ⟨.ident "f", ⟨2, 1⟩⟩, ⟨.mark .leftParen, ⟨2, 2⟩⟩,
    ⟨.ident "n", ⟨2, 3⟩⟩, ⟨.mark .rightParen, ⟨2, 4⟩⟩,
    ⟨.mark .leftBrace, ⟨3, 1⟩⟩, ⟨.ident "n", ⟨3, 3⟩⟩,
    ⟨.mark .rightBrace, ⟨3, 5⟩⟩, ⟨.ident "f", ⟨5, 1⟩⟩,
    ⟨.mark .leftParen, ⟨5, 2⟩⟩, ⟨.int 1, ⟨6, 1⟩⟩, ⟨.mark .rightParen, ⟨6, 2⟩⟩,
    ⟨.mark .leftParen, ⟨8, 2⟩⟩, ⟨.int 2, ⟨8, 3⟩⟩, ⟨.mark .rightParen, ⟨9, 1⟩⟩,
    ⟨.endOfInput, ⟨9, 2⟩⟩]

/-- A comment, line feeds and blanks in other places make no difference but to
the line tables. -/
theorem compileSource_of_spread_tokens :
    ∃ script other,
      compileSource "fn f(n) { n } f(1)\n(2)" "main" = .ok script ∧
      compileSource "fn\nf(n)\n{ n }\n\nf( // one\n1)\n\n (2\n)"
        "main" = .ok other ∧
      script.SameButLines other := by
  have scanned : Token.scan "fn f(n) { n } f(1)\n(2)" = .ok denseTokens :=
    Outcome.eq_ok_of_toOption (by decide +kernel)
  have otherScanned : Token.scan "fn\nf(n)\n{ n }\n\nf( // one\n1)\n\n (2\n)" =
      .ok spreadTokens :=
    Outcome.eq_ok_of_toOption (by decide +kernel)
  have compiles :
      (compileSource "fn f(n) { n } f(1)\n(2)" "main").toOption.isSome := by
        decide +kernel
  have inside : ∀ index < 15, (denseTokens[index + 1]?).map Token.kind =
      some (.mark .leftParen) →
      (StaysOnLine denseTokens index ↔ StaysOnLine spreadTokens index) := by
        decide
  have calls (index : Nat)
      (opens : (denseTokens[index + 1]?).map Token.kind =
        some (.mark .leftParen)) :
      StaysOnLine denseTokens index ↔ StaysOnLine spreadTokens index := by
    obtain ⟨_, found, _⟩ := Option.map_eq_some_iff.1 opens
    have bounded : index + 1 < 16 := (List.getElem?_eq_some_iff.1 found).1
    exact inside index (by omega) opens
  rcases compileSource_of_rearranged scanned otherScanned rfl calls with
    both | ⟨_, _, _, fails, _⟩ | ⟨_, _, fails, _⟩
  · exact both
  · rw [fails] at compiles
    cases compiles
  · rw [fails] at compiles
    cases compiles

end EffectScript
