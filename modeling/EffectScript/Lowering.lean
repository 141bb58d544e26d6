import EffectScript.Draft
import EffectScript.Expression

/-!
# From expressions to code

Every expression becomes code that leaves exactly one more value on the operand
stack. A function body becomes a template of its own in the constant pool of the
function around it.

A name is looked up in the function being written and then outward. A name found
in an enclosing function is captured: its slot there is promoted to a box, and
every function in between passes the box on. The script never provides captures;
its names are globals.
-/

namespace EffectScript

/-- The name of the top-level function. -/
def scriptName : String := "<script>"

/-- The name that can be assigned but never read. -/
def wildcard : String := "_"

/-- The function being written and those around it, the innermost one first. -/
structure Nest where
  current : Draft
  enclosing : List Draft
  /-- How many nested templates are finished; the next one is known by this
  number. -/
  finished : Nat

/-- Where an assignment writes. -/
inductive StoreTarget where
  | slot (slot : UInt8)
  | global (name : UInt8)

namespace Nest

/-- Finds the slot of a name in a function, capturing it from the functions
around where needed. -/
def resolveFrom (name : String) (line : UInt32) (current : Draft) :
    List Draft → Except CompileError (Option UInt8 × Draft × List Draft)
  | [] => .ok (current.slot? name, current, [])
  | outer :: beyond =>
      match current.slot? name with
      | some slot => .ok (some slot, current, outer :: beyond)
      | none =>
          if beyond.isEmpty then .ok (none, current, outer :: beyond)
          else do
            let (found, outerAfter, beyondAfter) ← resolveFrom name line
              outer beyond
            match found with
            | none => return (none, current, outerAfter :: beyondAfter)
            | some outerSlot =>
                let (slot, captured) ← current.declareCapture name
                  outerSlot line
                return (some slot, captured, outerAfter.promote outerSlot ::
                  beyondAfter)

/-- Finds the slot of a name in the function being written. -/
def resolve (nest : Nest) (name : String) (line : UInt32) :
    Except CompileError (Option UInt8 × Nest) := do
  let (found, current, enclosing) ← resolveFrom name line nest.current
    nest.enclosing
  return (found, { nest with current := current, enclosing := enclosing })

/-- Appends an instruction to the function being written. -/
def emit
    (nest : Nest) (opcode : Opcode) (operands : List UInt8)
    (line : UInt32) : Nest :=
  { nest with current := nest.current.emit opcode operands line }

/-- Appends the push of a statement's result. -/
def emitStatementNil (nest : Nest) (line : UInt32) : Nest :=
  { nest with current := nest.current.emitStatementNil line }

/-- Throws away the value that the code so far leaves on the stack. -/
def discard (nest : Nest) (nils : StatementNils) (line : UInt32) : Nest :=
  { nest with current := nest.current.discard nils line }

/-- The offset of the next instruction. -/
def offset (nest : Nest) : Nat :=
  nest.current.code.size

/-- Lets the jump at a site lead to the end of the code. -/
def patchJump (nest : Nest) (site : Nat) (line : UInt32) :
    Except CompileError Nest := do
  let patched ← nest.current.patchJump site line
  return { nest with current := patched }

/-- Lets several handler registrations lead to the end of the code. -/
def patchHandlers (nest : Nest) (line : UInt32) :
    List Nat → Except CompileError Nest
  | [] => .ok nest
  | site :: sites => do
      let patched ← nest.current.patchHandler site line
      ({ nest with current := patched } : Nest).patchHandlers line sites

/-- The index of a name in the function being written. -/
def nameIndex (nest : Nest) (name : String) (line : UInt32) :
    Except CompileError (UInt8 × Nest) := do
  let (index, named) ← nest.current.nameIndex name line
  return (index, { nest with current := named })

/-- Appends an instruction whose operand is a name. -/
def emitNamed (nest : Nest) (opcode : Opcode) (name : String) (line : UInt32) :
    Except CompileError Nest := do
  let (index, named) ← nest.nameIndex name line
  return named.emit opcode [index] line

/-- Appends the push of a constant. -/
def emitConstant (nest : Nest) (value : Value) (line : UInt32) :
    Except CompileError Nest := do
  let (index, pooled) ← nest.current.addConstant value line
  return ({ nest with current := pooled } : Nest).emit .loadConst [index] line

/-- Appends the push of a closure of a finished template. -/
def emitClosure (nest : Nest) (template : Template) (line : UInt32) :
    Except CompileError Nest := do
  let (index, pooled) ← nest.current.addConstant
    (.function nest.finished template) line
  return ({ nest with current := pooled, finished := nest.finished + 1 } :
    Nest).emit
    .makeClosure [index] line

/-- Appends the read of a name. -/
def loadVariable (nest : Nest) (name : String) (line : UInt32) :
    Except CompileError Nest :=
  if name = wildcard then .error (.unresolved name line)
  else do
    let (found, resolved) ← nest.resolve name line
    match found with
    | some slot =>
        let opcode := if resolved.current.isHeap slot then
          Opcode.loadHeap else .loadLocal
        return resolved.emit opcode [slot] line
    | none => resolved.emitNamed .loadGlobal name line

/-- Finds where an assignment to a name writes; a new name becomes a global in
the script and a local elsewhere. -/
def storeTarget (nest : Nest) (name : String) (line : UInt32) :
    Except CompileError (StoreTarget × Nest) := do
  let (found, resolved) ← nest.resolve name line
  match found with
  | some slot => return (.slot slot, resolved)
  | none =>
      if resolved.enclosing.isEmpty then
        let (index, named) ← resolved.nameIndex name line
        return (.global index, named)
      else
        let (slot, declared) ← resolved.current.declare name line
        return (.slot slot, { resolved with current := declared })

/-- Appends a write. Whether it goes through a box is decided here, since the
slot may have been promoted after the target was found. -/
def emitStore (nest : Nest) (target : StoreTarget) (line : UInt32) : Nest :=
  match target with
  | .slot slot =>
      nest.emit (if nest.current.isHeap slot then .storeHeap else .storeLocal)
        [slot] line
  | .global index => nest.emit .storeGlobal [index] line

/-- Begins a function inside the one being written; a comment with its name
comes first. -/
def enter (nest : Nest) (draft : Draft) (line : UInt32) : Nest :=
  { nest with
    current := draft.addComment draft.name line
    enclosing := nest.current :: nest.enclosing }

/-- Appends the return that ends the function being written. -/
def emitReturn (nest : Nest) (line : UInt32) : Nest :=
  nest.emit .return [] (nest.current.lastLine line)

/-- Ends the function being written and goes back to the one around it, which
was `outer` at first. -/
def leave (inner outer : Nest) (line : UInt32) : Template × Nest :=
  let returned := inner.emitReturn line
  (returned.current.finish,
    { returned with
      current := returned.enclosing.headD outer.current
      enclosing := returned.enclosing.tail })

/-- Appends the push of a literal. -/
def literal (nest : Nest) (value : Literal) (line : UInt32) :
    Except CompileError Nest :=
  match value with
  | .nil => .ok (nest.emit .pushNil [] line)
  | .bool true => .ok (nest.emit .pushTrue [] line)
  | .bool false => .ok (nest.emit .pushFalse [] line)
  | .int number => nest.emitConstant (.int number) line
  | .str text => nest.emitConstant (.str text) line
  | .float _ => .error (.floatLiteral line)

end Nest

namespace BinaryOp

/-- The operation that an operator becomes. -/
def opcode : BinaryOp → Opcode
  | .add => .add
  | .sub => .sub
  | .mul => .mul
  | .div => .div
  | .eq | .ne => .eq
  | .lt | .ge => .lt
  | .gt | .le => .gt

/-- Whether the result of the operation is negated. -/
def negated : BinaryOp → Bool
  | .ne | .le | .ge => true
  | _ => false

end BinaryOp

/-- The operation that a prefix operator becomes. -/
def UnaryOp.opcode : UnaryOp → Opcode
  | .neg => .neg
  | .not => .not

/-- The name of the function that a clause for an effect becomes. -/
def handlerName (effect : String) : String :=
  "handle " ++ effect

mutual

/-- Appends the code of an expression. -/
def lowerExpr (nils : StatementNils) : Expr → Nest → Except CompileError Nest
  | .ident name position, nest => nest.loadVariable name position.debugLine
  | .literal value position, nest => nest.literal value position.debugLine
  | .binary op left right position, nest => do
      let afterLeft ← lowerExpr nils left nest
      let afterRight ← lowerExpr nils right afterLeft
      let applied := afterRight.emit op.opcode [] position.debugLine
      return if op.negated then applied.emit .not [] position.debugLine
        else applied
  | .unary op operand position, nest => do
      let afterOperand ← lowerExpr nils operand nest
      return afterOperand.emit op.opcode [] position.debugLine
  | .call callee arguments position, nest => do
      let afterCallee ← lowerExpr nils callee nest
      let afterArguments ← lowerArguments nils arguments afterCallee
      if arguments.length ≤ Resource.arguments.limit then
        return afterArguments.emit .call [UInt8.ofNat arguments.length]
          position.debugLine
      else .error (.tooMany .arguments position.debugLine)
  | .assign (.ident name _) value position, nest => do
      let afterValue ← lowerExpr nils value nest
      let (target, targeted) ← afterValue.storeTarget name position.debugLine
      return (targeted.emitStore target position.debugLine).emitStatementNil
        position.debugLine
  | .assign target _ position, _ =>
      .error (.assignmentTo target.kindName position.debugLine)
  | .define name parameters body position, nest => do
      let (target, targeted) ← nest.storeTarget name position.debugLine
      let draft ← Draft.start name parameters position.debugLine
      let afterBody ← lowerBlock nils body
        (targeted.enter draft position.debugLine)
      let (template, closed) := afterBody.leave targeted position.debugLine
      let pushed ← closed.emitClosure template position.debugLine
      return (pushed.emitStore target position.debugLine).emitStatementNil
        position.debugLine
  | .block body, nest => lowerBlock nils body nest
  | .branch condition consequence alternative position, nest => do
      let afterCondition ← lowerExpr nils condition nest
      let elseSite := afterCondition.offset
      let jumpedOver := { afterCondition with
        current := afterCondition.current.emitJump .jumpIfFalse
          position.debugLine }
      let afterConsequence ← lowerBlock nils consequence jumpedOver
      let endSite := afterConsequence.offset
      let jumpedOut := { afterConsequence with
        current := afterConsequence.current.emitJump .jump position.debugLine }
      let elsePatched ← jumpedOut.patchJump elseSite position.debugLine
      let afterAlternative ← lowerOptional nils alternative
        position.debugLine elsePatched
      afterAlternative.patchJump endSite position.debugLine
  | .loop condition body position, nest => do
      let labelled := { nest with current := nest.current.label }
      let destination := labelled.offset
      let afterCondition ← lowerExpr nils condition labelled
      let exitSite := afterCondition.offset
      let jumpedOut := { afterCondition with
        current := afterCondition.current.emitJump .jumpIfFalse
          position.debugLine }
      let afterBody ← lowerBlock nils body jumpedOut
      let discarded := afterBody.discard nils position.debugLine
      let looped ← discarded.current.emitLoop destination position.debugLine
      let exitPatched ← ({ discarded with current := looped } : Nest).patchJump
        exitSite position.debugLine
      return exitPatched.emitStatementNil position.debugLine
  | .attempt body clauses position, nest =>
      if clauses.length ≤ Resource.handlers.limit then do
        let (sites, registered) ← lowerClauses nils clauses nest
        let afterBody ← lowerBlock nils body registered
        let popped := afterBody.emit .popHandlers [UInt8.ofNat clauses.length]
          position.debugLine
        popped.patchHandlers position.debugLine sites
      else .error (.tooMany .handlers position.debugLine)
  | .perform effect payload position, nest => do
      let afterPayload ← lowerOptional nils payload position.debugLine nest
      afterPayload.emitNamed .perform effect position.debugLine

/-- Appends the code of an expression that may be missing; then its value is
nil. -/
def lowerOptional (nils : StatementNils) :
    Option Expr → UInt32 → Nest → Except CompileError Nest
  | some expression, _, nest => lowerExpr nils expression nest
  | none, line, nest => .ok (nest.emit .pushNil [] line)

/-- Appends the code of arguments, one value each. -/
def lowerArguments (nils : StatementNils) :
    List Expr → Nest → Except CompileError Nest
  | [], nest => .ok nest
  | first :: others, nest => do
      let afterFirst ← lowerExpr nils first nest
      lowerArguments nils others afterFirst

/-- Appends the code of a block. -/
def lowerBlock (nils : StatementNils) : Block → Nest → Except CompileError Nest
  | ⟨expressions, position⟩, nest =>
      if expressions.isEmpty then .ok (nest.emitStatementNil position.debugLine)
      else lowerSequence nils expressions nest

/-- Appends the code of expressions of which only the last one keeps its
value. -/
def lowerSequence (nils : StatementNils) :
    List Expr → Nest → Except CompileError Nest
  | [], nest => .ok nest
  | first :: others, nest => do
      let afterFirst ← lowerExpr nils first nest
      if others.isEmpty then return afterFirst
      else
        lowerSequence nils others
          (afterFirst.discard nils first.position.debugLine)

/-- Appends the registrations of the clauses of an attempt; gives their
sites. -/
def lowerClauses (nils : StatementNils) :
    List Clause → Nest → Except CompileError (List Nat × Nest)
  | [], nest => .ok ([], nest)
  | ⟨effect, parameter, body, position⟩ :: clauses, nest => do
      let draft ← Draft.start (handlerName effect)
        [parameter] position.debugLine
      let afterBody ← lowerBlock nils body (nest.enter draft position.debugLine)
      let (template, closed) := afterBody.leave nest position.debugLine
      let pushed ← closed.emitClosure template position.debugLine
      let (index, named) ← pushed.nameIndex effect position.debugLine
      let site := named.offset
      let registered := { named with
        current := named.current.emitSetHandler index position.debugLine }
      let (sites, afterClauses) ← lowerClauses nils clauses registered
      return (site :: sites, afterClauses)

end

/-- Compiles a program to its top-level function, with a choice about the
results of statements. -/
def Block.compileWith (nils : StatementNils) (program : Block) :
    Except CompileError Template := do
  let line := program.position.debugLine
  let draft ← Draft.start scriptName [] line
  let lowered ← lowerBlock nils program ⟨draft, [], 0⟩
  return (lowered.emitReturn line).current.finish

/-- Compiles a program to its top-level function. -/
def Block.compile (program : Block) : Except CompileError Template :=
  program.compileWith .elided

end EffectScript
