import EffectScript.Instruction
import EffectScript.Text.Column
import EffectScript.Value.Printer

/-!
# Listings

A listing shows a function and, after it, the functions nested in it. A function
has a header line and a line for each instruction: the offset, the source line
or a bar where it is that of the line before, the mnemonic and the operands.
Code that cannot be decoded ends the listing of its function with the fault.
-/

namespace EffectScript.Listing

/-- An operand that refers to a name. -/
def nameOperand (template : Template) (index : UInt8) : String :=
  match template.name? index with
  | some name => toString index ++ " '" ++ name ++ "'"
  | none => toString index ++ " <?>"

/-- An operand that refers to a constant. -/
def constantOperand (store : Store) (template : Template) (index : UInt8) :
    String :=
  match template.constant? index with
  | some value => toString index ++ " '" ++ value.display store ++ "'"
  | none => toString index ++ " <?>"

/-- An operand that refers to a slot. -/
def slotOperand (template : Template) (slot : UInt8) : String :=
  match template.debug.slotName? slot with
  | some name => toString slot ++ " (" ++ name ++ ")"
  | none => toString slot

/-- A jump from an offset to another one. -/
def jumpOperand (offset destination : Nat) : String :=
  toString offset ++ " -> " ++ toString destination

/-- The operands of an instruction. -/
def operands (store : Store) (template : Template) (instruction : Instruction) :
    String :=
  match instruction.opcode with
  | .loadConst | .makeClosure => constantOperand store template instruction.byte
  | .loadGlobal | .storeGlobal | .perform =>
      nameOperand template instruction.byte
  | .loadLocal | .storeLocal | .loadHeap | .storeHeap =>
      slotOperand template instruction.byte
  | .call | .popHandlers => toString instruction.byte
  | .jump | .jumpIfFalse =>
      jumpOperand instruction.offset (instruction.next + instruction.short)
  | .loop => jumpOperand instruction.offset
      (instruction.next - instruction.short)
  | .setHandler =>
      nameOperand template instruction.byte ++ " " ++
        jumpOperand instruction.offset
          (instruction.next + instruction.trailingShort)
  | .comment =>
      match template.debug.commentAt? instruction.offset with
      | some text => "; " ++ text
      | none => ""
  | _ => ""

/-- The line of an instruction; `previous` is the source line of the instruction
before it. -/
def instructionLine
    (store : Store) (template : Template) (previous : Option UInt32)
    (instruction : Instruction) : String :=
  let line := template.debug.lineAt instruction.offset
  let lineColumn := if previous = some line then "|" else toString line
  Text.trimEnd
    (Text.zeroPadded 4 instruction.offset ++ " " ++
      Text.padLeft 4 lineColumn ++ " " ++
    Text.padRight 16 instruction.opcode.mnemonic ++ " " ++
      operands store template instruction)

/-- The lines of instructions. -/
def instructionLines
    (store : Store) (template : Template) (previous : Option UInt32) :
    List Instruction → List String
  | [] => []
  | instruction :: rest =>
      instructionLine store template previous instruction ::
        instructionLines store template
          (some (template.debug.lineAt instruction.offset)) rest

/-- The lines of a function without those nested in it. -/
def functionLines (store : Store) (template : Template) : List String :=
  let walk := Instruction.walk template.code
  let faultLines :=
    match walk.fault with
    | some fault => ["<" ++ fault.message ++ ">"]
    | none => []
  ("== " ++ template.name ++ " ==") ::
    (instructionLines store template none walk.instructions ++ faultLines)

mutual

/-- The lines of a function and of those nested in it, each of which has an
empty line before it. -/
def templateLines (store : Store) : Template → List String
  | ⟨name, arity, locals, code, constants, names, debug, outer, inner, heap⟩ =>
      functionLines store
        ⟨name, arity, locals, code, constants, names, debug, outer,
          inner, heap⟩ ++
        nestedLines store constants

/-- The lines of the functions among constants. -/
def nestedLines (store : Store) : List Value → List String
  | [] => []
  | constant :: constants =>
      constantLines store constant ++ nestedLines store constants

/-- The lines of a constant that is a function. -/
def constantLines (store : Store) : Value → List String
  | .function _ template => "" :: templateLines store template
  | _ => []

end

end EffectScript.Listing

namespace EffectScript

/-- The listing of a function and of those nested in it. -/
def Template.listing (store : Store) (template : Template) : String :=
  String.join ((Listing.templateLines store template).map (· ++ "\n"))

end EffectScript
