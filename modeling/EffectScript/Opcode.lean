/-!
# Operation codes

The operations of the machine in the order of their numbers. An instruction is
the byte of its operation followed by operand bytes, whose count depends on the
operation alone.
-/

namespace EffectScript

/-- The operations of the machine. -/
inductive Opcode where
  | loadConst
  | pushNil
  | pushTrue
  | pushFalse
  | loadLocal
  | storeLocal
  /-- Reads through the box in a slot. -/
  | loadHeap
  /-- Writes through the box in a slot. -/
  | storeHeap
  | loadGlobal
  | storeGlobal
  | pop
  | swap
  | jump
  | jumpIfFalse
  /-- Jumps backward. -/
  | loop
  | call
  | return
  | add
  | sub
  | mul
  | div
  | eq
  | lt
  | gt
  | not
  | neg
  | makeClosure
  | setHandler
  | perform
  | popHandlers
  /-- Does nothing; its text stands in the debug tables. -/
  | comment
deriving DecidableEq

namespace Opcode

/-- The number of an operation. -/
def toByte : Opcode → UInt8
  | .loadConst => 0
  | .pushNil => 1
  | .pushTrue => 2
  | .pushFalse => 3
  | .loadLocal => 4
  | .storeLocal => 5
  | .loadHeap => 6
  | .storeHeap => 7
  | .loadGlobal => 8
  | .storeGlobal => 9
  | .pop => 10
  | .swap => 11
  | .jump => 12
  | .jumpIfFalse => 13
  | .loop => 14
  | .call => 15
  | .return => 16
  | .add => 17
  | .sub => 18
  | .mul => 19
  | .div => 20
  | .eq => 21
  | .lt => 22
  | .gt => 23
  | .not => 24
  | .neg => 25
  | .makeClosure => 26
  | .setHandler => 27
  | .perform => 28
  | .popHandlers => 29
  | .comment => 30

/-- The operation with the given number. -/
def ofByte? (byte : UInt8) : Option Opcode :=
  match byte.toNat with
  | 0 => some .loadConst
  | 1 => some .pushNil
  | 2 => some .pushTrue
  | 3 => some .pushFalse
  | 4 => some .loadLocal
  | 5 => some .storeLocal
  | 6 => some .loadHeap
  | 7 => some .storeHeap
  | 8 => some .loadGlobal
  | 9 => some .storeGlobal
  | 10 => some .pop
  | 11 => some .swap
  | 12 => some .jump
  | 13 => some .jumpIfFalse
  | 14 => some .loop
  | 15 => some .call
  | 16 => some .return
  | 17 => some .add
  | 18 => some .sub
  | 19 => some .mul
  | 20 => some .div
  | 21 => some .eq
  | 22 => some .lt
  | 23 => some .gt
  | 24 => some .not
  | 25 => some .neg
  | 26 => some .makeClosure
  | 27 => some .setHandler
  | 28 => some .perform
  | 29 => some .popHandlers
  | 30 => some .comment
  | _ => none

@[simp]
theorem ofByte?_toByte (opcode : Opcode) :
    ofByte? opcode.toByte = some opcode := by
  cases opcode <;> rfl

/-- How many operand bytes follow the operation. -/
def operandCount : Opcode → Nat
  | .loadConst | .loadLocal | .storeLocal | .loadHeap | .storeHeap | .loadGlobal
  | .storeGlobal | .call | .makeClosure | .perform | .popHandlers => 1
  | .jump | .jumpIfFalse | .loop => 2
  | .setHandler => 3
  | _ => 0

/-- How many bytes an instruction has. -/
def size (opcode : Opcode) : Nat :=
  opcode.operandCount + 1

theorem size_pos (opcode : Opcode) : 0 < opcode.size :=
  Nat.succ_pos _

/-- How a listing writes the operation. -/
def mnemonic : Opcode → String
  | .loadConst => "LOAD_CONST"
  | .pushNil => "NIL"
  | .pushTrue => "TRUE"
  | .pushFalse => "FALSE"
  | .loadLocal => "LOAD_LOCAL"
  | .storeLocal => "STORE_LOCAL"
  | .loadHeap => "LOAD_HEAP"
  | .storeHeap => "STORE_HEAP"
  | .loadGlobal => "LOAD_GLOBAL"
  | .storeGlobal => "STORE_GLOBAL"
  | .pop => "POP"
  | .swap => "SWAP"
  | .jump => "JUMP"
  | .jumpIfFalse => "JUMP_IF_FALSE"
  | .loop => "LOOP"
  | .call => "CALL"
  | .return => "RETURN"
  | .add => "ADD"
  | .sub => "SUB"
  | .mul => "MUL"
  | .div => "DIV"
  | .eq => "EQ"
  | .lt => "LT"
  | .gt => "GT"
  | .not => "NOT"
  | .neg => "NEG"
  | .makeClosure => "MAKE_CLOSURE"
  | .setHandler => "SET_HANDLER"
  | .perform => "DO"
  | .popHandlers => "POP_HANDLERS"
  | .comment => "COMMENT"

/-- The access through a box that stands for a direct access to a slot. -/
def promoted? : Opcode → Option Opcode
  | .loadLocal => some .loadHeap
  | .storeLocal => some .storeHeap
  | _ => none

/-- A promoted access is as long as the access that it stands for. -/
theorem operandCount_of_promoted? {direct boxed : Opcode}
    (promotes : direct.promoted? = some boxed) :
    boxed.operandCount = direct.operandCount := by
  cases direct <;> simp_all [promoted?] <;> subst promotes <;> rfl

end Opcode

end EffectScript
