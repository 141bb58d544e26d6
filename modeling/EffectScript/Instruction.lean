import EffectScript.Fault

/-!
# Instructions

Code is a flat sequence of bytes. Decoding reads one instruction at an offset;
walking the code steps from instruction to instruction until the end or the
first fault.
-/

namespace EffectScript

/-- An operation with its operand bytes, at its offset in the code. -/
structure Instruction where
  offset : Nat
  opcode : Opcode
  operands : List UInt8
deriving DecidableEq

namespace Instruction

/-- The number written by two bytes, the high one first. -/
def bigEndian (high low : UInt8) : Nat :=
  256 * high.toNat + low.toNat

/-- The operand byte at an index; a missing one reads as zero. -/
def operand (instruction : Instruction) (index : Nat) : UInt8 :=
  instruction.operands.getD index 0

/-- The operand of one byte: an index or a count. -/
def byte (instruction : Instruction) : UInt8 :=
  instruction.operand 0

/-- The operand of two bytes: the distance of a jump. -/
def short (instruction : Instruction) : Nat :=
  bigEndian (instruction.operand 0) (instruction.operand 1)

/-- The operand of two bytes behind an operand of one byte: the distance to the
end of an attempt. -/
def trailingShort (instruction : Instruction) : Nat :=
  bigEndian (instruction.operand 1) (instruction.operand 2)

/-- The offset of the instruction after this one. -/
def next (instruction : Instruction) : Nat :=
  instruction.offset + instruction.opcode.size

/-- The bytes of the instruction. -/
def encode (instruction : Instruction) : List UInt8 :=
  instruction.opcode.toByte :: instruction.operands

/-- The two bytes of a number, the high one first. -/
def shortBytes (number : Nat) : List UInt8 :=
  [UInt8.ofNat (number / 256), UInt8.ofNat (number % 256)]

/-- Reads the instruction at an offset. -/
def decode (code : Array UInt8) (offset : Nat) : Except Fault Instruction :=
  match code[offset]? with
  | none => .error (.corrupt (.pastEnd offset code.size))
  | some byte =>
      match Opcode.ofByte? byte with
      | none => .error (.unknownOpcode byte offset)
      | some opcode =>
          if offset + opcode.size ≤ code.size then
            .ok ⟨offset, opcode,
              (code.extract (offset + 1) (offset + opcode.size)).toList⟩
          else .error (.corrupt (.truncated opcode offset))

/-- A walk through code: the instructions up to the end or up to a fault. -/
structure Walk where
  instructions : List Instruction
  fault : Option Fault

/-- Walks the code from an offset on. -/
def walkFrom (code : Array UInt8) (offset : Nat) : Walk :=
  if offset < code.size then
    match decode code offset with
    | .ok instruction =>
        let rest := walkFrom code (offset + instruction.opcode.size)
        { rest with instructions := instruction :: rest.instructions }
    | .error fault => ⟨[], some fault⟩
  else ⟨[], none⟩
termination_by code.size - offset
decreasing_by
  have := instruction.opcode.size_pos
  omega

/-- Walks the code from its start. -/
def walk (code : Array UInt8) : Walk :=
  walkFrom code 0

end Instruction

end EffectScript
