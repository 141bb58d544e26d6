import EffectScript.Opcode
import EffectScript.Text.Column
import EffectScript.Text.Quoted

/-!
# Host faults

A fault says that the machine cannot go on with the code it was given: the code
is not what a compiler makes, or a limit of the machine is reached. Faults are
not exceptions of the language.
-/

namespace EffectScript

/-- What a slot that is out of range was needed for. -/
inductive SlotRole where
  | direct
  | captured
  | boxed
deriving DecidableEq

/-- The wording of a role. -/
def SlotRole.text : SlotRole → String
  | .direct => "local"
  | .captured => "capture"
  | .boxed => "heap"

/-- How code can be malformed. -/
inductive Corruption where
  | noActiveFrame
  | pastEnd (offset size : Nat)
  | truncated (opcode : Opcode) (offset : Nat)
  | constantOutOfRange (index : UInt8)
  | nameOutOfRange (index : UInt8) (owner : String)
  | slotOutOfRange (role : SlotRole) (slot : UInt8) (owner : String)
  | notABox (opcode : Opcode) (offset : Nat) (found : String)
  | loopBeforeStart (offset : Nat)
  | notAFunction (index : UInt8)
  | capturedSlotUnboxed (slot : UInt8) (owner found : String)
deriving DecidableEq

/-- The wording of a corruption. -/
def Corruption.message : Corruption → String
  | .noActiveFrame => "no active frame"
  | .pastEnd offset size => s!"offset {offset} past end of code ({size} bytes)"
  | .truncated opcode offset =>
      "truncated " ++ opcode.mnemonic ++ s!" at offset {offset}"
  | .constantOutOfRange index => s!"constant {index} out of range"
  | .nameOutOfRange index owner => s!"name {index} out of range in '{owner}'"
  | .slotOutOfRange role slot owner =>
      role.text ++ s!" slot {slot} out of range in '{owner}'"
  | .notABox opcode offset found =>
      opcode.mnemonic ++ s!" at offset {offset} found {found} instead of a box"
  | .loopBeforeStart offset =>
      s!"LOOP at offset {offset} jumps before code start"
  | .notAFunction index => s!"MAKE_CLOSURE operand {index} is not a function"
  | .capturedSlotUnboxed slot owner found =>
      s!"captured slot {slot} of '{owner}' is {found}"

/-- Why the machine cannot go on. -/
inductive Fault where
  | unbalancedStack (function : String) (remaining : Nat)
  | unknownOpcode (byte : UInt8) (offset : Nat)
  | frameOverflow (limit : Nat)
  | stackOverflow (limit : Nat)
  | stackUnderflow
  | corrupt (corruption : Corruption)
deriving DecidableEq

/-- A byte as two hexadecimal digits behind `0x`. -/
def byteText (byte : UInt8) : String :=
  "0x" ++ (if byte.toNat < 16 then "0" else "") ++ Text.hexadecimal byte.toNat

/-- The wording of a fault. -/
def Fault.message : Fault → String
  | .unbalancedStack function remaining =>
      s!"operand stack of '{function}' not empty at return " ++
        s!"({remaining} values left)"
  | .unknownOpcode byte offset =>
      "unknown opcode " ++ byteText byte ++ s!" at offset {offset}"
  | .frameOverflow limit => s!"call depth exceeded {limit} frames"
  | .stackOverflow limit => s!"operand stack exceeded {limit} values"
  | .stackUnderflow => "operand stack underflow"
  | .corrupt corruption => "corrupt chunk: " ++ corruption.message

end EffectScript
