import EffectScript.Machine.Call

/-!
# Steps and runs

One step decodes the instruction at the offset of the newest frame, moves the
offset behind it and executes it. A step that fails reports the calls that were
live when its instruction began, and leaves a machine without frames and
handlers. A run is a bounded count of steps.
-/

namespace EffectScript

/-- What executing an instruction leads to. -/
inductive Flow where
  | onward (machine : Machine)
  | finished (value : Value) (machine : Machine)

/-- What a step leads to. -/
inductive Step where
  | running (machine : Machine)
  | finished (value : Value) (machine : Machine)
  | failed (failure : Failure) (machine : Machine)

namespace Machine

/-- The name that an operand refers to. -/
def operandName (template : Template) (index : UInt8) : Except Failure String :=
  match template.name? index with
  | some name => .ok name
  | none => .error (.fault (.corrupt (.nameOutOfRange index template.name)))

/-- Returns the value on top of the operand stack from the newest frame. The
handlers that it registered go; a frame that answers an effect completes the
attempt. -/
def returnValue (machine : Machine) : Except Failure Flow := do
  let frame ← machine.top
  match frame.stack with
  | [] => .error (.fault .stackUnderflow)
  | value :: [] =>
      let below := machine.frames.tail
      let returned := { machine with
        frames := below
        handlers := machine.handlers.dropWhile fun handler =>
          below.length ≤ handler.frame }
      match frame.link with
      | some link => return .onward (← returned.abandon link value)
      | none =>
          if below.isEmpty then return .finished value returned
          else return .onward (← returned.push value)
  | _ :: remaining =>
      .error (.fault (.unbalancedStack frame.template.name remaining.length))

/-- Reads through the box in a slot. -/
def loadHeap (machine : Machine) (instruction : Instruction) :
    Except Failure Machine := do
  let frame ← machine.top
  match ← frame.slot instruction.byte with
  | .box cell => machine.push (machine.store.read cell)
  | other => .error (.fault (.corrupt
      (.notABox instruction.opcode instruction.offset other.typeName)))

/-- Writes through the box in a slot. -/
def storeHeap (machine : Machine) (instruction : Instruction) :
    Except Failure Machine := do
  let (value, popped) ← machine.pop
  let frame ← popped.top
  match ← frame.slot instruction.byte with
  | .box cell => return { popped with store := popped.store.write cell value }
  | other => .error (.fault (.corrupt
      (.notABox instruction.opcode instruction.offset other.typeName)))

/-- Executes an instruction of the newest frame, whose offset is already behind
it. -/
def execute (machine : Machine) (instruction : Instruction) :
    Except Failure Flow := do
  let frame ← machine.top
  let template := frame.template
  match instruction.opcode with
  | .loadConst =>
      match template.constant? instruction.byte with
      | some value => return .onward (← machine.push value)
      | none =>
          .error (.fault (.corrupt (.constantOutOfRange instruction.byte)))
  | .pushNil => return .onward (← machine.push .nil)
  | .pushTrue => return .onward (← machine.push (.bool true))
  | .pushFalse => return .onward (← machine.push (.bool false))
  | .loadLocal =>
      let value ← frame.slot instruction.byte
      return .onward (← machine.push value)
  | .storeLocal =>
      let (value, popped) ← frame.pop
      let stored ← popped.setSlot instruction.byte value
      return .onward (machine.setTop stored)
  | .loadHeap => return .onward (← machine.loadHeap instruction)
  | .storeHeap => return .onward (← machine.storeHeap instruction)
  | .loadGlobal =>
      let name ← operandName template instruction.byte
      match machine.globals.find? name with
      | some value => return .onward (← machine.push value)
      | none => .error (.exception (Exception.undefinedName name))
  | .storeGlobal =>
      let name ← operandName template instruction.byte
      let (value, popped) ← machine.pop
      return .onward { popped with globals := popped.globals.insert name value }
  | .pop =>
      let (_, popped) ← machine.pop
      return .onward popped
  | .swap =>
      match frame.stack with
      | first :: second :: rest =>
          return .onward
            (machine.setTop { frame with stack := second :: first :: rest })
      | _ => .error (.fault .stackUnderflow)
  | .jump =>
      return .onward
        (machine.setTop { frame with ip := frame.ip + instruction.short })
  | .jumpIfFalse =>
      let (condition, popped) ← frame.pop
      if condition.isTruthy then return .onward (machine.setTop popped)
      else
        return .onward
          (machine.setTop { popped with ip := popped.ip + instruction.short })
  | .loop =>
      if instruction.short ≤ frame.ip then
        return .onward
          (machine.setTop { frame with ip := frame.ip - instruction.short })
      else .error (.fault (.corrupt (.loopBeforeStart instruction.offset)))
  | .call => return .onward (← machine.call instruction.byte.toNat)
  | .return => machine.returnValue
  | .add => return .onward (← machine.binaryOperator .add)
  | .sub => return .onward (← machine.binaryOperator .sub)
  | .mul => return .onward (← machine.binaryOperator .mul)
  | .div => return .onward (← machine.binaryOperator .div)
  | .eq => return .onward (← machine.binaryOperator .eq)
  | .lt => return .onward (← machine.binaryOperator .lt)
  | .gt => return .onward (← machine.binaryOperator .gt)
  | .not =>
      let (value, popped) ← machine.pop
      return .onward (← popped.push (.bool (!value.isTruthy)))
  | .neg => return .onward (← machine.negate)
  | .makeClosure => return .onward (← machine.makeClosure instruction.byte)
  | .setHandler =>
      let name ← operandName template instruction.byte
      return .onward (← machine.setHandler name instruction.trailingShort)
  | .perform =>
      let name ← operandName template instruction.byte
      return .onward (← machine.perform name)
  | .popHandlers =>
      return .onward { machine
        with handlers := machine.handlers.drop instruction.byte.toNat }
  | .comment => return .onward machine

/-- Decodes the next instruction of the newest frame and moves the offset of the
frame behind it. -/
def fetch (machine : Machine) : Except Failure (Instruction × Machine) := do
  let frame ← machine.top
  match Instruction.decode frame.template.code frame.ip with
  | .ok instruction =>
      return (instruction, machine.setTop { frame with ip := instruction.next })
  | .error fault => .error (.fault fault)

/-- The end of a run that fails in the given state. -/
def fail (machine : Machine) (failure : Failure) : Step :=
  .failed (failure.withCalls machine.trace) machine.cleared

/-- One step of a run. -/
def step (machine : Machine) : Step :=
  match machine.fetch with
  | .error failure => machine.fail failure
  | .ok (instruction, fetched) =>
      match fetched.execute instruction with
      | .ok (.onward next) => .running next
      | .ok (.finished value final) => .finished value final
      | .error failure => fetched.fail failure

/-- How a run ended, and the machine after it. -/
structure Ending where
  result : Except Failure Value
  machine : Machine

/-- A run of at most `bound` steps; `none` when it has not ended by then. -/
def run : Nat → Machine → Option Ending
  | 0, _ => none
  | bound + 1, machine =>
      match machine.step with
      | .running next => run bound next
      | .finished value final => some ⟨.ok value, final⟩
      | .failed failure final => some ⟨.error failure, final⟩

/-- The machine about to run a script. -/
def load (machine : Machine) (script : Template) : Step :=
  let identity := machine.store.unused
  match (machine.cleared.take 1).openFrame ⟨identity, script, []⟩ [] with
  | .ok loaded => .running loaded
  | .error failure => machine.cleared.fail failure

/-- Runs a script for at most `bound` steps; `none` when it has not ended by
then. -/
def interpret (bound : Nat) (machine : Machine) (script : Template) :
    Option Ending :=
  match machine.load script with
  | .running loaded => loaded.run bound
  | .finished value final => some ⟨.ok value, final⟩
  | .failed failure final => some ⟨.error failure, final⟩

end Machine

end EffectScript
