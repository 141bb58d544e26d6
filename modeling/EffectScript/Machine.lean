import EffectScript.Failure
import EffectScript.Instruction
import EffectScript.Operator
import EffectScript.Value.Printer

/-!
# The machine

The state of a run: frames for the live calls, the effect handlers that are in
force, and what outlives a run, namely globals, operator methods, boxes and the
output.

Frames, operand stacks and handlers are lists with the newest entry first. A
frame or handler is also known by its *index*, which is the count of entries
older than it and does not change while it lives.
-/

namespace EffectScript

/-- The oldest `count` entries of a list with the newest entry first. -/
def oldest {α : Type} (count : Nat) (entries : List α) : List α :=
  entries.drop (entries.length - count)

@[simp]
theorem length_oldest {α : Type} (count : Nat) (entries : List α) :
    (oldest count entries).length = min count entries.length := by
  simp [oldest]
  omega

/-- Newer entries do not count among the oldest ones. -/
theorem oldest_append {α : Type} {newer older : List α} :
    oldest older.length (newer ++ older) = older := by
  simp [oldest]

/-- How many frames may be live and how many values an operand stack may
hold. -/
structure Limits where
  maxFrames : Nat
  stackCapacity : Nat
deriving DecidableEq

/-- The limits of a machine that nobody configured. -/
def Limits.standard : Limits := ⟨256, 256⟩

/-- Where printed text goes. -/
inductive Outlet where
  | collecting (text : String)
  | refusing (reason : String)
deriving DecidableEq

namespace Outlet

/-- The outlet after a line of text, or the reason why it takes none. -/
def writeLine (outlet : Outlet) (line : String) : Except String Outlet :=
  match outlet with
  | .collecting text => .ok (.collecting (text ++ line ++ "\n"))
  | .refusing reason => .error reason

/-- The text collected so far. -/
def text : Outlet → String
  | .collecting text => text
  | .refusing _ => ""

/-- The outlet without the text collected so far. -/
def emptied : Outlet → Outlet
  | .collecting _ => .collecting ""
  | .refusing reason => .refusing reason

end Outlet

/-- An effect handler that is in force. -/
structure Handler where
  effect : String
  closure : Closure
  /-- The index of the frame that registered it. -/
  frame : Nat
  /-- How many values were on the operand stack of that frame. -/
  depth : Nat
  /-- The offset of the end of its attempt. -/
  target : Nat

/-- Whether two handlers belong to the same attempt. -/
def Handler.sameGroup (handler other : Handler) : Bool :=
  handler.frame == other.frame && handler.target == other.target

/-- How a running handler is tied to the effect that it answers. -/
structure EffectLink where
  /-- The index of the frame that performed the effect. -/
  resumeInto : Nat
  /-- The index of the frame that owns the attempt. -/
  handlerFrame : Nat
  /-- How many values were on the operand stack of that frame. -/
  depth : Nat
  /-- The offset of the end of the attempt. -/
  target : Nat
  /-- How many handlers are older than those of the attempt. -/
  groupStart : Nat
  /-- The handlers of the attempt and all newer ones, out of force while the
  handler runs. -/
  stash : List Handler

/-- A live call. -/
structure Frame where
  closure : Closure
  /-- The operand stack. -/
  stack : List Value
  /-- The running closure, the parameters and the other locals. -/
  slots : List Value
  /-- The offset of the next instruction. -/
  ip : Nat
  /-- Set in the frames of effect handlers. -/
  link : Option EffectLink

namespace Frame

/-- The function that the frame runs. -/
def template (frame : Frame) : Template :=
  frame.closure.template

/-- The call as an entry of a trace. Its line is that of the instruction begun
last. -/
def traceEntry (frame : Frame) : TraceEntry :=
  ⟨frame.template.name, frame.template.debug.lineAt (frame.ip - 1)⟩

/-- Pushes a value on the operand stack. -/
def push (frame : Frame) (capacity : Nat) (value : Value) :
    Except Failure Frame :=
  if frame.stack.length < capacity then
    .ok { frame with stack := value :: frame.stack }
  else .error (.fault (.stackOverflow capacity))

/-- Pops a value from the operand stack. -/
def pop (frame : Frame) : Except Failure (Value × Frame) :=
  match frame.stack with
  | [] => .error (.fault .stackUnderflow)
  | value :: rest => .ok (value, { frame with stack := rest })

/-- The value in a slot. -/
def slot (frame : Frame) (slot : UInt8) : Except Failure Value :=
  match frame.slots[slot.toNat]? with
  | some value => .ok value
  | none => .error
      (.fault (.corrupt (.slotOutOfRange .direct slot frame.template.name)))

/-- The frame with a value in a slot. -/
def setSlot (frame : Frame) (slot : UInt8) (value : Value) :
    Except Failure Frame :=
  if slot.toNat < frame.slots.length then
    .ok { frame with slots := frame.slots.set slot.toNat value }
  else .error
    (.fault (.corrupt (.slotOutOfRange .direct slot frame.template.name)))

end Frame

/-- Operator methods by the type of the left operand and the operator. -/
abbrev MethodTable := List ((String × Operator) × Value)

namespace MethodTable

/-- The method for a type and an operator. -/
def find? (methods : MethodTable) (typeName : String) (operator : Operator) :
    Option Value :=
  methods.lookup (typeName, operator)

/-- The table with a method, in place of the one that was there. -/
def define
    (methods : MethodTable) (typeName : String) (operator : Operator)
    (method : Value) : MethodTable :=
  ((typeName, operator), method) ::
    methods.filter fun entry => entry.1 ≠ (typeName, operator)

@[simp]
theorem find?_define_self
    (methods : MethodTable) (typeName : String) (operator : Operator)
    (method : Value) :
    (methods.define typeName operator method).find? typeName operator =
      some method := by
  simp [define, find?]

end MethodTable

/-- The state of a machine. -/
structure Machine where
  limits : Limits
  frames : List Frame
  handlers : List Handler
  globals : Dictionary String Value
  methods : MethodTable
  store : Store
  outlet : Outlet

namespace Machine

/-- A machine that has not run anything yet. -/
def fresh (limits : Limits) (outlet : Outlet) : Machine :=
  { limits := limits
    frames := []
    handlers := []
    globals := Dictionary.ofEntries
      (Builtin.globals.map fun builtin => (builtin.name, .builtin builtin))
    methods :=
      [(("list", .eq), .builtin .listEq), (("map", .eq), .builtin .mapEq)]
    store := {}
    outlet := outlet }

/-- The machine without live calls and handlers. -/
def cleared (machine : Machine) : Machine :=
  { machine with frames := [], handlers := [] }

/-- The live calls, the innermost one first. -/
def trace (machine : Machine) : List TraceEntry :=
  machine.frames.map Frame.traceEntry

/-- The index of the newest frame. -/
def topIndex (machine : Machine) : Nat :=
  machine.frames.length - 1

/-- The newest frame. -/
def top (machine : Machine) : Except Failure Frame :=
  match machine.frames with
  | frame :: _ => .ok frame
  | [] => .error (.fault (.corrupt .noActiveFrame))

/-- The machine with another frame in place of the newest one. -/
def setTop (machine : Machine) (frame : Frame) : Machine :=
  { machine with frames := frame :: machine.frames.tail }

/-- Pushes a value on the operand stack of the newest frame. -/
def push (machine : Machine) (value : Value) : Except Failure Machine := do
  let frame ← machine.top
  let pushed ← frame.push machine.limits.stackCapacity value
  return machine.setTop pushed

/-- Pops a value from the operand stack of the newest frame. -/
def pop (machine : Machine) : Except Failure (Value × Machine) := do
  let frame ← machine.top
  let (value, popped) ← frame.pop
  return (value, machine.setTop popped)

/-- Takes identities from the supply of the store. -/
def take (machine : Machine) (count : Nat) : Machine :=
  { machine with store := machine.store.take count }

end Machine

end EffectScript
