import EffectScript.Machine.Native

/-!
# Calls

A call finds its callee beneath its arguments on the operand stack. A closure
gets a frame of its own; a native function runs at once and leaves its result.
Operators that no rule covers are calls of methods, and performing an effect is
a call of its handler.
-/

namespace EffectScript

/-- Puts captured boxes into the slots that receive them. -/
def placeCaptures (owner : String) :
    List (UInt8 × Nat) → List Value → Except Failure (List Value)
  | [], slots => .ok slots
  | (slot, cell) :: captures, slots =>
      if slot.toNat < slots.length then
        placeCaptures owner captures (slots.set slot.toNat (.box cell))
      else .error (.fault (.corrupt (.slotOutOfRange .captured slot owner)))

/-- Moves the values of slots into new boxes. -/
def boxSlots (owner : String) :
    List UInt8 → List Value → Store → Except Failure (List Value × Store)
  | [], slots, store => .ok (slots, store)
  | slot :: others, slots, store =>
      match slots[slot.toNat]? with
      | some value =>
          let (cell, boxed) := store.newBox value
          boxSlots owner others (slots.set slot.toNat (.box cell)) boxed
      | none => .error (.fault (.corrupt (.slotOutOfRange .boxed slot owner)))

/-- The slots of a new frame before any of them is boxed. -/
def Closure.initialSlots (closure : Closure) (arguments : List Value) :
    List Value :=
  let given := .closure closure :: arguments
  given ++ List.replicate (closure.template.locals - given.length) .nil

namespace Machine

/-- Opens a frame for a closure. -/
def openFrame (machine : Machine) (closure : Closure) (arguments : List Value) :
    Except Failure Machine :=
  if machine.frames.length < machine.limits.maxFrames then do
    let template := closure.template
    let captures := template.capturesInner.zip closure.boxes
    let captured ← placeCaptures template.name captures
      (closure.initialSlots arguments)
    let ownBoxes := template.heapSlots.filter fun slot =>
      !template.capturesInner.contains slot
    let (slots, store) ← boxSlots template.name ownBoxes captured machine.store
    let frame : Frame := ⟨closure, [], slots, 0, none⟩
    return { machine with frames := frame :: machine.frames, store := store }
  else .error (.fault (.frameOverflow machine.limits.maxFrames))

/-- Calls a value. -/
def callValue (machine : Machine) (callee : Value) (arguments : List Value) :
    Except Failure Machine :=
  match callee with
  | .closure closure =>
      let template := closure.template
      if arguments.length = template.arity then
        machine.openFrame closure arguments
      else .error (.exception
        (Exception.wrongArity template.name (toString template.arity)
          arguments.length))
  | .builtin builtin =>
      match builtin.call machine arguments with
      | .ok (result, after) => after.push result
      | .error exception => .error (.exception exception)
  | other => .error (.exception (Exception.notCallable other.typeName))

/-- Calls the value beneath the given count of arguments on the operand
stack. -/
def call (machine : Machine) (count : Nat) : Except Failure Machine := do
  let frame ← machine.top
  match frame.stack.drop count with
  | [] => .error (.fault .stackUnderflow)
  | callee :: rest =>
      (machine.setTop { frame with stack := rest }).callValue callee
        (frame.stack.take count).reverse

/-- Pushes the result of an operator, or raises its exception. -/
def pushResult (machine : Machine) (result : Except Exception Value) :
    Except Failure Machine :=
  match result with
  | .ok value => machine.push value
  | .error exception => .error (.exception exception)

/-- Applies a binary operator to the two values on top of the operand stack. -/
def binaryOperator (machine : Machine) (operator : Operator) :
    Except Failure Machine := do
  let (right, afterRight) ← machine.pop
  let (left, popped) ← afterRight.pop
  match operator.binary popped.store.unused left right with
  | some result =>
      (popped.take (operator.identitiesTaken left right)).pushResult result
  | none =>
      match popped.methods.find? left.typeName operator with
      | some method => do
          let withMethod ← popped.push method
          let withLeft ← withMethod.push left
          let withRight ← withLeft.push right
          withRight.call 2
      | none => popped.pushResult (operator.fallback left (some right))

/-- Negates the value on top of the operand stack. -/
def negate (machine : Machine) : Except Failure Machine := do
  let (operand, popped) ← machine.pop
  match Operator.neg.unary operand with
  | some result => popped.pushResult result
  | none =>
      match popped.methods.find? operand.typeName .neg with
      | some method => do
          let withMethod ← popped.push method
          let withOperand ← withMethod.push operand
          withOperand.call 1
      | none => popped.pushResult (Operator.neg.fallback operand none)

/-- Ties the newest frame to the effect that it answers. -/
def tie (machine : Machine) (link : EffectLink) : Except Failure Machine := do
  let frame ← machine.top
  return machine.setTop { frame with link := some link }

/-- Performs an effect with the payload on top of the operand stack. -/
def perform (machine : Machine) (effect : String) : Except Failure Machine := do
  let (payload, popped) ← machine.pop
  match Dispatch.find? effect popped.handlers with
  | none => .error (.unhandled effect [])
  | some dispatch =>
      let handler := dispatch.handler
      let masked := { popped with handlers := dispatch.staying }
      let withHandler ← masked.push (.closure handler.closure)
      let withPayload ← withHandler.push payload
      let called ← withPayload.call 1
      called.tie
        { resumeInto := popped.topIndex
          handlerFrame := handler.frame
          depth := handler.depth
          target := handler.target
          groupStart := dispatch.staying.length
          stash := dispatch.stash }

/-- The boxes in the given slots of a frame. -/
def captureBoxes (frame : Frame) : List UInt8 → Except Failure (List Nat)
  | [] => .ok []
  | slot :: slots => do
      match ← frame.slot slot with
      | .box cell =>
          let cells ← captureBoxes frame slots
          return cell :: cells
      | other =>
          .error (.fault (.corrupt
            (.capturedSlotUnboxed slot frame.template.name other.typeName)))

/-- Pushes a closure of the template at an index of the constant pool. -/
def makeClosure (machine : Machine) (index : UInt8) :
    Except Failure Machine := do
  let frame ← machine.top
  match frame.template.constant? index with
  | some (.function _ template) =>
      let boxes ← captureBoxes frame template.capturesOuter
      (machine.take 1).push (.closure ⟨machine.store.unused, template, boxes⟩)
  | _ => .error (.fault (.corrupt (.notAFunction index)))

end Machine

end EffectScript
