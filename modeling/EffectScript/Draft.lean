import EffectScript.Draft.Error
import EffectScript.Instruction
import EffectScript.Value.Equality

/-!
# Functions under construction

A draft is a function whose code is still being written. Code is appended
instruction by instruction; jumps are written with a placeholder distance and
patched once their destination is known.

Two operations look back at code that was already written. *Promotion* turns
every direct access to a slot into an access through its box. *Discarding*
removes a trailing instruction that only pushes the result of a statement,
instead of popping that result; the draft remembers where such an instruction
stands and forgets it as soon as something may jump behind it.
-/

namespace EffectScript

/-- What becomes of a statement's result that nobody uses. -/
inductive StatementNils where
  /-- The instruction that pushes it is removed. -/
  | elided
  /-- It is pushed and popped. -/
  | kept
deriving DecidableEq

/-- A function under construction. -/
structure Draft where
  name : String
  arity : Nat := 0
  code : Array UInt8 := #[]
  constants : List Value := []
  names : List String := []
  /-- The index of every name. -/
  nameIndices : Dictionary String UInt8 := []
  /-- The slots that hold boxes, in ascending order. -/
  heapSlots : List UInt8 := []
  /-- Slots of the enclosing function with the own slots that receive their
  boxes, in order. -/
  captures : List (UInt8 × UInt8) := []
  debug : DebugTables := {}
  /-- The offset of a trailing instruction that only pushes the result of a
  statement. -/
  removable : Option Nat := none

namespace Draft

/-! ## Slots -/

/-- The names that have a slot, the newest one first. -/
def slots (draft : Draft) : List (String × UInt8) :=
  draft.debug.slotNames.reverse

@[simp]
theorem reverse_slots (draft : Draft) :
    draft.slots.reverse = draft.debug.slotNames :=
  List.reverse_reverse _

/-- The slot of a name; of two slots of one name the newer one counts. -/
def slot? (draft : Draft) (name : String) : Option UInt8 :=
  draft.slots.lookup name

/-- Whether a slot holds a box. -/
def isHeap (draft : Draft) (slot : UInt8) : Bool :=
  draft.heapSlots.contains slot

/-- The draft with another slot for a name. -/
def addSlot (draft : Draft) (name : String) (slot : UInt8) : Draft :=
  { draft with debug := draft.debug.addSlotName name slot }

@[simp]
theorem slots_addSlot (draft : Draft) (name : String) (slot : UInt8) :
    (draft.addSlot name slot).slots = (name, slot) :: draft.slots := by
  simp [slots, addSlot, DebugTables.addSlotName]

@[simp]
theorem code_addSlot (draft : Draft) (name : String) (slot : UInt8) :
    (draft.addSlot name slot).code = draft.code := rfl

theorem length_slots_addSlot (draft : Draft) (name : String) (slot : UInt8) :
    (draft.addSlot name slot).slots.length = draft.slots.length + 1 := by
  rw [slots_addSlot, List.length_cons]

/-- Gives a name the next slot. -/
def declare (draft : Draft) (name : String) (line : UInt32) :
    Except CompileError (UInt8 × Draft) :=
  if draft.slots.length < Resource.locals.limit then
    let slot := UInt8.ofNat draft.slots.length
    .ok (slot, draft.addSlot name slot)
  else .error (.tooMany .locals line)

/-- Gives several names the next slots. -/
def declareAll (draft : Draft) (line : UInt32) :
    List String → Except CompileError Draft
  | [] => .ok draft
  | name :: names => do
      let (_, declared) ← draft.declare name line
      declared.declareAll line names

/-- A draft with slots for its own name and its parameters. -/
def start (name : String) (parameters : List String) (line : UInt32) :
    Except CompileError Draft :=
  ({ name := name, arity := parameters.length } : Draft).declareAll line
    (name :: parameters)

/-- Adds a slot to slots in ascending order. -/
def insertSlot (slot : UInt8) : List UInt8 → List UInt8
  | [] => [slot]
  | other :: rest =>
      if slot < other then slot :: other :: rest
      else if slot = other then other :: rest
      else other :: insertSlot slot rest

/-- Gives a name the next slot, which receives the box in a slot of the
enclosing function. -/
def declareCapture
    (draft : Draft) (name : String) (outerSlot : UInt8) (line : UInt32) :
    Except CompileError (UInt8 × Draft) := do
  let (slot, declared) ← draft.declare name line
  return (slot, { declared with
    heapSlots := insertSlot slot declared.heapSlots
    captures := declared.captures ++ [(outerSlot, slot)] })

/-- The code after one instruction of it is promoted, if it accesses the slot
directly. -/
def promoteInstruction
    (slot : UInt8) (code : Array UInt8)
    (instruction : Instruction) : Array UInt8 :=
  match instruction.opcode.promoted? with
  | some boxed =>
      if instruction.byte = slot then
        code.setIfInBounds instruction.offset boxed.toByte else code
  | none => code

/-- Moves a slot into a box: all direct accesses to it now go through the
box. -/
def promote (draft : Draft) (slot : UInt8) : Draft :=
  if draft.isHeap slot then draft
  else
    { draft with
      heapSlots := insertSlot slot draft.heapSlots
      code := (Instruction.walk draft.code).instructions.foldl
        (promoteInstruction slot) draft.code }

/-! ## Code -/

/-- Appends an instruction. -/
def emit
    (draft : Draft) (opcode : Opcode) (operands : List UInt8)
    (line : UInt32) : Draft :=
  { draft with
    code := draft.code ++ (opcode.toByte :: operands).toArray
    debug := draft.debug.addLine line (operands.length + 1)
    removable := none }

/-- Appends the push of a statement's result. -/
def emitStatementNil (draft : Draft) (line : UInt32) : Draft :=
  let offset := draft.code.size
  { draft.emit .pushNil [] line with removable := some offset }

/-- Throws away the value that the code so far leaves on the stack. -/
def discard (draft : Draft) (nils : StatementNils) (line : UInt32) : Draft :=
  match nils, draft.removable with
  | .elided, some offset =>
      if offset + 1 = draft.code.size then
        { draft with
          code := draft.code.pop
          debug := { draft.debug with lines := draft.debug.lines.pop }
          removable := none }
      else draft.emit .pop [] line
  | _, _ => draft.emit .pop [] line

/-- Makes the end of the code a destination: its last instruction has to
stay. -/
def label (draft : Draft) : Draft :=
  { draft with removable := none }

/-- Appends a jump whose distance is still to be patched. -/
def emitJump (draft : Draft) (opcode : Opcode) (line : UInt32) : Draft :=
  draft.emit opcode [255, 255] line

/-- Appends the registration of a handler whose distance is still to be
patched. -/
def emitSetHandler (draft : Draft) (effect : UInt8) (line : UInt32) : Draft :=
  draft.emit .setHandler [effect, 255, 255] line

/-- Writes the distance from `origin` to the end of the code into the two bytes
before `origin`. -/
def patchTo (draft : Draft) (origin : Nat) (line : UInt32) :
    Except CompileError Draft :=
  let distance := draft.code.size - origin
  if distance ≤ Resource.jumpBytes.limit then
    .ok { draft with
      code :=
        (draft.code.setIfInBounds (origin - 2)
          (UInt8.ofNat (distance / 256))).setIfInBounds
        (origin - 1) (UInt8.ofNat (distance % 256))
      removable := none }
  else .error (.tooMany .jumpBytes line)

/-- Lets the jump at a site lead to the end of the code. -/
def patchJump (draft : Draft) (site : Nat) (line : UInt32) :
    Except CompileError Draft :=
  draft.patchTo (site + 3) line

/-- Lets the handler registration at a site lead to the end of the code. -/
def patchHandler (draft : Draft) (site : Nat) (line : UInt32) :
    Except CompileError Draft :=
  draft.patchTo (site + 4) line

/-- Appends a jump back to an earlier offset. -/
def emitLoop (draft : Draft) (destination : Nat) (line : UInt32) :
    Except CompileError Draft :=
  let distance := draft.code.size + 3 - destination
  if distance ≤ Resource.loopBytes.limit then
    .ok (draft.emit .loop (Instruction.shortBytes distance) line)
  else .error (.tooMany .loopBytes line)

/-- Appends a comment. -/
def addComment (draft : Draft) (text : String) (line : UInt32) : Draft :=
  let commented := draft.emit .comment [] line
  { commented with debug := commented.debug.addComment draft.code.size text }

/-- The line of the last code byte, or the given one when there is no code. -/
def lastLine (draft : Draft) (line : UInt32) : UInt32 :=
  draft.debug.lines.back?.getD line

/-! ## Pools -/

/-- The index of a constant, which is added unless it is a scalar that is there
already. -/
def addConstant (draft : Draft) (value : Value) (line : UInt32) :
    Except CompileError (UInt8 × Draft) :=
  match draft.constants.findIdx? fun other =>
    value.isScalar && other.isScalar && other.eq value with
  | some index => .ok (UInt8.ofNat index, draft)
  | none =>
      if draft.constants.length < Resource.constants.limit then
        .ok (UInt8.ofNat draft.constants.length,
          { draft with constants := draft.constants ++ [value] })
      else .error (.tooMany .constants line)

/-- The index of a name, which is added unless it has one already. -/
def nameIndex (draft : Draft) (name : String) (line : UInt32) :
    Except CompileError (UInt8 × Draft) :=
  match draft.nameIndices.find? name with
  | some index => .ok (index, draft)
  | none =>
      if draft.names.length < Resource.names.limit then
        let index := UInt8.ofNat draft.names.length
        .ok (index, { draft with
          names := draft.names ++ [name]
          nameIndices := draft.nameIndices.insert name index })
      else .error (.tooMany .names line)

/-! ## The finished function -/

/-- The function that a draft has become. -/
def finish (draft : Draft) : Template :=
  { name := draft.name
    arity := draft.arity
    locals := draft.slots.length
    code := draft.code
    constants := draft.constants
    names := draft.names
    debug := draft.debug
    capturesOuter := draft.captures.map (·.1)
    capturesInner := draft.captures.map (·.2)
    heapSlots := draft.heapSlots }

end Draft

end EffectScript
