import EffectScript.Proofs.Drafting

/-!
# Records of what operations return

Operations on a draft return indices and offsets that others rely on later: the
indices of constants and names stand in operands, distances are patched at the
offsets of jumps and of registrations, and repetitions lead back to labels. A
record keeps the draft together with everything that was returned so far, so
that statements about a draft can speak of its whole past.

Nothing is assumed about the order of the operations. An operation that fails
changes nothing.
-/

namespace EffectScript.Draft

/-- An operation on a draft. -/
inductive Operation where
  | declare (name : String)
  | declareCapture (name : String) (outer : UInt8)
  | addConstant (value : Value)
  | nameIndex (name : String)
  | promote (slot : UInt8)
  | emit (opcode : Opcode) (operands : List UInt8)
  | addComment (text : String)
  | emitStatementNil
  | discard (nils : StatementNils)
  | label
  | emitJump (opcode : Opcode)
  | emitSetHandler (effect : UInt8)
  | patchJump (site : Nat)
  | patchHandler (site : Nat)
  | emitLoop (destination : Nat)

/-- A draft with what the operations on it have returned, the newest first. -/
structure Record where
  draft : Draft
  /-- The constants that were asked for, with the indices that they were
  given. -/
  constants : List (Value × UInt8) := []
  /-- The names that were asked for, with the indices that they were given. -/
  names : List (String × UInt8) := []
  jumps : List Nat := []
  handlers : List Nat := []
  labels : List Nat := []
  /-- The offsets that were patched, with the ends of the code to which they
  were to lead. -/
  patches : List (Nat × Nat) := []

/-- Nothing was written into the draft yet. -/
structure Unwritten (draft : Draft) : Prop where
  code : draft.code = #[]
  lines : draft.debug.lines = #[]
  constants : draft.constants = []
  names : draft.names = []
  nameIndices : draft.nameIndices = []
  removable : draft.removable = none

/-- A draft that has just been started is unwritten. -/
theorem unwritten_start {name : String}
    {parameters : List String} {line : UInt32} {draft : Draft}
    (started : Draft.start name parameters line = .ok draft) :
    draft.Unwritten := by
  obtain ⟨slotNames, rfl, _⟩ :=
    declareAll_spec started (Nat.zero_le _) (by simp [slots])
  constructor <;> rfl

namespace Record

/-- The record after an operation at a line. -/
def perform (record : Record) (line : UInt32) :
    Operation → Except CompileError Record
  | .declare name => do
      let (_, draft) ← record.draft.declare name line
      return { record with draft := draft }
  | .declareCapture name outer => do
      let (_, draft) ← record.draft.declareCapture name outer line
      return { record with draft := draft }
  | .addConstant value => do
      let (index, draft) ← record.draft.addConstant value line
      return { record with draft := draft, constants :=
        (value, index) :: record.constants }
  | .nameIndex name => do
      let (index, draft) ← record.draft.nameIndex name line
      return { record with draft := draft, names :=
        (name, index) :: record.names }
  | .promote slot => return { record with draft := record.draft.promote slot }
  | .emit opcode operands =>
      return { record with draft := record.draft.emit opcode operands line }
  | .addComment text =>
      return { record with draft := record.draft.addComment text line }
  | .emitStatementNil =>
      return { record with draft := record.draft.emitStatementNil line }
  | .discard nils =>
      return { record with draft := record.draft.discard nils line }
  | .label =>
      return { record with draft := record.draft.label, labels :=
        record.draft.code.size :: record.labels }
  | .emitJump opcode =>
      return { record with
        draft := record.draft.emitJump opcode line
        jumps := record.draft.code.size :: record.jumps }
  | .emitSetHandler effect =>
      return { record with
        draft := record.draft.emitSetHandler effect line
        handlers := record.draft.code.size :: record.handlers }
  | .patchJump site => do
      let draft ← record.draft.patchJump site line
      return { record with draft := draft, patches :=
        (site, record.draft.code.size) :: record.patches }
  | .patchHandler site => do
      let draft ← record.draft.patchHandler site line
      return { record with draft := draft, patches :=
        (site, record.draft.code.size) :: record.patches }
  | .emitLoop destination => do
      let draft ← record.draft.emitLoop destination line
      return { record with draft := draft }

/-- The record after an operation that may fail. -/
def after (record : Record) (line : UInt32) (operation : Operation) : Record :=
  match record.perform line operation with
  | .ok later => later
  | .error _ => record

/-- The record after operations with their lines, in order. -/
def run (record : Record) : List (UInt32 × Operation) → Record
  | [] => record
  | (line, operation) :: others => (record.after line operation).run others

/-- Instructions get the operands that they take, and offsets are those that
were returned for the purpose. -/
def Admits (record : Record) : Operation → Prop
  | .emit opcode operands => operands.length = opcode.operandCount
  | .emitJump opcode => opcode.operandCount = 2
  | .patchJump site => site ∈ record.jumps
  | .patchHandler site => site ∈ record.handlers
  | .emitLoop destination => destination ∈ record.labels
  | _ => True

/-- Every operation meets the condition when its turn comes. -/
def Meets (condition : Record → Operation → Prop) (record : Record) :
    List (UInt32 × Operation) → Prop
  | [] => True
  | (line, operation) :: others =>
      condition record operation ∧
      (record.after line operation).Meets condition others

/-- Every operation is admitted when its turn comes. -/
def AdmitsAll (record : Record) (operations : List (UInt32 × Operation)) :
    Prop :=
  record.Meets Admits operations

namespace Meets

variable {condition other : Record → Operation → Prop}
    {operations : List (UInt32 × Operation)} {record : Record}

theorem take (met : record.Meets condition operations) (count : Nat) :
    record.Meets condition (operations.take count) := by
  induction operations generalizing record count with
  | nil =>
      rw [List.take_nil]
      exact trivial
  | cons entry others inner =>
      cases count with
      | zero => exact trivial
      | succ count => exact ⟨met.1, inner met.2 count⟩

theorem and
    (met : record.Meets condition operations)
    (metToo : record.Meets other operations) :
    record.Meets (fun record operation => condition record operation ∧
      other record operation)
      operations := by
  induction operations generalizing record with
  | nil => exact trivial
  | cons entry others inner => exact ⟨⟨met.1, metToo.1⟩, inner met.2 metToo.2⟩

end Meets

theorem meets_true (record : Record) (operations : List (UInt32 × Operation)) :
    record.Meets (fun _ _ => True) operations := by
  induction operations generalizing record with
  | nil => exact trivial
  | cons entry others inner => exact ⟨trivial, inner _⟩

/-- What every operation keeps that meets a condition holds after all of them,
if each does. -/
theorem run_keeps_of_meets
    (holds : Record → Prop)
    {condition : Record → Operation → Prop}
    (keeps : ∀ {record later : Record} {line : UInt32} {operation : Operation},
      holds record → condition record operation →
      record.perform line operation = .ok later → holds later)
    {operations : List (UInt32 × Operation)} {record : Record}
    (start : holds record)
    (met : record.Meets condition operations) :
    holds (record.run operations) := by
  induction operations generalizing record with
  | nil => exact start
  | cons entry others inner =>
      obtain ⟨first, rest⟩ := met
      refine inner ?_ rest
      unfold after
      split
      next performed => exact keeps start first performed
      next => exact start

/-- What every operation keeps holds after all of them. -/
theorem run_keeps
    (holds : Record → Prop)
    (keeps : ∀ {record later : Record} {line : UInt32} {operation : Operation},
      holds record → record.perform line operation = .ok later → holds later)
    (operations : List (UInt32 × Operation))
    {record : Record}
    (start : holds record) :
    holds (record.run operations) :=
  run_keeps_of_meets holds (fun held _ performed => keeps held performed) start
    (record.meets_true operations)

end Record

end EffectScript.Draft
