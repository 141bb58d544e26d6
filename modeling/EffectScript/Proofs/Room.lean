import EffectScript.Lowering
import EffectScript.Proofs.Outcome

/-!
# Room in functions under construction

Operands of one byte count slots, constants and names, and distances of two
bytes span the code: so a function has only so much room. What writing takes of
it is counted in advance. A program of some size may give every function under
construction a slot, a constant, a name and a few bytes for each of its parts;
what is written into a function takes away from the room that is left. The
compiler runs out of room only where a program is larger than its operands can
count.
-/

namespace EffectScript

open Outcome (Ends)

/-! ## Amounts of room -/

/-- How much one function still takes up. -/
structure Room where
  slots : Nat
  constants : Nat
  names : Nat
  bytes : Nat

namespace Room

/-- Room for both. -/
instance : Add Room :=
  ⟨fun first second =>
    ⟨first.slots + second.slots, first.constants + second.constants,
    first.names + second.names, first.bytes + second.bytes⟩⟩

instance : LE Room :=
  ⟨fun first second => first.slots ≤ second.slots ∧
      first.constants ≤ second.constants ∧
    first.names ≤ second.names ∧ first.bytes ≤ second.bytes⟩

/-- Room for parts of a program. Each of them brings at most one of a kind to a
function, and less code than here is room for. -/
@[simp]
def forUnits (count : Nat) : Room :=
  ⟨count, count, count, 16 * count⟩

@[simp]
def forSlots (count : Nat) : Room :=
  ⟨count, 0, 0, 0⟩

@[simp]
def forConstant : Room :=
  ⟨0, 1, 0, 0⟩

@[simp]
def forName : Room :=
  ⟨0, 0, 1, 0⟩

@[simp]
def forBytes (count : Nat) : Room :=
  ⟨0, 0, 0, count⟩

variable (first second : Room)

@[simp]
theorem slots_add : (first + second).slots = first.slots + second.slots := rfl

@[simp]
theorem constants_add :
    (first + second).constants = first.constants + second.constants := rfl

@[simp]
theorem names_add : (first + second).names = first.names + second.names := rfl

@[simp]
theorem bytes_add : (first + second).bytes = first.bytes + second.bytes := rfl

variable {first second}

@[simp]
theorem le_iff :
    first ≤ second ↔ first.slots ≤ second.slots ∧
    first.constants ≤ second.constants ∧
      first.names ≤ second.names ∧ first.bytes ≤ second.bytes := Iff.rfl

end Room

open Room

/-- The error says that there is too much of something. -/
def CompileError.IsTooMany (error : CompileError) : Prop :=
  ∃ resource line, error = .tooMany resource line

/-- The computation succeeds with a good result and then there are no flaws, or
it fails with one of the flaws; or it runs out of room, which happens only to
large programs. -/
def Judges {α : Type}
    (units : Nat)
    (flaws : List CompileError)
    (good : α → Prop) :
    Except CompileError α → Prop :=
  Ends (fun error => error ∈ flaws ∨ error.IsTooMany ∧ 255 < units)
    fun result => flaws = [] ∧ good result

namespace Judges

variable {α β : Type} {units : Nat} {flaws others : List CompileError}
    {good : α → Prop} {better : β → Prop} {computation : Except CompileError α}
    {later : α → Except CompileError β}

theorem ok {result : α} (isGood : good result) :
    Judges units [] good (.ok result) :=
  ⟨rfl, isGood⟩

theorem flaw {error : CompileError} (isFlaw : error ∈ flaws) :
    Judges units flaws good (.error error) :=
  .inl isFlaw

theorem tooMany {resource : Resource} {line : UInt32} (large : 255 < units) :
    Judges units flaws good (.error (.tooMany resource line)) :=
  .inr ⟨⟨resource, line, rfl⟩, large⟩

/-- The flaws of a sequence are those of its parts. -/
theorem bind
    (judges : Judges units flaws good computation)
    (next : ∀ result, good result → Judges units others better (later result)) :
    Judges units (flaws ++ others) better (computation >>= later) := by
  cases computation with
  | ok result =>
      obtain ⟨rfl, isGood⟩ := judges
      exact next result isGood
  | error cause => exact Or.imp_left (List.mem_append_left others) judges

/-- A sequence whose second part has no flaws. -/
theorem last
    (judges : Judges units flaws good computation)
    (next : ∀ result, good result → Judges units [] better (later result)) :
    Judges units flaws better (computation >>= later) := by
  have judged := judges.bind next
  rwa [List.append_nil] at judged

/-- A sequence whose first part has no flaws. -/
theorem next
    (judges : Judges units [] good computation)
    (next : ∀ result, good result → Judges units flaws better (later result)) :
    Judges units flaws better (computation >>= later) :=
  judges.bind next

theorem imp {more : α → Prop}
    (judges : Judges units flaws good computation)
    (weaker : ∀ result, good result → more result) :
    Judges units flaws more computation :=
  Ends.imp judges fun result ⟨flawless, isGood⟩ =>
    ⟨flawless, weaker result isGood⟩

end Judges

/-! ## Room in drafts -/

/-- With the room the function holds no more than a program of so many units may
give it. The slot of its own name comes with the function. -/
structure Draft.Spares (units : Nat) (room : Room) (draft : Draft) : Prop where
  slots : draft.slots.length - 1 + room.slots ≤ units
  constants : draft.constants.length + room.constants ≤ units
  names : draft.names.length + room.names ≤ units
  bytes : draft.code.size + room.bytes ≤ 16 * (units + 1)

/-- All functions under construction have the room. -/
structure Nest.Spares (units : Nat) (room : Room) (nest : Nest) : Prop where
  current : nest.current.Spares units room
  enclosing : ∀ draft ∈ nest.enclosing, draft.Spares units room

variable {units : Nat} {cost room : Room}

namespace Draft.Spares

variable {draft : Draft}

theorem less {fewer : Room}
    (spares : draft.Spares units room)
    (less : fewer ≤ room) :
    draft.Spares units fewer := by
  obtain ⟨slots, constants, names, bytes⟩ := spares
  obtain ⟨fewerSlots, fewerConstants, fewerNames, fewerBytes⟩ :=
    Room.le_iff.1 less
  exact ⟨by omega, by omega, by omega, by omega⟩

theorem drop (spares : draft.Spares units (cost + room)) :
    draft.Spares units room :=
  spares.less (by simp)

theorem emit
    (opcode : Opcode) (operands : List UInt8) (line : UInt32)
    (spares : draft.Spares units (forBytes (operands.length + 1) + room)) :
    (draft.emit opcode operands line).Spares units room := by
  refine { spares.drop with bytes := ?_ }
  have bytes := spares.bytes
  simp only [bytes_add, forBytes] at bytes
  simp only [Draft.emit, Array.size_append, List.size_toArray, List.length_cons]
  omega

theorem discard
    (nils : StatementNils) (line : UInt32)
    (spares : draft.Spares units (forBytes 1 + room)) :
    (draft.discard nils line).Spares units room := by
  unfold Draft.discard
  split
  · split
    · refine { spares.drop with bytes := ?_ }
      have bytes := spares.drop.bytes
      simp only [Array.size_pop]
      omega
    · exact spares.emit _ [] _
  · exact spares.emit _ [] _

theorem size_foldl_promoteInstruction
    (slot : UInt8)
    (instructions : List Instruction)
    (code : Array UInt8) :
    (instructions.foldl (promoteInstruction slot) code).size = code.size := by
  induction instructions generalizing code with
  | nil => rfl
  | cons instruction instructions inner =>
      rw [List.foldl_cons, inner]
      unfold promoteInstruction
      split
      · split
        · exact Array.size_setIfInBounds
        · rfl
      · rfl

theorem promote (slot : UInt8) (spares : draft.Spares units room) :
    (draft.promote slot).Spares units room := by
  unfold Draft.promote
  split
  · exact spares
  · exact { spares with bytes := (size_foldl_promoteInstruction slot _ _).symm ▸
      spares.bytes }

theorem declare
    (name : String) (line : UInt32)
    (spares : draft.Spares units (forSlots 1 + room)) :
    Judges units [] (fun declared => declared.2.Spares units room)
      (draft.declare name line) := by
  have slots := spares.slots
  simp only [slots_add, forSlots] at slots
  unfold Draft.declare
  split
  · refine .ok { spares.drop with slots := ?_ }
    simp only [Draft.length_slots_addSlot]
    omega
  next full => exact .tooMany (by simp only [Resource.limit] at full; omega)

theorem declareAll
    (line : UInt32) (names : List String)
    (spares : draft.Spares units (forSlots names.length + room)) :
    Judges units [] (Draft.Spares units room)
      (draft.declareAll line names) := by
  induction names generalizing draft with
  | nil => exact .ok spares.drop
  | cons name names inner =>
      have first : draft.Spares units
          (forSlots 1 + (forSlots names.length + room)) :=
        spares.less (by simp; omega)
      exact (first.declare name line).next fun _ rest => inner rest

/-- A new function takes no more room than the one that it is in, besides that
for its parameters. -/
theorem start
    (name : String) (parameters : List String) (line : UInt32)
    (spares : draft.Spares units (forSlots parameters.length + room)) :
    Judges units [] (Draft.Spares units room)
      (Draft.start name parameters line) := by
  -- The first slot is that of the own name, which needs no room.
  have begun :
      (({ name, arity := parameters.length } : Draft).addSlot name 0).Spares
      units (forSlots parameters.length + room) :=
    { slots := by
        rw [Draft.length_slots_addSlot]
        simpa [Draft.slots]
          using Nat.le_trans (Nat.le_add_left _ _) spares.slots
      constants := by simpa [Draft.addSlot]
        using Nat.le_trans (Nat.le_add_left _ _) spares.constants
      names := by simpa [Draft.addSlot]
        using Nat.le_trans (Nat.le_add_left _ _) spares.names
      bytes := by simpa [Draft.addSlot]
        using Nat.le_trans (Nat.le_add_left _ _) spares.bytes }
  exact begun.declareAll line parameters

theorem declareCapture
    (name : String) (outerSlot : UInt8) (line : UInt32)
    (spares : draft.Spares units (forSlots 1 + room)) :
    Judges units [] (fun declared => declared.2.Spares units room)
      (draft.declareCapture name outerSlot line) :=
  (spares.declare name line).next fun _ declared => .ok { declared with }

theorem patchTo
    (origin : Nat) (line : UInt32)
    (spares : draft.Spares units room) :
    Judges units [] (Draft.Spares units room) (draft.patchTo origin line) := by
  have bytes := spares.bytes
  unfold Draft.patchTo
  simp only
  split
  · exact .ok { spares with bytes := by simpa using bytes }
  next far => exact .tooMany (by simp only [Resource.limit] at far; omega)

theorem emitLoop
    (destination : Nat) (line : UInt32)
    (spares : draft.Spares units (forBytes 3 + room)) :
    Judges units [] (Draft.Spares units room)
      (draft.emitLoop destination line) := by
  have bytes := spares.bytes
  simp only [bytes_add, forBytes] at bytes
  unfold Draft.emitLoop
  simp only
  split
  · exact .ok (spares.emit _ (Instruction.shortBytes _) _)
  next far => exact .tooMany (by simp only [Resource.limit] at far; omega)

theorem nameIndex
    (name : String) (line : UInt32)
    (spares : draft.Spares units (forName + room)) :
    Judges units [] (fun indexed => indexed.2.Spares units room)
      (draft.nameIndex name line) := by
  have names := spares.names
  simp only [names_add, forName] at names
  unfold Draft.nameIndex
  split
  · exact .ok spares.drop
  · split
    · refine .ok { spares.drop with names := ?_ }
      simp only [List.length_append, List.length_singleton]
      omega
    next full => exact .tooMany (by simp only [Resource.limit] at full; omega)

theorem addConstant
    (value : Value) (line : UInt32)
    (spares : draft.Spares units (forConstant + room)) :
    Judges units [] (fun pooled => pooled.2.Spares units room)
      (draft.addConstant value line) := by
  have constants := spares.constants
  simp only [constants_add, forConstant] at constants
  unfold Draft.addConstant
  split
  · exact .ok spares.drop
  · split
    · refine .ok { spares.drop with constants := ?_ }
      simp only [List.length_append, List.length_singleton]
      omega
    next full => exact .tooMany (by simp only [Resource.limit] at full; omega)

theorem addComment
    (text : String) (line : UInt32)
    (spares : draft.Spares units (forBytes 1 + room)) :
    (draft.addComment text line).Spares units room :=
  { spares.emit .comment [] line with }

end Draft.Spares

/-! ## Room in nests -/

namespace Nest.Spares

variable {nest : Nest}

theorem less {fewer : Room}
    (spares : nest.Spares units room)
    (less : fewer ≤ room) :
    nest.Spares units fewer :=
  ⟨spares.current.less less, fun draft member =>
    (spares.enclosing draft member).less less⟩

theorem drop (spares : nest.Spares units (cost + room)) :
    nest.Spares units room :=
  spares.less (by simp)

theorem write {draft : Draft}
    (spares : nest.Spares units room)
    (written : draft.Spares units room) :
    ({ nest with current := draft } : Nest).Spares units room :=
  ⟨written, spares.enclosing⟩

theorem emit
    (opcode : Opcode) (operands : List UInt8) (line : UInt32)
    (spares : nest.Spares units (forBytes (operands.length + 1) + room)) :
    (nest.emit opcode operands line).Spares units room :=
  spares.drop.write (spares.current.emit opcode operands line)

theorem emitStatementNil
    (line : UInt32)
    (spares : nest.Spares units (forBytes 1 + room)) :
    (nest.emitStatementNil line).Spares units room :=
  spares.drop.write { spares.current.emit .pushNil [] line with }

theorem discard
    (nils : StatementNils) (line : UInt32)
    (spares : nest.Spares units (forBytes 1 + room)) :
    (nest.discard nils line).Spares units room :=
  spares.drop.write (spares.current.discard nils line)

theorem emitStore
    (target : StoreTarget) (line : UInt32)
    (spares : nest.Spares units (forBytes 2 + room)) :
    (nest.emitStore target line).Spares units room := by
  cases target <;> exact spares.emit _ [_] _

/-- A name that is found takes a slot in every function that it is captured by;
one that is not found takes nothing. -/
theorem resolveFrom
    (name : String) (line : UInt32)
    {current : Draft} {enclosing : List Draft}
    (spares : current.Spares units (forSlots 1 + room))
    (around : ∀ draft ∈ enclosing, draft.Spares units (forSlots 1 + room)) :
    Judges units [] (fun resolved =>
        (resolved.1 = none → resolved.2.1.Spares units (forSlots 1 + room) ∧
          ∀ draft ∈ resolved.2.2, draft.Spares units (forSlots 1 + room)) ∧
        resolved.2.1.Spares units room ∧ ∀ draft ∈ resolved.2.2,
          draft.Spares units room)
      (Nest.resolveFrom name line current enclosing) := by
  induction enclosing generalizing current with
  | nil => exact .ok ⟨fun _ => ⟨spares, around⟩, spares.drop, by simp⟩
  | cons outer beyond inner =>
      have dropped : ∀ draft ∈ outer :: beyond, draft.Spares units room :=
        fun draft member => (around draft member).drop
      unfold Nest.resolveFrom
      split
      · exact .ok ⟨fun _ => ⟨spares, around⟩, spares.drop, dropped⟩
      · split
        · exact .ok ⟨fun _ => ⟨spares, around⟩, spares.drop, dropped⟩
        · obtain ⟨outerSpares, beyondSpare⟩ := List.forall_mem_cons.1 around
          refine (inner outerSpares beyondSpare).next
            fun ⟨found, outerAfter, beyondAfter⟩ kept => ?_
          obtain ⟨unchanged, outerKept, beyondKept⟩ := kept
          cases found with
          | none =>
              obtain ⟨outerSame, beyondSame⟩ := unchanged rfl
              exact .ok
                ⟨fun _ => ⟨spares, List.forall_mem_cons.2
                  ⟨outerSame, beyondSame⟩⟩, spares.drop,
                List.forall_mem_cons.2 ⟨outerKept, beyondKept⟩⟩
          | some outerSlot =>
              refine (spares.declareCapture name outerSlot line).next
                fun _ captured => ?_
              exact .ok ⟨nofun, captured,
                List.forall_mem_cons.2
                  ⟨outerKept.promote outerSlot, beyondKept⟩⟩

theorem resolve
    (name : String) (line : UInt32)
    (spares : nest.Spares units (forSlots 1 + room)) :
    Judges units [] (fun resolved =>
        (resolved.1 = none → resolved.2.Spares units (forSlots 1 + room)) ∧
        resolved.2.Spares units room)
      (nest.resolve name line) :=
  (resolveFrom name line spares.current spares.enclosing).next fun _ kept =>
    .ok ⟨fun missing => ⟨(kept.1 missing).1, (kept.1 missing).2⟩,
      kept.2.1, kept.2.2⟩

theorem nameIndex
    (name : String) (line : UInt32)
    (spares : nest.Spares units (forName + room)) :
    Judges units [] (fun indexed => indexed.2.Spares units room)
      (nest.nameIndex name line) :=
  (spares.current.nameIndex name line).next fun _ named =>
    .ok (spares.drop.write named)

theorem emitNamed
    (opcode : Opcode) (name : String) (line : UInt32)
    (spares : nest.Spares units (forName + (forBytes 2 + room))) :
    Judges units [] (Nest.Spares units room)
      (nest.emitNamed opcode name line) :=
  (spares.nameIndex name line).next fun _ named => .ok (named.emit _ [_] _)

theorem emitConstant
    (value : Value) (line : UInt32)
    (spares : nest.Spares units (forConstant + (forBytes 2 + room))) :
    Judges units [] (Nest.Spares units room) (nest.emitConstant value line) :=
  (spares.current.addConstant value line).next fun _ pooled =>
    .ok ((spares.drop.write pooled).emit _ [_] _)

theorem emitClosure
    (template : Template) (line : UInt32)
    (spares : nest.Spares units (forConstant + (forBytes 2 + room))) :
    Judges units [] (Nest.Spares units room)
      (nest.emitClosure template line) := by
  refine (spares.current.addConstant _ line).next fun _ pooled => .ok ?_
  exact ⟨pooled.emit _ [_] _, spares.drop.drop.enclosing⟩

theorem storeTarget
    (name : String) (line : UInt32)
    (spares : nest.Spares units (forSlots 1 + (forName + room))) :
    Judges units [] (fun targeted => targeted.2.Spares units room)
      (nest.storeTarget name line) := by
  refine (spares.resolve name line).next fun ⟨found, resolved⟩
    ⟨unchanged, kept⟩ => ?_
  cases found with
  | some slot => exact .ok kept.drop
  | none =>
      simp only
      split
      · exact (kept.nameIndex name line).next fun _ named => .ok named
      · have same := unchanged rfl
        exact (same.current.declare name line).next fun _ declared =>
          .ok (kept.drop.write (declared.less (by simp)))

theorem patchJump
    (site : Nat) (line : UInt32)
    (spares : nest.Spares units room) :
    Judges units [] (Nest.Spares units room) (nest.patchJump site line) :=
  (spares.current.patchTo _ line).next fun _ patched =>
    .ok (spares.write patched)

theorem patchHandlers
    (line : UInt32) (sites : List Nat)
    (spares : nest.Spares units room) :
    Judges units [] (Nest.Spares units room)
      (nest.patchHandlers line sites) := by
  induction sites generalizing nest with
  | nil => exact .ok spares
  | cons site sites inner =>
      exact (spares.current.patchTo _ line).next fun _ patched =>
        inner (spares.write patched)

theorem enter {draft : Draft}
    (line : UInt32)
    (spares : nest.Spares units room)
    (begun : draft.Spares units (forBytes 1 + room)) :
    (nest.enter draft line).Spares units room :=
  ⟨begun.addComment draft.name line,
    List.forall_mem_cons.2 ⟨spares.current, spares.enclosing⟩⟩

/-- What a finished function took up does not matter to those around it. -/
theorem leave {outer : Nest}
    (line : UInt32)
    (spares : nest.Spares units room)
    (around : outer.Spares units room) :
    (nest.leave outer line).2.Spares units room := by
  refine ⟨?_, fun draft member => spares.enclosing draft
    (List.mem_of_mem_tail member)⟩
  show (nest.enclosing.headD outer.current).Spares units room
  cases enclosing : nest.enclosing with
  | nil => exact around.current
  | cons first others =>
      exact spares.enclosing first (enclosing ▸ List.mem_cons_self)

end Nest.Spares

end EffectScript
