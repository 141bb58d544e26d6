import EffectScript.Draft

/-!
# Assembled code

Code is written as a sequence of *emissions*: operations with their operand
bytes, without offsets. An access to a variable is always emitted in its direct
form. Whether it goes through a box is decided when the emissions are assembled,
by the set of slots that hold boxes. So promoting a slot does not change the
emissions of a function; it only assembles them again with one more slot in the
heap.

The main statements say that decoding and walking assembled code gives back its
emissions, and that promotion is assembly with a larger heap.
-/

namespace EffectScript

/-- An operation with its operand bytes, as it is emitted. -/
structure Emission where
  opcode : Opcode
  operands : List UInt8 := []
deriving DecidableEq

namespace Emission

/-- How many bytes the emission takes. -/
def size (emission : Emission) : Nat :=
  emission.operands.length + 1

/-- The operand of one byte. -/
def byte (emission : Emission) : UInt8 :=
  emission.operands.getD 0 0

/-- The operation that is written when the given slots hold boxes. -/
def written (heap : List UInt8) (emission : Emission) : Opcode :=
  match emission.opcode.promoted? with
  | some boxed => if emission.byte ∈ heap then boxed else emission.opcode
  | none => emission.opcode

/-- The bytes of the emission when the given slots hold boxes. -/
def bytes (heap : List UInt8) (emission : Emission) : List UInt8 :=
  (emission.written heap).toByte :: emission.operands

/-- The instruction that the emission becomes at an offset. -/
def placedAt (heap : List UInt8) (offset : Nat) (emission : Emission) :
    Instruction :=
  ⟨offset, emission.written heap, emission.operands⟩

/-- Whether the emission has as many operand bytes as its operation takes. -/
def Complete (emission : Emission) : Prop :=
  emission.operands.length = emission.opcode.operandCount

theorem size_pos (emission : Emission) : 0 < emission.size :=
  Nat.succ_pos _

@[simp]
theorem length_bytes (heap : List UInt8) (emission : Emission) :
    (emission.bytes heap).length = emission.size := rfl

/-- Boxing an access does not change the count of its operands. -/
theorem operandCount_written (heap : List UInt8) (emission : Emission) :
    (emission.written heap).operandCount = emission.opcode.operandCount := by
  unfold written
  split
  next boxed promotes =>
    split
    · exact Opcode.operandCount_of_promoted? promotes
    · rfl
  next => rfl

theorem Complete.size_written {emission : Emission}
    (complete : emission.Complete)
    (heap : List UInt8) :
    (emission.written heap).size = emission.size := by
  rw [Opcode.size, operandCount_written, size, complete]

/-- An operation without a boxed form is written as it is emitted. -/
theorem written_of_promoted?_eq_none {emission : Emission}
    (plain : emission.opcode.promoted? = none)
    (heap : List UInt8) :
    emission.written heap = emission.opcode := by
  simp [written, plain]

/-- An operation is written as it is emitted, unless it accesses a slot that
holds a box. -/
theorem written_cases (heap : List UInt8) (emission : Emission) :
    emission.written heap = emission.opcode ∨
      emission.opcode = .loadLocal ∧ emission.written heap = .loadHeap ∨
      emission.opcode = .storeLocal ∧ emission.written heap = .storeHeap := by
  unfold written
  split
  next boxed promotes =>
    split
    · cases operation : emission.opcode <;> rw [operation]
        at promotes <;> cases promotes <;> simp
    · exact .inl rfl
  next => exact .inl rfl

/-- Only an access is written as another operation than it is emitted as. -/
theorem opcode_of_written {emission : Emission}
    {heap : List UInt8} {opcode : Opcode}
    (unboxed : opcode ≠ .loadHeap ∧ opcode ≠ .storeHeap)
    (written : emission.written heap = opcode) :
    emission.opcode = opcode := by
  rcases emission.written_cases heap with same | ⟨_, boxed⟩ | ⟨_, boxed⟩
  · exact same.symm.trans written
  · exact absurd (written.symm.trans boxed) unboxed.1
  · exact absurd (written.symm.trans boxed) unboxed.2

end Emission

/-- An access to a slot goes through its box exactly when the slot holds one. -/
theorem Draft.written_access
    (draft : Draft) (slot : UInt8)
    {direct boxed : Opcode}
    (promotes : direct.promoted? = some boxed) :
    (⟨direct, [slot]⟩ : Emission).written draft.heapSlots =
      if draft.isHeap slot then boxed else direct := by
  simp [Emission.written, promotes, Emission.byte, isHeap]

theorem Draft.written_loadLocal (draft : Draft) (slot : UInt8) :
    (⟨.loadLocal, [slot]⟩ : Emission).written draft.heapSlots =
      if draft.isHeap slot then .loadHeap else .loadLocal :=
  draft.written_access slot rfl

theorem Draft.written_storeLocal (draft : Draft) (slot : UInt8) :
    (⟨.storeLocal, [slot]⟩ : Emission).written draft.heapSlots =
      if draft.isHeap slot then .storeHeap else .storeLocal :=
  draft.written_access slot rfl

/-- How many bytes the emissions take. -/
def totalSize : List Emission → Nat
  | [] => 0
  | emission :: emissions => emission.size + totalSize emissions

@[simp]
theorem totalSize_nil : totalSize [] = 0 := rfl

@[simp]
theorem totalSize_cons (emission : Emission) (emissions : List Emission) :
    totalSize (emission :: emissions) = emission.size +
      totalSize emissions := rfl

@[simp]
theorem totalSize_append (first second : List Emission) :
    totalSize (first ++ second) = totalSize first + totalSize second := by
  induction first with
  | nil => simp
  | cons emission others inner =>
      rw [List.cons_append, totalSize_cons, totalSize_cons, inner,
        Nat.add_assoc]

/-- The code of emissions when the given slots hold boxes. -/
def assemble (heap : List UInt8) (emissions : List Emission) : List UInt8 :=
  emissions.flatMap (Emission.bytes heap)

@[simp]
theorem assemble_nil (heap : List UInt8) : assemble heap [] = [] := rfl

@[simp]
theorem assemble_cons
    (heap : List UInt8) (emission : Emission)
    (emissions : List Emission) :
    assemble heap (emission :: emissions) = emission.bytes heap ++
      assemble heap emissions := rfl

@[simp]
theorem assemble_append (heap : List UInt8) (first second : List Emission) :
    assemble heap (first ++ second) = assemble heap first ++
      assemble heap second := by
  simp [assemble]

/-- The heap does not change how long code is. -/
@[simp]
theorem length_assemble (heap : List UInt8) (emissions : List Emission) :
    (assemble heap emissions).length = totalSize emissions := by
  induction emissions with
  | nil => rfl
  | cons emission emissions inner =>
      rw [assemble_cons, List.length_append, Emission.length_bytes, inner,
        totalSize_cons]

/-! ## Decoding -/

/-- A distance that has room in two bytes is read back from them. -/
theorem Instruction.bigEndian_shortBytes {distance : Nat}
    (small : distance ≤ 65535) :
    Instruction.bigEndian (UInt8.ofNat (distance / 256))
        (UInt8.ofNat (distance % 256)) =
      distance := by
  have high : (UInt8.ofNat (distance / 256)).toNat = distance / 256 :=
    UInt8.toNat_ofNat_of_lt' (show distance / 256 < 256 by omega)
  have low : (UInt8.ofNat (distance % 256)).toNat = distance % 256 :=
    UInt8.toNat_ofNat_of_lt' (show distance % 256 < 256 by omega)
  rw [Instruction.bigEndian, high, low]
  omega

/-- At the place of an emission, decoding finds the instruction that it became,
whatever stands behind it. -/
theorem decode_bytes {code : Array UInt8}
    {heap front back : List UInt8} {emission : Emission}
    (bytes : code.toList = front ++ (emission.bytes heap ++ back))
    (complete : emission.Complete) :
    Instruction.decode code front.length =
      .ok (emission.placedAt heap front.length) := by
  have sized : code.size = front.length + (emission.size + back.length) := by
    rw [← Array.length_toList, bytes, List.length_append, List.length_append,
      Emission.length_bytes]
  have bytesAt : code.toList =
      front ++
        ((emission.written heap).toByte :: (emission.operands ++ back)) := bytes
  have opcodeAt : code[front.length]? =
      some (emission.written heap).toByte := by
    rw [← Array.getElem?_toList, bytesAt,
      List.getElem?_append_right (Nat.le_refl _)]
    simp
  have enough : front.length + (emission.written heap).size ≤ code.size := by
    rw [complete.size_written, sized]
    omega
  have operandsAt : (code.extract (front.length + 1)
      (front.length + (emission.written heap).size)).toList =
        emission.operands := by
    rw [complete.size_written, Array.toList_extract, bytesAt,
      List.extract_eq_take_drop]
    have gap : front.length + emission.size - (front.length + 1) =
        emission.operands.length := by
      simp only [Emission.size]
      omega
    rw [gap, List.drop_append, List.drop_of_length_le (by simp)]
    simp
  simp only [Instruction.decode, opcodeAt, Opcode.ofByte?_toByte, enough,
    if_true, operandsAt]
  rfl

theorem decode_assemble {code : Array UInt8}
    {heap : List UInt8} {before after : List Emission} {emission : Emission}
    (assembled : code.toList = assemble heap (before ++ emission :: after))
    (complete : emission.Complete) :
    Instruction.decode code (totalSize before) =
      .ok (emission.placedAt heap (totalSize before)) := by
  have bytes : code.toList =
      assemble heap before ++ (emission.bytes heap ++ assemble heap after) := by
    rw [assembled, assemble_append, assemble_cons]
  have decoded := decode_bytes bytes complete
  rwa [length_assemble] at decoded

theorem next_placedAt {heap : List UInt8}
    {emission : Emission}
    (complete : emission.Complete)
    (offset : Nat) :
    (emission.placedAt heap offset).next = offset + emission.size :=
  congrArg (offset + ·) (complete.size_written heap)

theorem short_placedAt
    (opcode : Opcode) (heap : List UInt8) (offset : Nat)
    {distance : Nat}
    (fits : distance ≤ 65535) :
    ((⟨opcode, Instruction.shortBytes distance⟩ : Emission).placedAt heap
      offset).short = distance :=
  Instruction.bigEndian_shortBytes fits

theorem trailingShort_placedAt
    (opcode : Opcode) (effect : UInt8) (heap : List UInt8) (offset : Nat)
    {distance : Nat}
    (fits : distance ≤ 65535) :
    ((⟨opcode, effect :: Instruction.shortBytes distance⟩ : Emission).placedAt
      heap
      offset).trailingShort = distance :=
  Instruction.bigEndian_shortBytes fits

/-- The instructions that emissions become from an offset on. -/
def placed (heap : List UInt8) : Nat → List Emission → List Instruction
  | _, [] => []
  | offset, emission :: emissions =>
      emission.placedAt heap offset :: placed heap
        (offset + emission.size) emissions

@[simp]
theorem placed_append
    (heap : List UInt8) (offset : Nat)
    (emissions others : List Emission) :
    placed heap offset (emissions ++ others) =
      placed heap offset emissions ++ placed heap (offset + totalSize emissions)
        others := by
  induction emissions generalizing offset with
  | nil => rfl
  | cons first rest inner => simp [placed, inner, Nat.add_assoc]

theorem mem_placed
    (heap : List UInt8) (offset : Nat)
    (before after : List Emission)
    (emission : Emission) :
    emission.placedAt heap (offset + totalSize before) ∈
      placed heap offset (before ++ emission :: after) := by
  induction before generalizing offset with
  | nil => exact List.mem_cons_self
  | cons first others inner =>
      rw [totalSize_cons, ← Nat.add_assoc]
      exact List.mem_cons_of_mem _ (inner (offset + first.size))

/-- An instruction of placed emissions is one of them at its place. -/
theorem exists_of_mem_placed {heap : List UInt8}
    {offset : Nat} {emissions : List Emission} {instruction : Instruction}
    (member : instruction ∈ placed heap offset emissions) :
    ∃ before emission after, emissions = before ++ emission :: after ∧
      instruction = emission.placedAt heap (offset + totalSize before) := by
  induction emissions generalizing offset with
  | nil => cases member
  | cons first others inner =>
      rcases List.mem_cons.1 member with rfl | later
      · exact ⟨[], first, others, rfl, rfl⟩
      · obtain ⟨before, emission, after, rfl, rfl⟩ := inner later
        exact ⟨first :: before, emission, after, rfl, by
          rw [totalSize_cons, Nat.add_assoc]⟩

/-- A walk finds every emission, and then what it finds behind them. -/
theorem walkFrom_append {code : Array UInt8}
    {heap : List UInt8} {back : List UInt8}
    (before emissions : List Emission)
    (bytes : code.toList = assemble heap (before ++ emissions) ++ back)
    (complete : ∀ emission ∈ emissions, emission.Complete) :
    Instruction.walkFrom code (totalSize before) =
      ⟨placed heap (totalSize before) emissions ++
        (Instruction.walkFrom code
          (totalSize (before ++ emissions))).instructions,
        (Instruction.walkFrom code
          (totalSize (before ++ emissions))).fault⟩ := by
  induction emissions generalizing before with
  | nil => simp [placed]
  | cons emission others inner =>
      have emissionComplete := complete emission List.mem_cons_self
      have bytesHere : code.toList =
          assemble heap before ++
            (emission.bytes heap ++ (assemble heap others ++ back)) := by
        simp [bytes]
      have here := decode_bytes bytesHere emissionComplete
      rw [length_assemble] at here
      have width : ((emission.placedAt heap (totalSize before)).opcode).size =
          emission.size :=
        emissionComplete.size_written heap
      have onward : totalSize before + emission.size = totalSize
          (before ++ [emission]) := by
        simp
      have inside : totalSize before < code.size := by
        have positive := emission.size_pos
        rw [← Array.length_toList, bytes, List.length_append, length_assemble,
          totalSize_append, totalSize_cons]
        omega
      have rest := inner (before ++ [emission]) (by simpa using bytes)
        (fun other member => complete other (List.mem_cons_of_mem _ member))
      rw [List.append_cons, Instruction.walkFrom, if_pos inside, here]
      simp only [width, onward, placed]
      rw [rest]
      rfl

/-- A walk stops at the end of the code. -/
theorem walkFrom_end {code : Array UInt8} {offset : Nat}
    (outside : code.size ≤ offset) :
    Instruction.walkFrom code offset = ⟨[], none⟩ := by
  rw [Instruction.walkFrom, if_neg (Nat.not_lt.2 outside)]

theorem walk_assemble {code : Array UInt8}
    {heap : List UInt8} {emissions : List Emission}
    (assembled : code.toList = assemble heap emissions)
    (complete : ∀ emission ∈ emissions, emission.Complete) :
    Instruction.walk code = ⟨placed heap 0 emissions, none⟩ := by
  have walked := walkFrom_append [] emissions
    (assembled.trans (List.append_nil _).symm) complete
  have size : code.size = totalSize ([] ++ emissions) := by
    rw [← Array.length_toList, assembled, length_assemble, List.nil_append]
  rw [walkFrom_end (Nat.le_of_eq size), List.append_nil] at walked
  exact walked

/-! ## Promotion -/

@[simp]
theorem Draft.mem_insertSlot {slot other : UInt8} {slots : List UInt8} :
    other ∈ Draft.insertSlot slot slots ↔ other = slot ∨ other ∈ slots := by
  induction slots with
  | nil => simp [Draft.insertSlot]
  | cons first rest inner =>
      simp only [Draft.insertSlot]
      split
      · simp
      · split
        next equal =>
          subst equal
          simp
        next =>
          simp only [List.mem_cons, inner]
          grind

/-- Promoting one emission writes it as a larger heap has it. -/
theorem promoteInstruction_at {slot : UInt8}
    {heap : List UInt8}
    (new : slot ∉ heap)
    {front back : List UInt8} {code : Array UInt8} {emission : Emission}
    (assembled : code.toList = front ++ (emission.bytes heap ++ back)) :
    (Draft.promoteInstruction slot code
        (emission.placedAt heap front.length)).toList =
      front ++ (emission.bytes (Draft.insertSlot slot heap) ++ back) := by
  have rewritten (opcode : Opcode) :
      code.toList.set front.length opcode.toByte =
        front ++ opcode.toByte :: (emission.operands ++ back) := by
    rw [assembled]
    simp [Emission.bytes]
  have byteEq : (emission.placedAt heap front.length).byte =
      emission.byte := rfl
  unfold Draft.promoteInstruction
  rw [byteEq]
  simp only [Emission.placedAt, Emission.bytes, Emission.written] at *
  cases promotes : emission.opcode.promoted? with
  | none =>
      simp only [promotes] at assembled ⊢
      simpa using assembled
  | some boxed =>
      have last : boxed.promoted? = none := by
        cases opcodeEq : emission.opcode <;> rw [opcodeEq] at promotes <;>
          simp_all [Opcode.promoted?] <;> subst promotes <;> rfl
      by_cases held : emission.byte ∈ heap
      · simp only [promotes, held, if_true, last, Draft.mem_insertSlot, or_true]
          at assembled ⊢
        exact assembled
      · by_cases same : emission.byte = slot
        · simp [promotes, same, new, rewritten]
        · simpa [promotes, held, same] using assembled

/-- Promoting the instructions of assembled code assembles it with a larger
heap, whatever stands behind it. -/
theorem promoteAll_assemble {slot : UInt8}
    {heap : List UInt8}
    (new : slot ∉ heap)
    (before emissions : List Emission)
    (back : List UInt8)
    {code : Array UInt8}
    (bytes : code.toList = assemble (Draft.insertSlot slot heap) before ++
      (assemble heap emissions ++ back)) :
    ((placed heap (totalSize before) emissions).foldl
        (Draft.promoteInstruction slot) code).toList =
      assemble (Draft.insertSlot slot heap) (before ++ emissions) ++ back := by
  induction emissions generalizing before code with
  | nil => simpa [placed] using bytes
  | cons emission others inner =>
      have front : (assemble (Draft.insertSlot slot heap) before).length =
          totalSize before := length_assemble _ _
      rw [assemble_cons, List.append_assoc] at bytes
      have promoted := promoteInstruction_at new bytes
      rw [front] at promoted
      have onward : totalSize before + emission.size = totalSize
          (before ++ [emission]) := by
        simp
      simp only [placed, List.foldl_cons, onward]
      rw [inner (before ++ [emission]) (by simpa using promoted)]
      simp

end EffectScript
