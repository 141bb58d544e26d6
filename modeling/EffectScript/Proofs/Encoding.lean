import EffectScript.Proofs.Assembly

/-!
# The encoding of instructions

A walk reads code as a sequence of instructions of different lengths, so one
wrong step would put every later one out of place. This module says what a walk
finds, in both directions.

Encodings written one after the other are walked back into the same
instructions. And of any bytes at all, the instructions found encode exactly the
part of the code that the walk went through: it ends without a fault when that
part is all of the code, and else the fault says what is wrong with the byte
that comes next.
-/

namespace EffectScript

/-- The bytes of an emission: the number of its operation, then its operands. -/
def Emission.encode (emission : Emission) : List UInt8 :=
  emission.opcode.toByte :: emission.operands

@[simp]
theorem Emission.bytes_nil (emission : Emission) :
    emission.bytes [] = emission.encode := by
  unfold Emission.bytes Emission.encode Emission.written
  split <;> simp

/-- Without boxes, assembling writes the encodings one after the other. -/
theorem assemble_nil_heap (emissions : List Emission) :
    assemble [] emissions = emissions.flatMap Emission.encode := by
  rw [assemble, funext Emission.bytes_nil]

namespace Instruction

/-- The operation with its operand bytes, without the offset. -/
def emission (instruction : Instruction) : Emission :=
  ⟨instruction.opcode, instruction.operands⟩

/-- The instructions follow each other from an offset on: each stands where the
encodings before it end, and has as many operand bytes as its operation
takes. -/
def Successive : Nat → List Instruction → Prop
  | _, [] => True
  | offset, instruction :: others =>
      instruction.offset = offset ∧ instruction.emission.Complete ∧
        Successive (offset + instruction.encode.length) others

/-- The fault that a byte of the code causes: it is the number of no operation,
or the operands of its operation run past the end. -/
def FaultAt (code : Array UInt8) (offset : Nat) (fault : Fault) : Prop :=
  ∃ byte, code[offset]? = some byte ∧
    (Opcode.ofByte? byte = none ∧ fault = .unknownOpcode byte offset ∨
      ∃ opcode, Opcode.ofByte? byte = some opcode ∧
        code.size < offset + opcode.size ∧
        fault = .corrupt (.truncated opcode offset))

/-- The offset that a walk reached: where its last instruction ends. -/
def Walk.reached (walk : Walk) : Nat :=
  (walk.instructions.getLast?.map next).getD 0

theorem length_encode {instruction : Instruction}
    (complete : instruction.emission.Complete) :
    instruction.encode.length = instruction.opcode.size :=
  congrArg (· + 1) complete

/-- Without boxes, the instructions that emissions become are these
emissions. -/
theorem map_emission_placed (offset : Nat) (emissions : List Emission) :
    (placed [] offset emissions).map emission = emissions := by
  induction emissions generalizing offset with
  | nil => rfl
  | cons first others inner =>
      have same : first.written [] = first.opcode := by
        unfold Emission.written
        split <;> simp
      simp only [placed, List.map_cons, inner, emission,
        Emission.placedAt, same]

/-! ## One instruction -/

/-- The number of an operation is the byte that it was read from. -/
theorem toByte_of_ofByte? {byte : UInt8} {opcode : Opcode}
    (found : Opcode.ofByte? byte = some opcode) :
    opcode.toByte = byte := by
  unfold Opcode.ofByte? at found
  split at found <;> cases found <;> exact UInt8.toNat_inj.1 (Eq.symm ‹_›)

/-- The bytes from an offset on are those up to a later offset and those from
there on. -/
theorem toList_drop_eq_extract
    (code : Array UInt8)
    {first last : Nat}
    (ordered : first ≤ last) :
    code.toList.drop first = (code.extract first last).toList ++
      code.toList.drop last := by
  have later : code.toList.drop last = (code.toList.drop first).drop
      (last - first) := by
    rw [List.drop_drop, Nat.add_sub_cancel' ordered]
  rw [Array.toList_extract, List.extract_eq_take_drop, later,
    List.take_append_drop]

/-- A decoded instruction stands at its offset, is complete, and encodes the
bytes up to the next. -/
theorem of_decode_eq_ok {code : Array UInt8} {offset : Nat}
    {instruction : Instruction}
    (decoded : decode code offset = .ok instruction) :
    instruction.offset = offset ∧ instruction.emission.Complete ∧
      offset + instruction.opcode.size ≤ code.size ∧
      code.toList.drop offset =
        instruction.encode ++ code.toList.drop
          (offset + instruction.opcode.size) := by
  unfold decode at decoded
  split at decoded
  next => cases decoded
  next byte byteAt =>
    split at decoded
    next => cases decoded
    next opcode known =>
      split at decoded
      next fits =>
        cases decoded
        obtain ⟨inside, rfl⟩ := Array.getElem?_eq_some_iff.1 byteAt
        refine ⟨rfl, ?_, fits, ?_⟩
        · show (code.extract (offset + 1)
            (offset + opcode.size)).toList.length = opcode.operandCount
          simp only [Array.length_toList, Array.size_extract, Opcode.size]
            at fits ⊢
          omega
        · have first : code.toList.drop offset = code[offset] ::
              code.toList.drop (offset + 1) := by
            rw [List.drop_eq_getElem_cons (by simpa using inside),
              Array.getElem_toList]
          have operands := toList_drop_eq_extract code
            (Nat.add_le_add_left opcode.size_pos offset :
              offset + 1 ≤ offset + opcode.size)
          rw [first, operands, encode, toByte_of_ofByte? known]
          rfl
      next => cases decoded

/-- Inside the code, decoding fails exactly with the fault that the byte there
causes. -/
theorem decode_eq_error_iff {code : Array UInt8}
    {offset : Nat}
    (inside : offset < code.size)
    {fault : Fault} :
    decode code offset = .error fault ↔ FaultAt code offset fault := by
  have byteAt : code[offset]? = some code[offset] :=
    Array.getElem?_eq_getElem inside
  unfold decode FaultAt
  simp only [byteAt, Option.some.injEq, exists_eq_left']
  cases known : Opcode.ofByte? code[offset] with
  | none => simp [eq_comm]
  | some opcode =>
      by_cases fits : offset + opcode.size ≤ code.size
      · simp [fits, Nat.not_lt.2 fits]
      · simp [fits, Nat.lt_of_not_le fits, eq_comm]

/-- A byte past the end causes no fault. -/
theorem not_faultAt {code : Array UInt8} {offset : Nat}
    (outside : code.size ≤ offset)
    (fault : Fault) :
    ¬ FaultAt code offset fault := by
  rintro ⟨byte, byteAt, _⟩
  rw [Array.getElem?_eq_none outside] at byteAt
  cases byteAt

/-! ## Walks -/

/-- What a walk from an offset finds: its instructions follow each other and
encode the bytes from there to where it stops, which is the end of the code or a
byte that causes the fault. -/
structure WalksTo (code : Array UInt8) (offset stop : Nat) (walk : Walk) :
    Prop where
  successive : Successive offset walk.instructions
  inside : stop ≤ code.size
  stops : stop = (walk.instructions.getLast?.map next).getD offset
  encodes : code.toList.drop offset = walk.instructions.flatMap encode ++
    code.toList.drop stop
  ends : walk.fault = none ↔ stop = code.size
  faults : ∀ fault, walk.fault = some fault ↔ FaultAt code stop fault

theorem walksTo_walkFrom
    (code : Array UInt8) (offset : Nat)
    (inside : offset ≤ code.size) :
    ∃ stop, WalksTo code offset stop (walkFrom code offset) := by
  -- The induction is on the walk itself: an instruction, a fault, or the end of
  -- the code.
  induction offset using walkFrom.induct code with
  | case1 offset before instruction decoded inner =>
      obtain ⟨atOffset, complete, fits, encoded⟩ := of_decode_eq_ok decoded
      obtain ⟨stop, walks⟩ := inner fits
      have unfolded : walkFrom code offset =
          ⟨instruction ::
            (walkFrom code (offset + instruction.opcode.size)).instructions,
            (walkFrom code (offset + instruction.opcode.size)).fault⟩ := by
        rw [walkFrom, if_pos before, decoded]
      have lastNext : (((instruction ::
          (walkFrom code
            (offset + instruction.opcode.size)).instructions).getLast?).map
            next).getD offset = stop := by
        rw [walks.stops, List.getLast?_cons]
        cases (walkFrom code
          (offset + instruction.opcode.size)).instructions.getLast? with
        | none => simp [next, atOffset]
        | some last => rfl
      rw [unfolded]
      refine ⟨stop, ⟨⟨atOffset, complete, ?_⟩, walks.inside, lastNext.symm,
        ?_, walks.ends, walks.faults⟩⟩
      · rw [length_encode complete]
        exact walks.successive
      · rw [encoded, walks.encodes, List.flatMap_cons, List.append_assoc]
  | case2 offset before fault decoded =>
      have unfolded : walkFrom code offset = ⟨[], some fault⟩ := by
        rw [walkFrom, if_pos before, decoded]
      rw [unfolded]
      refine ⟨offset, ⟨trivial, inside, rfl, rfl, ?_, fun other => ?_⟩⟩
      · simp [Nat.ne_of_lt before]
      · rw [← decode_eq_error_iff before, decoded, Option.some.injEq,
          Except.error.injEq]
  | case3 offset after =>
      have unfolded : walkFrom code offset = ⟨[], none⟩ := by
        rw [walkFrom, if_neg after]
      rw [unfolded]
      refine ⟨offset, ⟨trivial, inside, rfl, rfl, ?_, fun fault => ?_⟩⟩
      · simpa using Nat.le_antisymm inside (Nat.le_of_not_lt after)
      · simpa using not_faultAt (Nat.le_of_not_lt after) fault

/-- Instructions and their encodings determine each other. Complete instructions
written one after the other are walked back with their true offsets and without
a fault. In any code, the instructions of the walk encode the bytes before the
offset that it reached; it ends without a fault exactly when that is the end of
the code, and with a fault exactly when the byte there causes it. -/
theorem walk_inverts_encode :
    (∀ emissions : List Emission, (∀ emission ∈ emissions, emission.Complete) →
      ∃ instructions, walk (emissions.flatMap Emission.encode).toArray =
          ⟨instructions, none⟩ ∧
        instructions.map emission = emissions ∧ Successive 0 instructions) ∧
    ∀ code : Array UInt8,
      Successive 0 (walk code).instructions ∧ (walk code).reached ≤ code.size ∧
      (walk code).instructions.flatMap encode =
        code.toList.take (walk code).reached ∧
      ((walk code).fault = none ↔ (walk code).reached = code.size) ∧
      ∀ fault, (walk code).fault = some fault ↔
        FaultAt code (walk code).reached fault := by
  constructor
  · intro emissions complete
    have walked : walk (emissions.flatMap Emission.encode).toArray =
        ⟨placed [] 0 emissions, none⟩ :=
      walk_assemble (assemble_nil_heap emissions).symm complete
    obtain ⟨stop, walks⟩ :=
      walksTo_walkFrom (emissions.flatMap Emission.encode).toArray 0
        (Nat.zero_le _)
    have successive := walks.successive
    rw [show walkFrom _ 0 = _ from walked] at successive
    exact ⟨_, walked, map_emission_placed 0 emissions, successive⟩
  · intro code
    obtain ⟨stop, walks⟩ := walksTo_walkFrom code 0 (Nat.zero_le _)
    obtain rfl : stop = (walk code).reached := walks.stops
    refine ⟨walks.successive, walks.inside, ?_, walks.ends, walks.faults⟩
    have encodes : code.toList =
        (walk code).instructions.flatMap encode ++ code.toList.drop
          (walk code).reached := walks.encodes
    have sized := congrArg List.length encodes
    simp only [List.length_append, List.length_drop, Array.length_toList]
      at sized
    have inside := walks.inside
    rw [encodes, List.take_left' (by omega)]

/-- Instructions of one, two and four bytes come back, also where operand bytes
are numbers of operations; a jump without its second operand byte is a fault at
the offset of the jump. -/
theorem walk_inverts_encode_mixed :
    (∃ instructions,
      walk #[0, 27, 27, 1, 12, 255, 16] = ⟨instructions, none⟩ ∧
        instructions.map emission =
          [⟨.loadConst, [27]⟩, ⟨.setHandler, [1, 12, 255]⟩, ⟨.return, []⟩] ∧
        Successive 0 instructions) ∧
      (walk #[16, 12, 0]).fault = some (.corrupt (.truncated .jump 1)) := by
  refine ⟨walk_inverts_encode.1
    [⟨.loadConst, [27]⟩, ⟨.setHandler, [1, 12, 255]⟩, ⟨.return, []⟩] ?_,
    ((walk_inverts_encode.2 #[16, 12, 0]).2.2.2.2 _).2 ?_⟩
  · unfold Emission.Complete
    decide
  · have reached : (walk #[16, 12, 0]).reached = 1 := by decide +kernel
    rw [reached]
    exact ⟨12, rfl, .inr ⟨.jump, rfl, by decide, rfl⟩⟩

end Instruction

end EffectScript
